import NetDisk.Printed

/-!
# The server's code over the array of `ShellOut`

The code of the server asks for a command and gets what it printed. Here `Public.shellOut` is what runs it, on a stack
that holds anything; a store outside the array ends the run.
-/

namespace NetDisk

open Prog Public

/-- What the operations reply, and for a command what `popen` gives and the stack that `ShellOut` finds. -/
structure Outside (σ : Type) where
  reply : Prog.Handler Sys Sys.Res σ
  popen : Bytes → σ → Option Pipe
  stack : Bytes → σ → Stack

namespace Outside

variable {σ : Type} (o : Outside σ)

def exec : (op : Sys) → σ → Option (op.Res × σ)
  | .shell cmd, s => (Public.shellOut (o.stack cmd s) (fun _ => o.popen cmd s) cmd []).map fun r =>
      (if r.1 = 0 then some r.2 else none, (o.reply (.shell cmd) s).2)
  | op, s => some (o.reply op s)

/-- The replies where all that is printed fits. -/
def answers : Prog.Handler Sys Sys.Res σ
  | .shell cmd, s =>
    ((o.popen cmd s).map fun fp => cStr (overlay (o.stack cmd s).memory fp.output), (o.reply (.shell cmd) s).2)
  | op, s => o.reply op s

/-- Commands print nothing but `outputs`. -/
def Prints (outputs : Set Pipe) : Prop := ∀ cmd s fp, o.popen cmd s = some fp → fp ∈ outputs

variable {o}

theorem exec_shell (cmd : Bytes) (s : σ) : o.exec (.shell cmd) s =
    (Public.shellOut (o.stack cmd s) (fun _ => o.popen cmd s) cmd []).map fun r =>
      (if r.1 = 0 then some r.2 else none, (o.reply (.shell cmd) s).2) := rfl

theorem answers_shell (cmd : Bytes) (s : σ) : o.answers (.shell cmd) s =
    ((o.popen cmd s).map fun fp => cStr (overlay (o.stack cmd s).memory fp.output), (o.reply (.shell cmd) s).2) := rfl

theorem exec_shell_fits {cmd : Bytes} {s : σ} (h : ∀ fp, o.popen cmd s = some fp → fp.output.length ≤ shelloutMaxLen) :
    o.exec (.shell cmd) s = some (o.answers (.shell cmd) s) := by
  rw [exec_shell, answers_shell]
  cases hfp : o.popen cmd s with
  | none =>
    rw [shellOut_fails _ (fun _ => none) rfl]
    rfl
  | some fp =>
    rw [shellOut_fits _ (fun _ => some fp) rfl (h fp hfp)]
    rfl

/-- With a NUL behind what fits, the reply is what the command printed. -/
theorem answers_printed {cmd : Bytes} {s : σ} (h0 : ∀ fp, o.popen cmd s = some fp → (0 : Byte) ∉ fp.output)
    (h : ∀ fp, o.popen cmd s = some fp → (o.stack cmd s).Ends fp.output) :
    (o.answers (.shell cmd) s).1 = (o.popen cmd s).map Pipe.output := by
  rw [answers_shell]
  cases hfp : o.popen cmd s with
  | none => rfl
  | some fp => exact congrArg some ((Stack.str_eq_iff _ (h0 fp hfp) (h fp hfp).1).mpr (h fp hfp).2)

variable {outputs : Set Pipe} {α : Type}

/-- Code whose commands print no more than fits runs to its end. -/
theorem tryRun_fits (ho : o.Prints outputs) (hfits : ∀ fp ∈ outputs, fp.output.length ≤ shelloutMaxLen) (p : Code α)
    (s : σ) : p.tryRun o.exec s = some (p.run o.answers s) := by
  refine (Uses.any p).tryRun (fun op s _ => ?_) s
  cases op with
  | shell cmd => exact exec_shell_fits fun fp hfp => hfits fp (ho cmd s fp hfp)
  | _ => rfl

theorem md5Sum_tryRun (path : Bytes) (s : σ) : (NetDisk.md5Sum path).tryRun o.exec s =
    (Public.md5Sum (o.stack (cStr (ascii "md5sum " ++ path)) s)
      (fun _ => o.popen (cStr (ascii "md5sum " ++ path)) s) path []).map fun r =>
        (if r.1 = 0 then some r.2 else none, (o.reply (.shell (cStr (ascii "md5sum " ++ path))) s).2) := by
  unfold NetDisk.md5Sum NetDisk.shellOut sys Public.md5Sum
  rw [lift_bind, tryRun, exec_shell]
  generalize hcmd : cStr (ascii "md5sum " ++ path) = cmd
  cases hfp : o.popen cmd s with
  | none =>
    rw [shellOut_fails _ (fun _ => none) rfl, shellOut_fails _ (fun _ => none) rfl]
    rfl
  | some fp =>
    by_cases hlen : fp.output.length ≤ shelloutMaxLen
    · rw [shellOut_fits _ (fun _ => some fp) rfl hlen, shellOut_fits _ (fun _ => some fp) rfl hlen]
      rfl
    · rw [shellOut_over _ (fun _ => some fp) rfl (by omega), shellOut_over _ (fun _ => some fp) rfl (by omega)]
      rfl

end Outside

end NetDisk
