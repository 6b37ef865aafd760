import NetDisk.MachineSpec

/-!
# Operations that fail

The machine when something goes wrong with some of the operations, each time in its own way.
-/

namespace NetDisk

theorem eio_ne_eexist : (Errno.eio) ≠ .eexist := by decide

/-- What goes wrong with one operation: the error of a system call, how much of a buffer is written, and what
`ShellOut` makes of a command, which may have done its work all the same. -/
structure Fault where
  err : Errno
  err_ne : err ≠ .eexist
  written : Nat
  text : Option Bytes
  done : Bool

/-- A state, and what goes wrong with the operations to come. -/
structure Faulty where
  world : World
  faults : Nat → Option Fault

def Faulty.rest (s : Faulty) : Nat → Option Fault := fun k => s.faults (k + 1)

/-- Every operation can fail. -/
def anyFails (_ : Sys) : Bool := true

namespace Machine

def failed (f : Fault) (env : Env) (tid : Nat) : Prog.Handler Sys Sys.Res World
  | .mkdir _, w | .remove _, w | .symlink _ _, w => (some f.err, w)
  | .opendir _, w | .access _, w | .query _, w => (false, w)
  | .readdir _, w | .openFile _, w => (none, w)
  | .write fd buf, w => (none, (exec env tid (.write fd (buf.take f.written)) w).2)
  | .shell cmd, w => (f.text, if f.done then (exec env tid (.shell cmd) w).2 else w)
  | op, w => exec env tid op w

/-- Only the operations that `can` go wrong do. -/
def faulty (can : Sys → Bool) (env : Env) (tid : Nat) : Prog.Handler Sys Sys.Res Faulty :=
  fun op s =>
    match s.faults 0 with
    | some f =>
      if can op then ((failed f env tid op s.world).1, ⟨(failed f env tid op s.world).2, s.rest⟩)
      else ((exec env tid op s.world).1, ⟨(exec env tid op s.world).2, s.rest⟩)
    | none => ((exec env tid op s.world).1, ⟨(exec env tid op s.world).2, s.rest⟩)

variable {can : Sys → Bool} {env : Env} {tid : Nat} {op : Sys} {s : Faulty}

theorem faulty_none (h : s.faults 0 = none) :
    faulty can env tid op s = ((exec env tid op s.world).1, ⟨(exec env tid op s.world).2, s.rest⟩) := by
  simp only [faulty, h]

theorem faulty_cannot (h : can op = false) :
    faulty can env tid op s = ((exec env tid op s.world).1, ⟨(exec env tid op s.world).2, s.rest⟩) := by
  unfold faulty
  cases s.faults 0 with
  | none => rfl
  | some f => simp only [h, Bool.false_eq_true, if_false]

theorem faulty_some {f : Fault} (h : s.faults 0 = some f) (hcan : can op = true) :
    faulty can env tid op s = ((failed f env tid op s.world).1, ⟨(failed f env tid op s.world).2, s.rest⟩) := by
  simp only [faulty, h, hcan, if_true]

theorem faulty_rest (can : Sys → Bool) (env : Env) (tid : Nat) (op : Sys) (s : Faulty) :
    (faulty can env tid op s).2.faults = fun k => s.faults (k + 1) := by
  unfold faulty
  cases s.faults 0 with
  | none => rfl
  | some f => cases can op <;> rfl

theorem faulty_spec {Q : op.Res → World → Prop} (hok : Q (exec env tid op s.world).1 (exec env tid op s.world).2)
    (hfail : can op = true → ∀ f, Q (failed f env tid op s.world).1 (failed f env tid op s.world).2) :
    Q (faulty can env tid op s).1 (faulty can env tid op s).2.world := by
  cases h : s.faults 0 with
  | none =>
    rw [faulty_none h]
    exact hok
  | some f =>
    cases hcan : can op with
    | false =>
      rw [faulty_cannot hcan]
      exact hok
    | true =>
      rw [faulty_some h hcan]
      exact hfail hcan f

/-! ## Operations that fail by what they are -/

/-- The operations with a fault in `plan` go wrong, each time. -/
def planned (plan : Sys → Option Fault) (env : Env) (tid : Nat) : Prog.Handler Sys Sys.Res World :=
  fun op w =>
    match plan op with
    | some f => failed f env tid op w
    | none => exec env tid op w

variable {plan : Sys → Option Fault}

theorem planned_none (h : plan op = none) : planned plan env tid op = exec env tid op := by
  funext w
  simp only [planned, h]

theorem planned_some {f : Fault} (h : plan op = some f) : planned plan env tid op = failed f env tid op := by
  funext w
  simp only [planned, h]

end Machine

end NetDisk
