import NetDisk.Leaks
import NetDisk.Rejected

/-!
# Runs under a limit of descriptors

An operation that lacks a descriptor fails. So a helper under the limit runs as on the machine alone, with one more
fault at its first operation.
-/

namespace NetDisk

open Prog Machine

namespace Host

/-- What goes wrong with an operation that asks for `n` descriptors, when `free` are left. -/
def felt (free n : Nat) (fault : Option Fault) : Option Fault := if free < n then some tooMany else fault

variable {limit : Nat} {env : Env} {tid : Nat} {α β : Type}

/-! ## A run felt by the machine -/

/-- The faults of a run that starts with `fault`. -/
def first (fault : Option Fault) (faults : Nat → Option Fault) : Nat → Option Fault
  | 0 => fault
  | k + 1 => faults k

/-- The machine under the host, before an operation that asks for `n` descriptors. -/
def feels (limit n : Nat) (s : Host) : Faulty :=
  ⟨s.machine.world, first (felt (limit - s.used) n (s.machine.faults 0)) (later s.machine.faults)⟩

@[simp] theorem felt_zero (free : Nat) (fault : Option Fault) : felt free 0 fault = fault := if_neg (Nat.not_lt_zero _)

theorem first_zero (free : Nat) (faults : Nat → Option Fault) :
    first (felt free 0 (faults 0)) (later faults) = faults := by
  rw [felt_zero]
  funext k
  cases k <;> rfl

theorem first_later (fault : Option Fault) (faults : Nat → Option Fault) (n k : Nat) :
    first fault (later faults) (k + (n + 3)) = faults (k + (n + 1 + 2)) := rfl

theorem feels_zero (limit : Nat) (s : Host) : feels limit 0 s = s.machine := by
  unfold feels
  rw [first_zero]

theorem ask_eq (op : Sys) (s : Host) : ask limit env tid op s = faulty anyFails env tid op (feels limit (needs op) s) := by
  unfold ask
  by_cases h : Lacks limit op s
  · obtain ⟨hneeds, hlack⟩ := id h
    have hfelt : (feels limit (needs op) s).faults 0 = some tooMany := if_pos (by omega)
    rw [if_pos h, faulty_some hfelt rfl]
    rfl
  · have hfree : ¬ limit - s.used < needs op := by
      unfold Lacks at h
      omega
    have hfeels : feels limit (needs op) s = feels limit 0 s := by
      unfold feels felt
      rw [if_neg hfree, if_neg (Nat.not_lt_zero _)]
    rw [if_neg h, hfeels, feels_zero]

theorem ask_opendir (path : Bytes) (s : Host) : ask limit env tid (.opendir path) s =
    ((ask limit env tid (.readdir path) s).1.isSome, (ask limit env tid (.readdir path) s).2) := by
  rw [ask_eq, ask_eq]
  change faulty anyFails env tid (.opendir path) (feels limit 1 s) =
    ((faulty anyFails env tid (.readdir path) (feels limit 1 s)).1.isSome,
      (faulty anyFails env tid (.readdir path) (feels limit 1 s)).2)
  generalize feels limit 1 s = t
  cases h0 : t.faults 0 with
  | none =>
    rw [faulty_none h0, faulty_none h0]
    exact Prod.ext Option.isSome_map.symm rfl
  | some f =>
    rw [faulty_some h0 rfl, faulty_some h0 rfl]
    rfl

variable (limit env tid) in
theorem exec_asks (op : Sys) (s : Host) : (exec limit env tid op s).1 = (ask limit env tid op s).1 ∧
    (exec limit env tid op s).2.machine = (ask limit env tid op s).2 := by
  cases op with
  | opendir path =>
    rw [ask_opendir]
    cases hreply : (ask limit env tid (.readdir path) s).1 with
    | none =>
      rw [exec_opendir_none hreply]
      exact ⟨rfl, rfl⟩
    | some entries =>
      rw [exec_opendir_some hreply]
      exact ⟨rfl, rfl⟩
  | readdir path =>
    cases hreply : (ask limit env tid (.readdir path) s).1 with
    | none =>
      rw [exec_readdir_none hreply]
      exact ⟨rfl, rfl⟩
    | some entries =>
      rw [exec_readdir_some hreply]
      exact ⟨rfl, rfl⟩
  | shell cmd =>
    rw [exec_shell]
    exact ⟨rfl, rfl⟩
  | fetch =>
    rw [exec_fetch]
    split
    · exact ⟨rfl, rfl⟩
    · rename_i hpending
      refine ⟨?_, rfl⟩
      have hnone : s.machine.world.pending tid = none := Option.not_isSome_iff_eq_none.mp hpending
      have hreply : (Machine.exec env tid .fetch s.machine.world).1 = none := by
        change (s.machine.world.pending tid).bind List.head? = none
        rw [hnone]
        rfl
      rw [ask_eq]
      change none = (faulty anyFails env tid .fetch (feels limit 0 s)).1
      cases h0 : (feels limit 0 s).faults 0 with
      | none =>
        rw [faulty_none h0]
        exact hreply.symm
      | some f =>
        rw [faulty_some h0 rfl]
        exact hreply.symm
  | _ => exact ⟨rfl, rfl⟩

variable (limit env tid) in
theorem run_needless {p : Code α} (hp : p.Uses fun op => needs op = 0) (s : Host) :
    (p.run (exec limit env tid) s).1 = (p.run (faulty anyFails env tid) s.machine).1 ∧
    (p.run (exec limit env tid) s).2.machine = (p.run (faulty anyFails env tid) s.machine).2 := by
  induction p generalizing s with
  | pure a => exact ⟨rfl, rfl⟩
  | call op next ih =>
    obtain ⟨hreply, hmachine⟩ := exec_asks limit env tid op s
    rw [ask_eq, hp.1, feels_zero] at hreply hmachine
    rw [run_call, run_call, hreply, ← hmachine]
    exact ih _ (hp.2 _) _

variable (env tid) in
theorem faulty_first (op : Sys) (t : Faulty) (faults : Nat → Option Fault) :
    faulty anyFails env tid op ⟨t.world, first (t.faults 0) faults⟩ =
      ((faulty anyFails env tid op t).1, ⟨(faulty anyFails env tid op t).2.world, faults⟩) := by
  cases h0 : t.faults 0 with
  | none =>
    rw [faulty_none rfl, faulty_none h0]
    rfl
  | some f =>
    rw [faulty_some rfl rfl, faulty_some h0 rfl]
    rfl

variable (limit env tid) in
/-- Any run under the limit is one of the machine alone, with other faults. -/
theorem run_faulty (c : Code α) (s : Host) : ∃ faults,
    (c.run (exec limit env tid) s).1 = (c.run (faulty anyFails env tid) ⟨s.machine.world, faults⟩).1 ∧
    (c.run (exec limit env tid) s).2.machine.world =
      (c.run (faulty anyFails env tid) ⟨s.machine.world, faults⟩).2.world := by
  induction c generalizing s with
  | pure a => exact ⟨fun _ => none, rfl, rfl⟩
  | call op next ih =>
    obtain ⟨hreply, hmachine⟩ := exec_asks limit env tid op s
    rw [ask_eq] at hreply hmachine
    obtain ⟨faults, hrun⟩ := ih (exec limit env tid op s).1 (exec limit env tid op s).2
    have hstep : faulty anyFails env tid op ⟨s.machine.world, first ((feels limit (needs op) s).faults 0) faults⟩ = _ :=
      faulty_first env tid op (feels limit (needs op) s) faults
    rw [← hreply, ← hmachine] at hstep
    refine ⟨first ((feels limit (needs op) s).faults 0) faults, ?_⟩
    rw [run_call, run_call, hstep]
    exact hrun

/-- Only the first operation asks for descriptors, and that for `n`. -/
def First (n : Nat) (c : Code α) : Prop :=
  ∃ op next, c = .call op next ∧ needs op = n ∧ ∀ r, (next r).Uses fun op => needs op = 0

variable (limit env tid) in
theorem First.run {n : Nat} {c : Code α} (hc : First n c) (s : Host) :
    (c.run (exec limit env tid) s).1 = (c.run (faulty anyFails env tid) (feels limit n s)).1 ∧
    (c.run (exec limit env tid) s).2.machine = (c.run (faulty anyFails env tid) (feels limit n s)).2 := by
  obtain ⟨op, next, rfl, rfl, hnext⟩ := hc
  obtain ⟨hreply, hmachine⟩ := exec_asks limit env tid op s
  rw [ask_eq] at hreply hmachine
  rw [run_call, run_call, hreply, ← hmachine]
  exact run_needless limit env tid (hnext _) _

/-! ## Step by step -/

/-- The files, what goes wrong from here on, and the descriptors that are left. -/
structure On (limit free : Nat) (fs : FS) (faults : Nat → Option Fault) (s : Host) : Prop where
  files : s.machine.world.fs = fs
  faults : s.machine.faults = faults
  free : limit - s.used = free

variable {free n : Nat} {fs fs' : FS} {faults faults' : Nat → Option Fault} {s : Host} {X : Prop}

theorem On.feels (hs : On limit free fs faults s) (n : Nat) :
    feels limit n s = ⟨s.machine.world, first (felt free n (faults 0)) (later faults)⟩ := by
  unfold Host.feels
  rw [hs.free, hs.faults]

/-- A function that is done with one descriptor, or two, and gives them back. -/
structure Helper (limit : Nat) (env : Env) (tid n : Nat) (c : Code α) : Prop where
  first : First n c
  tidy : Tidy limit env tid c
  balanced : Balanced limit env tid c

theorem On.gives {c : Code α} {a : α} {w' : World} (hs : On limit free fs faults s) (hc : First n c)
    (hleft : left limit env tid c s = 0) (hbal : Balanced limit env tid c)
    (hrun : c.run (faulty anyFails env tid) ⟨s.machine.world, first (felt free n (faults 0)) (later faults)⟩ =
      (a, ⟨w', faults'⟩)) :
    ∃ s', Gives limit env tid c s a s' ∧ On limit free w'.fs faults' s' ∧ s'.machine.world = w' := by
  obtain ⟨hval, hmachine⟩ := hc.run limit env tid s
  rw [hs.feels, hrun] at hval hmachine
  refine ⟨(c.run (exec limit env tid) s).2, Prod.ext hval rfl, ⟨?_, ?_, ?_⟩, ?_⟩
  · rw [hmachine]
  · rw [hmachine]
  · unfold used
    rw [hbal.opened, hleft, zero_add]
    exact hs.free
  · rw [hmachine]

theorem On.starts {c : Code α} {a : α} {t : Faulty} (hs : On limit free fs faults s) (hc : First n c)
    (hrun : c.run (faulty anyFails env tid) ⟨s.machine.world, first (felt free n (faults 0)) (later faults)⟩ = (a, t)) :
    ∃ s', Gives limit env tid c s a s' := by
  have hval := (hc.run limit env tid s).1
  rw [hs.feels, hrun] at hval
  exact ⟨_, Prod.ext hval rfl⟩

theorem On.step {c : Code α} {f : α → Code β} {a : α} {w' : World} (hs : On limit free fs faults s)
    (hc : Helper limit env tid n c)
    (hrun : c.run (faulty anyFails env tid) ⟨s.machine.world, first (felt free n (faults 0)) (later faults)⟩ =
      (a, ⟨w', faults'⟩))
    (h : ∀ s', On limit free w'.fs faults' s' → (left limit env tid (f a) s' = 0 ↔ X)) :
    left limit env tid (c >>= f) s = 0 ↔ X := by
  obtain ⟨s', hgives, hs', -⟩ := hs.gives hc.first (hc.tidy s) hc.balanced hrun
  rw [hgives.left_bind (hc.tidy s)]
  exact h s' hs'

theorem On.quiet {c : Code α} {f : α → Code β} {a : α} (hs : On limit free fs faults s) (hc : Helper limit env tid n c)
    (hone : c.One) (hends : Ends env tid c fs s.machine.world.db a fs' s.machine.world.db)
    (h0 : felt free n (faults 0) = none)
    (h : ∀ s', On limit free fs' (later faults) s' → (left limit env tid (f a) s' = 0 ↔ X)) :
    left limit env tid (c >>= f) s = 0 ↔ X := by
  obtain ⟨w', hrun, hfs', -⟩ := UploadRpc.quiet_one tid (first (felt free n (faults 0)) (later faults)) hone hends h0
    hs.files rfl
  rw [← hfs'] at h
  exact hs.step hc hrun h

/-! ### The helpers -/

section
variable (limit : Nat) (env : Env) (tid : Nat)

theorem mkdir_helper (path : Bytes) : Helper limit env tid 0 (FileSys.mkdir path) :=
  ⟨⟨.mkdir (cStr path), _, rfl, rfl, fun _ => Uses.ite .pure .pure⟩, mkdir_tidy path, mkdir_balanced path⟩

theorem existFile_helper (path : Bytes) : Helper limit env tid 0 (FileSys.existFile path) :=
  ⟨⟨.access (cStr path), _, rfl, rfl, fun _ => .pure⟩, existFile_tidy path, Balanced.sys rfl⟩

theorem deleteFile_helper (path : Bytes) : Helper limit env tid 0 (FileSys.deleteFile path) :=
  ⟨⟨.remove (cStr path), _, rfl, rfl, fun _ => Uses.ite .pure .pure⟩, deleteFile_tidy path, deleteFile_balanced path⟩

theorem link_helper (src dst : Bytes) : Helper limit env tid 0 (FileSys.link src dst) :=
  ⟨⟨.symlink (cStr src) (cStr dst), _, rfl, rfl, fun _ => Uses.ite .pure .pure⟩, link_tidy src dst,
    link_balanced src dst⟩

theorem shellOut_helper (cmd : Bytes) : Helper limit env tid 2 (shellOut cmd) :=
  ⟨⟨.shell (cStr cmd), _, rfl, rfl, fun _ => .pure⟩, shellOut_tidy cmd, Balanced.sys rfl⟩

theorem md5Sum_helper (path : Bytes) : Helper limit env tid 2 (md5Sum path) := by
  refine ⟨⟨.shell (cStr (ascii "md5sum " ++ path)), _, rfl, rfl, fun (res : Option Bytes) => ?_⟩, md5Sum_tidy path,
    md5Sum_balanced path⟩
  cases res <;> exact .pure

theorem runQuery_helper (cmd : Bytes) : Helper limit env tid 0 (Mmysql.runQuery cmd) :=
  ⟨⟨.query cmd, _, rfl, rfl, fun _ => Uses.ite .pure .pure⟩, runQuery_tidy cmd, runQuery_balanced cmd⟩

theorem write_helper (str path : Bytes) : Helper limit env tid 1 (FileSys.write str path) := by
  refine ⟨⟨.openFile (cStr path), _, rfl, rfl, fun (fd : Option Nat) => ?_⟩, write_tidy str path, write_balanced str path⟩
  cases fd with
  | none => exact .pure
  | some fd =>
    have hwrites := (writeLoop_writes fd (cStr str) (cStr str).length (FileSys.intLen (cStr str).length)).mono
      fun op hop => needs_of_isWrite hop
    exact hwrites.bind fun _ => Uses.bind (Uses.lift rfl) fun _ => Uses.bind (Uses.lift rfl) fun _ => .pure

end

theorem lsDir_first (path : Bytes) : First 1 (FileSys.lsDir path) := by
  refine ⟨.readdir (cStr path), _, rfl, rfl, fun (names : Option (Finset Name)) => ?_⟩
  cases names <;> exact .pure

theorem existDir_first (path : Bytes) : First 1 (FileSys.existDir path) :=
  ⟨.opendir (cStr path), _, rfl, rfl, fun _ => .pure⟩

end Host

end NetDisk
