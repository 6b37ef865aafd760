import NetDisk.Code.UploadRpc
import NetDisk.Lib.Phases
import NetDisk.MachineSpec

/-!
# The order of a call's operations

Whatever `UploadRpc::Do` is told, it checks the part before it lists the directory, lists before it moves, and runs
the `SELECT` last before it takes the mutex; with the mutex it only writes `SignMap`.
-/

namespace NetDisk

open FileSys Mmysql UploadRpc Prog

/-! ## The operations -/

section
variable (fl : Flags) (r : NetDiskRequest)

/-- `ExistDir` of the stored file, `Md5Sum` of the part, `LsDir` of the parts, and what publishes them. -/
def existDirOp : Sys := .opendir (cStr (fileDir fl r))
def md5SumOp : Sys := .shell (cStr (ascii "md5sum " ++ filePath fl r))
def lsDirOp : Sys := .readdir (cStr (usrUploadDir fl r ++ r.fileSign))
def mvOp : Sys := .shell (cStr (mvCmd fl r))
def symlinkOp : Sys := .symlink (cStr (fileDir fl r)) (cStr (linkPath fl r))
def selectOp : Sys := .query (selectSignCmd r.fileSign)

end

namespace Order

/-- How far a call is. -/
inductive Phase where
  | start
  | checked
  | listed
  | moved
  | read
  | locked
  | written
deriving DecidableEq

/-- These may come in any phase. -/
def OnFiles : Sys → Prop
  | .mkdir _ | .opendir _ | .access _ | .openFile _ | .write _ _ | .close _ | .remove _ | .symlink _ _ | .fetch => True
  | _ => False

/-- The phases before and after an operation. A part that was there is checked twice. -/
inductive Turns (fl : Flags) (r : NetDiskRequest) : Sys → Phase → Phase → Prop
  | check {x : Phase} (hx : x = .start ∨ x = .checked) : Turns fl r (md5SumOp fl r) x .checked
  | list : Turns fl r (lsDirOp fl r) .checked .listed
  | move : Turns fl r (mvOp fl r) .listed .moved
  | read {x : Phase} (hx : x = .start ∨ x = .moved) : Turns fl r (selectOp r) x .read
  | lock : Turns fl r .lock .read .locked
  | write {cmd : Bytes} (h : cmd = insertSignCmd r.fileSign r.fileName ∨ cmd = updateSignCmd r.fileSign) :
      Turns fl r (.query cmd) .locked .locked
  | unlock : Turns fl r .unlock .locked .written
  | other {op : Sys} (h : OnFiles op) (x : Phase) : Turns fl r op x x

/-- The call goes on from `y`. -/
abbrev To (fl : Flags) (r : NetDiskRequest) {α : Type} (x y : Phase) (c : Code α) : Prop :=
  Phased (Turns fl r) (· = y) x c

/-- The call ends, and not with the mutex. -/
abbrev Ends (fl : Flags) (r : NetDiskRequest) {α : Type} (x : Phase) (c : Code α) : Prop :=
  Phased (Turns fl r) (· ≠ .locked) x c

section
variable {fl : Flags} {r : NetDiskRequest} {x : Phase}

theorem onFiles {α : Type} {c : Code α} (h : c.Uses OnFiles) : To fl r x x c := .of_uses h fun _ h => .other h x

theorem mkdir_onFiles (dirName : Bytes) : To fl r x x (FileSys.mkdir dirName) :=
  onFiles (Uses.bind (Uses.lift trivial) fun _ => Uses.ite .pure .pure)

theorem existFile_onFiles (path : Bytes) : To fl r x x (existFile path) := onFiles (Uses.lift trivial)

theorem deleteFile_onFiles (path : Bytes) : To fl r x x (deleteFile path) :=
  onFiles (Uses.bind (Uses.lift trivial) fun _ => Uses.ite .pure .pure)

theorem link_onFiles (src dst : Bytes) : To fl r x x (link src dst) :=
  onFiles (Uses.bind (Uses.lift trivial) fun _ => Uses.ite .pure .pure)

theorem write_onFiles (str path : Bytes) : To fl r x x (write str path) := by
  have hloop : ∀ (fd : Nat) (s : Bytes) (fuel len : Nat), (writeLoop fd s fuel len).Uses OnFiles := by
    intro fd s fuel
    induction fuel with
    | zero => exact fun len => .pure
    | succ fuel ih => exact fun len => Uses.ite ⟨trivial, fun _ => ih _⟩ .pure
  unfold write
  refine onFiles (Uses.bind (Uses.lift trivial) fun fd => ?_)
  cases fd with
  | none => exact .pure
  | some fd =>
    refine Uses.bind (hloop ..) fun len => Uses.bind (Uses.lift trivial) fun _ => ?_
    exact Uses.bind (Uses.lift trivial) fun _ => .pure

/-! ## With the mutex -/

/-- What may be run with the mutex. -/
def Inside (r : NetDiskRequest) (op : Sys) : Prop :=
  op = .unlock ∨ (∃ cmd, op = .query cmd ∧ (cmd = insertSignCmd r.fileSign r.fileName ∨ cmd = updateSignCmd r.fileSign)) ∨
    OnFiles op

theorem Turns.inside {op : Sys} {y : Phase} (h : Turns fl r op .locked y) : Inside r op ∧ (op ≠ .unlock → y = .locked) := by
  cases h with
  | check hx => rcases hx with hx | hx <;> cases hx
  | read hx => rcases hx with hx | hx <;> cases hx
  | @write cmd hcmd => exact ⟨Or.inr (Or.inl ⟨cmd, rfl, hcmd⟩), fun _ => rfl⟩
  | unlock => exact ⟨Or.inl rfl, fun h => absurd rfl h⟩
  | other hop => exact ⟨Or.inr (Or.inr hop), fun _ => rfl⟩

theorem Ends.next {α : Type} {c : Code α} (h : Ends fl r .locked c) :
    ∃ op next, c = .call op next ∧ Inside r op := by
  cases c with
  | pure a => exact absurd rfl h
  | call op next =>
    obtain ⟨y, hturn, -⟩ := h
    exact ⟨op, next, rfl, hturn.inside.1⟩

theorem Inside.ne_lock {op : Sys} (h : Inside r op) : op ≠ .lock := by
  rintro rfl
  rcases h with h | ⟨cmd, h, -⟩ | h
  · cases h
  · cases h
  · exact h

theorem Turns.locked {ι : Type} [DecidableEq ι] {phase : ι → Phase} {i : ι} {op : Sys} {y : Phase} {w : World}
    {env : Env} {tid : Nat} (h : Turns fl r op (phase i) y) (hw : w.locked = true → ∃ j, phase j = .locked) :
    (Machine.exec env tid op w).2.locked = true → ∃ j, Function.update phase i y j = .locked := by
  intro hlocked
  by_cases hl : op = .lock
  · subst hl
    generalize hx : phase i = x at h
    cases h with
    | lock => exact ⟨i, Function.update_self ..⟩
    | other hop => exact hop.elim
  by_cases hu : op = .unlock
  · subst hu
    cases hlocked
  rw [Machine.exec_locked env tid w hl hu] at hlocked
  obtain ⟨j, hj⟩ := hw hlocked
  by_cases hji : j = i
  · subst hji
    rw [hj] at h
    exact ⟨j, (Function.update_self ..).trans (h.inside.2 hu)⟩
  · exact ⟨j, (Function.update_of_ne hji ..).trans hj⟩

/-! ## The reference -/

theorem runQuery_to {cmd : Bytes} {y : Phase} (h : Turns fl r (.query cmd) x y) : To fl r x y (runQuery cmd) :=
  Phased.seq (.lift h) fun _ => .ite rfl rfl

theorem lockedQuery_to {cmd : Bytes} (h : cmd = insertSignCmd r.fileSign r.fileName ∨ cmd = updateSignCmd r.fileSign) :
    To fl r .read .written (lockedQuery cmd) := by
  unfold lockedQuery
  refine Phased.seq (.lift .lock) fun _ => Phased.seq (runQuery_to (.write h)) fun _ => ?_
  exact Phased.seq (.lift .unlock) fun _ => .ite rfl rfl

theorem linkToUsr_ends (src dst : Bytes) (hx : x = .start ∨ x = .moved) :
    Ends fl r x (linkToUsr src dst r.fileSign r.fileName) := by
  have hwritten : ∀ y, y = Phase.written → y ≠ .locked := by simp
  have hnot : x ≠ .locked := by rcases hx with rfl | rfl <;> simp
  unfold linkToUsr
  refine Phased.seq (link_onFiles src dst) fun _ => .ite hnot ?_
  refine Phased.seq (runQuery_to (.read hx)) fun _ => .ite (by simp [Phased]) ?_
  refine Phased.seq (onFiles (Uses.lift trivial)) fun row => ?_
  cases row with
  | none => exact (lockedQuery_to (Or.inl rfl)).mono hwritten
  | some row => exact (lockedQuery_to (Or.inr rfl)).mono hwritten

/-! ## `Do` -/

section
variable (response : NetDiskResponse)

theorem answer_ends (h : x ≠ .locked) : Ends fl r x (.pure response : Code NetDiskResponse) := h

theorem publish_ends : Ends fl r .listed (publish fl r response) := by
  unfold publish
  refine Phased.seq (.lift .move) fun _ => .ite (answer_ends _ (by simp)) ?_
  refine (linkToUsr_ends _ _ (Or.inr rfl)).bind fun rt y hy => ?_
  exact .ite (answer_ends _ hy) (answer_ends _ hy)

theorem checkArrived_ends : Ends fl r .checked (checkArrived fl r response) := by
  unfold checkArrived allPartArrived lsDir
  refine Phased.seq (y := .listed) ?_ fun _ => .ite (publish_ends response) (answer_ends _ (by simp))
  refine Phased.seq (Phased.seq (.lift .list) fun names => ?_) fun _ => rfl
  cases names <;> rfl

theorem md5Sum_to (hx : x = .start ∨ x = .checked) : To fl r x .checked (md5Sum (filePath fl r)) := by
  refine Phased.seq (.lift (.check hx)) fun res => ?_
  cases res <;> rfl

theorem writePart_ends (hx : x = .start ∨ x = .checked) : Ends fl r x (writePart fl r response) := by
  have hnot : x ≠ .locked := by rcases hx with rfl | rfl <;> simp
  unfold writePart checkSign
  refine Phased.seq (write_onFiles _ _) fun _ => .ite (answer_ends _ hnot) ?_
  refine Phased.seq (md5Sum_to hx) fun curMd5 => ?_
  cases curMd5 with
  | none => exact answer_ends _ (by simp)
  | some curMd5 => exact .ite (answer_ends _ (by simp)) (checkArrived_ends response)

theorem storePart_ends : Ends fl r .start (storePart fl r response) := by
  unfold storePart existingPart
  refine Phased.seq (existFile_onFiles _) fun _ => .ite ?_ (writePart_ends response (Or.inl rfl))
  refine Phased.seq (md5Sum_to (Or.inl rfl)) fun curMd5 => ?_
  cases curMd5 with
  | none => exact answer_ends _ (by simp)
  | some curMd5 =>
    refine .ite (writePart_ends _ (Or.inr rfl)) ?_
    exact Phased.seq (deleteFile_onFiles _) fun _ => writePart_ends response (Or.inr rfl)

theorem makeTmpDirs_to : To fl r x x (makeTmpDirs fl r) := by
  unfold makeTmpDirs
  refine Phased.seq (mkdir_onFiles _) fun _ => .ite rfl ?_
  refine Phased.seq (mkdir_onFiles _) fun _ => .ite rfl ?_
  exact Phased.seq (mkdir_onFiles _) fun _ => rfl

theorem Do_ends : Ends fl r .start (Do fl r response) := by
  unfold Do speedUpload uploadPart
  refine Phased.seq (mkdir_onFiles _) fun _ => .ite (answer_ends _ (by simp)) ?_
  refine Phased.seq (onFiles (Uses.lift trivial)) fun _ => .ite ?_ ?_
  · refine (linkToUsr_ends _ _ (Or.inl rfl)).bind fun rt y hy => ?_
    exact .ite (answer_ends _ hy) (answer_ends _ hy)
  · exact Phased.seq makeTmpDirs_to fun _ => .ite (storePart_ends response) (answer_ends _ (by simp))

end

end

end Order

end NetDisk
