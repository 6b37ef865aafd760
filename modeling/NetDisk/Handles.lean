import Mathlib.Algebra.Order.BigOperators.Group.List
import Mathlib.Data.Multiset.OrderedMonoid
import NetDisk.Code.LibCalls
import NetDisk.Reference
import NetDisk.Register

/-!
# Handles

What the server has open: directory streams, files, pipes, and results of MySQL that nobody has
freed. There is a limit on how many of them, results apart, can be open.
-/

namespace NetDisk

open Prog Machine

inductive Handle where
  | dir (path : Bytes)
  | file (fd : Nat)
  | pipe (cmd : Bytes)
  | result
deriving DecidableEq

def Handle.isFd : Handle → Bool
  | .result => false
  | _ => true

/-- The machine and what is open on it. -/
structure Host where
  machine : Faulty
  opened : Multiset Handle

namespace Host

def used (s : Host) : Nat := s.opened.countP (·.isFd = true)

/-- The descriptors that an operation asks for; `popen` makes a pipe, which has two ends. -/
def needs : Sys → Nat
  | .opendir _ | .readdir _ | .openFile _ => 1
  | .shell _ => 2
  | _ => 0

/-- There are not enough descriptors left for the operation. -/
def Lacks (limit : Nat) (op : Sys) (s : Host) : Prop := needs op ≠ 0 ∧ limit < s.used + needs op

instance (limit : Nat) (op : Sys) (s : Host) : Decidable (Lacks limit op s) := inferInstanceAs (Decidable (_ ∧ _))

/-- The operation does nothing. -/
def tooMany : Fault := ⟨.eio, eio_ne_eexist, 0, none, false⟩

variable (limit : Nat) (env : Env) (tid : Nat)

/-- The machine at an operation, which fails where the descriptors for it are lacking. -/
def ask (op : Sys) (s : Host) : op.Res × Faulty :=
  if Lacks limit op s then
    ((failed tooMany env tid op s.machine.world).1, ⟨(failed tooMany env tid op s.machine.world).2, s.machine.rest⟩)
  else faulty anyFails env tid op s.machine

/-- What is open after `open` or `close`; no other operation of the server opens or closes. -/
def afterSys (opened : Multiset Handle) : (op : Sys) → op.Res → Multiset Handle
  | .openFile _, some fd => .file fd ::ₘ opened
  | .close fd, _ => opened.erase (.file fd)
  | _, _ => opened

/-- One call. A stream has the entries that the directory has when it is opened, a pipe what the command prints. -/
def call : Prog.Handler LibCall LibCall.Res Host
  | .opendir path, s =>
    let r : Option (Finset Name) × Faulty := ask limit env tid (.readdir path) s
    match r.1 with
    | none => (none, ⟨r.2, s.opened⟩)
    | some entries => (some ⟨path, entries⟩, ⟨r.2, .dir path ::ₘ s.opened⟩)
  | .readdir dir, s => (dir.entries, s)
  | .closedir dir, s => ((), ⟨s.machine, s.opened.erase (.dir dir.path)⟩)
  | .popen cmd, s =>
    let r : Option Bytes × Faulty := ask limit env tid (.shell cmd) s
    match r.1 with
    | none => (none, ⟨r.2, s.opened⟩)
    | some output => (some ⟨cmd, output⟩, ⟨r.2, .pipe cmd ::ₘ s.opened⟩)
  | .fread fp, s => (fp.output, s)
  | .pclose fp, s => ((), ⟨s.machine, s.opened.erase (.pipe fp.cmd)⟩)
  | .storeResult, s =>
    let r : Option Row × Faulty := ask limit env tid .fetch s
    if (s.machine.world.pending tid).isSome = true then (some ⟨r.1⟩, ⟨r.2, .result ::ₘ s.opened⟩)
    else (none, ⟨r.2, s.opened⟩)
  | .fetchRow res, s => (res.bind MysqlRes.row, s)
  | .freeResult res, s => ((), ⟨s.machine, if res.isSome = true then s.opened.erase .result else s.opened⟩)
  | .sys op, s =>
    let r := ask limit env tid op s
    (r.1, ⟨r.2, afterSys s.opened op r.1⟩)

/-- One operation: the calls of its body. -/
def exec : Prog.Handler Sys Sys.Res Host := fun op s => (LibCalls.body op).run (call limit env tid) s

/-- What an operation opens and nobody closes. -/
def leaves : Sys → Host → Multiset Handle
  | .opendir path, s => if (exec limit env tid (.opendir path) s).1 = true then {.dir path} else 0
  | .readdir path, s => if (exec limit env tid (.readdir path) s).1.isSome = true then {.dir path} else 0
  | .fetch, s => if (s.machine.world.pending tid).isSome = true then {.result} else 0
  | _, _ => 0

/-! ## One operation -/

/-- The operations between which a file is open. -/
def isFile : Sys → Bool
  | .openFile _ | .close _ => true
  | _ => false

variable {limit env tid}

theorem exec_opendir_none {path : Bytes} {s : Host} (h : (ask limit env tid (.readdir path) s).1 = none) :
    exec limit env tid (.opendir path) s = (false, ⟨(ask limit env tid (.readdir path) s).2, s.opened⟩) := by
  have hcall : call limit env tid (.opendir path) s = (none, ⟨(ask limit env tid (.readdir path) s).2, s.opened⟩) := by
    simp only [call, h]
  exact run_call_of _ hcall

theorem exec_opendir_some {path : Bytes} {s : Host} {entries : Finset Name}
    (h : (ask limit env tid (.readdir path) s).1 = some entries) : exec limit env tid (.opendir path) s =
      (true, ⟨(ask limit env tid (.readdir path) s).2, .dir path ::ₘ s.opened⟩) := by
  have hcall : call limit env tid (.opendir path) s =
      (some ⟨path, entries⟩, ⟨(ask limit env tid (.readdir path) s).2, .dir path ::ₘ s.opened⟩) := by
    simp only [call, h]
  exact run_call_of _ hcall

theorem exec_readdir_none {path : Bytes} {s : Host} (h : (ask limit env tid (.readdir path) s).1 = none) :
    exec limit env tid (.readdir path) s = (none, ⟨(ask limit env tid (.readdir path) s).2, s.opened⟩) := by
  have hcall : call limit env tid (.opendir path) s = (none, ⟨(ask limit env tid (.readdir path) s).2, s.opened⟩) := by
    simp only [call, h]
  exact run_call_of _ hcall

theorem exec_readdir_some {path : Bytes} {s : Host} {entries : Finset Name}
    (h : (ask limit env tid (.readdir path) s).1 = some entries) : exec limit env tid (.readdir path) s =
      (some entries, ⟨(ask limit env tid (.readdir path) s).2, .dir path ::ₘ s.opened⟩) := by
  have hcall : call limit env tid (.opendir path) s =
      (some ⟨path, entries⟩, ⟨(ask limit env tid (.readdir path) s).2, .dir path ::ₘ s.opened⟩) := by
    simp only [call, h]
  exact run_call_of _ hcall

theorem exec_shell (cmd : Bytes) (s : Host) : exec limit env tid (.shell cmd) s =
    ((ask limit env tid (.shell cmd) s).1, ⟨(ask limit env tid (.shell cmd) s).2, s.opened⟩) := by
  cases h : (ask limit env tid (.shell cmd) s).1 with
  | none =>
    have hcall : call limit env tid (.popen cmd) s = (none, ⟨(ask limit env tid (.shell cmd) s).2, s.opened⟩) := by
      simp only [call, h]
    exact run_call_of _ hcall
  | some output =>
    have hcall : call limit env tid (.popen cmd) s =
        (some ⟨cmd, output⟩, ⟨(ask limit env tid (.shell cmd) s).2, .pipe cmd ::ₘ s.opened⟩) := by
      simp only [call, h]
    refine (run_call_of _ hcall).trans ?_
    change (some output, (⟨_, (Handle.pipe cmd ::ₘ s.opened).erase (.pipe cmd)⟩ : Host)) = _
    rw [Multiset.erase_cons_head]
    rfl

theorem exec_fetch (s : Host) : exec limit env tid .fetch s =
    if (s.machine.world.pending tid).isSome = true then
      ((ask limit env tid .fetch s).1, ⟨(ask limit env tid .fetch s).2, .result ::ₘ s.opened⟩)
    else (none, ⟨(ask limit env tid .fetch s).2, s.opened⟩) := by
  by_cases h : (s.machine.world.pending tid).isSome = true
  · have hcall : call limit env tid .storeResult s =
        (some ⟨(ask limit env tid .fetch s).1⟩, ⟨(ask limit env tid .fetch s).2, .result ::ₘ s.opened⟩) := if_pos h
    rw [if_pos h]
    exact run_call_of _ hcall
  · have hcall : call limit env tid .storeResult s = (none, ⟨(ask limit env tid .fetch s).2, s.opened⟩) := if_neg h
    rw [if_neg h]
    exact run_call_of _ hcall

theorem leaves_opendir (path : Bytes) (s : Host) : leaves limit env tid (.opendir path) s =
    if (exec limit env tid (.opendir path) s).1 = true then {.dir path} else 0 := rfl

theorem leaves_readdir (path : Bytes) (s : Host) : leaves limit env tid (.readdir path) s =
    if (exec limit env tid (.readdir path) s).1.isSome = true then {.dir path} else 0 := rfl

theorem leaves_fetch (s : Host) : leaves limit env tid .fetch s =
    if (s.machine.world.pending tid).isSome = true then {.result} else 0 := rfl

theorem exec_opened {op : Sys} (h : isFile op = false) (s : Host) :
    (exec limit env tid op s).2.opened = leaves limit env tid op s + s.opened := by
  cases op with
  | openFile path => cases h
  | close fd => cases h
  | opendir path =>
    rw [leaves_opendir]
    cases hask : (ask limit env tid (.readdir path) s).1 with
    | none =>
      rw [exec_opendir_none hask, if_neg (by simp), zero_add]
    | some entries =>
      rw [exec_opendir_some hask, if_pos rfl, Multiset.singleton_add]
  | readdir path =>
    rw [leaves_readdir]
    cases hask : (ask limit env tid (.readdir path) s).1 with
    | none =>
      rw [exec_readdir_none hask, if_neg (by simp), zero_add]
    | some entries =>
      rw [exec_readdir_some hask, if_pos Option.isSome_some, Multiset.singleton_add]
  | fetch =>
    rw [exec_fetch, leaves_fetch]
    split
    · rw [Multiset.singleton_add]
    · rw [zero_add]
  | shell cmd =>
    rw [exec_shell]
    exact (zero_add _).symm
  | mkdir | access | write | remove | symlink | query | lock | unlock | send => exact (zero_add _).symm

/-! ## A whole function -/

variable (limit env tid)

/-- What a function opens for good. -/
def left {α : Type} (p : Code α) (s : Host) : Multiset Handle := p.total (leaves limit env tid) (exec limit env tid) s

/-- What is open at the end is what was open at the start and what is left; where a descriptor is asked for, no more
than that is open. -/
structure Balanced {α : Type} (p : Code α) : Prop where
  opened (s : Host) : (p.run (exec limit env tid) s).2.opened = left limit env tid p s + s.opened
  asking (s : Host) (m : Sys × Host) : m ∈ p.moments (exec limit env tid) s → needs m.1 ≠ 0 →
    m.2.opened ≤ left limit env tid p s + s.opened

variable {limit env tid} {α β : Type}

theorem left_bind (p : Code α) (f : α → Code β) (s : Host) : left limit env tid (p >>= f) s =
    left limit env tid p s + left limit env tid (f (p.run (exec limit env tid) s).1) (p.run (exec limit env tid) s).2 :=
  total_bind _ _ _ _ _

theorem left_eq_zero_iff (p : Code α) (s : Host) : left limit env tid p s = 0 ↔
    ∀ m ∈ p.moments (exec limit env tid) s, leaves limit env tid m.1 m.2 = 0 := by
  unfold left total
  rw [List.sum_eq_zero_iff, List.forall_mem_map]

theorem Balanced.pure (a : α) : Balanced limit env tid (.pure a) where
  opened _ := (zero_add _).symm
  asking _ _ hm := absurd hm List.not_mem_nil

theorem Balanced.bind {p : Code α} {f : α → Code β} (hp : Balanced limit env tid p)
    (hf : ∀ a, Balanced limit env tid (f a)) : Balanced limit env tid (p >>= f) where
  opened s := by
    rw [run_bind, (hf _).opened, hp.opened, left_bind, add_left_comm, add_assoc]
  asking s m hm hneeds := by
    rw [left_bind]
    rw [moments_bind] at hm
    rcases List.mem_append.mp hm with hm | hm
    · refine (hp.asking s m hm hneeds).trans ?_
      exact add_le_add_left (Multiset.le_add_right _ _) _
    · refine ((hf _).asking _ m hm hneeds).trans (le_of_eq ?_)
      rw [hp.opened, add_left_comm, add_assoc]

theorem Balanced.ite {c : Prop} [Decidable c] {p q : Code α} (hp : Balanced limit env tid p)
    (hq : Balanced limit env tid q) : Balanced limit env tid (if c then p else q) := by
  split
  · exact hp
  · exact hq

theorem Balanced.sys {op : Sys} (h : isFile op = false) : Balanced limit env tid (sys op) where
  opened s := by
    change (exec limit env tid op s).2.opened = leaves limit env tid op s + 0 + s.opened
    rw [exec_opened h, add_zero]
  asking s m hm _ := by
    rw [List.mem_singleton.mp hm]
    exact Multiset.le_add_left _ _

theorem Balanced.uses {p : Code α} (hp : p.Uses fun op => isFile op = false) : Balanced limit env tid p := by
  induction p with
  | pure a => exact Balanced.pure a
  | call op next ih => exact (Balanced.sys hp.1).bind fun r => ih r (hp.2 r)

/-! ### `Write` closes what it opens -/

def isWrite : Sys → Bool
  | .write _ _ => true
  | _ => false

theorem isFile_of_isWrite {op : Sys} (h : isWrite op = true) : isFile op = false := by
  cases op <;> first | rfl | cases h

theorem needs_of_isWrite {op : Sys} (h : isWrite op = true) : needs op = 0 := by
  cases op <;> first | rfl | cases h

theorem leaves_of_isWrite {op : Sys} (h : isWrite op = true) (s : Host) : leaves limit env tid op s = 0 := by
  cases op <;> first | rfl | cases h

theorem writes_left {p : Code α} (hp : p.Uses fun op => isWrite op = true) (s : Host) :
    left limit env tid p s = 0 :=
  (left_eq_zero_iff p s).mpr fun m hm => leaves_of_isWrite (hp.moments _ s m hm) m.2

theorem writes_opened {p : Code α} (hp : p.Uses fun op => isWrite op = true) (s : Host) :
    (p.run (exec limit env tid) s).2.opened = s.opened := by
  have hbal : Balanced limit env tid p := Balanced.uses (hp.mono fun op => isFile_of_isWrite)
  rw [hbal.opened, writes_left hp, zero_add]

theorem writeLoop_writes (fd : Nat) (str : Bytes) (fuel len : Nat) :
    (FileSys.writeLoop fd str fuel len).Uses fun op => isWrite op = true := by
  induction fuel generalizing len with
  | zero => exact Uses.pure
  | succ fuel ih =>
    unfold FileSys.writeLoop
    refine Uses.ite ?_ Uses.pure
    exact Uses.bind (Uses.lift rfl) fun _ => ih _

theorem openFile_none {path : Bytes} {s : Host} (h : (exec limit env tid (.openFile path) s).1 = none) :
    (exec limit env tid (.openFile path) s).2.opened = s.opened := by
  change afterSys s.opened (.openFile path) (exec limit env tid (.openFile path) s).1 = _
  rw [h]
  rfl

theorem openFile_some {path : Bytes} {s : Host} {fd : Nat} (h : (exec limit env tid (.openFile path) s).1 = some fd) :
    (exec limit env tid (.openFile path) s).2.opened = .file fd ::ₘ s.opened := by
  change afterSys s.opened (.openFile path) (exec limit env tid (.openFile path) s).1 = _
  rw [h]
  rfl

theorem close_opened (fd : Nat) (s : Host) :
    (exec limit env tid (.close fd) s).2.opened = s.opened.erase (.file fd) := rfl

/-- A file that is closed after the writes. -/
def withFile (path : Bytes) (p : Nat → Code α) : Code Int :=
  .call (.openFile path) fun
    | none => .pure (-1)
    | some fd => p fd >>= fun _ => .call (.close fd) fun _ => .pure 0

section
variable {path : Bytes} {p : Nat → Code α}

variable (hp : ∀ fd, (p fd).Uses fun op => isWrite op = true)
include hp

/-- What is open at the end, and whenever a descriptor is asked for, is what was open at the start. -/
theorem withFile_opened (s : Host) : ((withFile path p).run (exec limit env tid) s).2.opened = s.opened ∧
    ∀ m ∈ (withFile path p).moments (exec limit env tid) s,
      leaves limit env tid m.1 m.2 = 0 ∧ (needs m.1 ≠ 0 → m.2.opened = s.opened) := by
  unfold withFile
  rw [run_call]
  unfold moments
  cases hfd : (exec limit env tid (.openFile path) s).1 with
  | none =>
    refine ⟨openFile_none hfd, fun m hm => ?_⟩
    rw [List.mem_singleton.mp hm]
    exact ⟨rfl, fun _ => rfl⟩
  | some fd =>
    have hopen := openFile_some hfd
    generalize (exec limit env tid (.openFile path) s).2 = s1 at hopen ⊢
    have hkept : ((p fd).run (exec limit env tid) s1).2.opened = s1.opened := writes_opened (hp fd) s1
    constructor
    · change ((p fd >>= _).run _ s1).2.opened = s.opened
      rw [run_bind]
      change (exec limit env tid (.close fd) _).2.opened = s.opened
      rw [close_opened, hkept, hopen, Multiset.erase_cons_head]
    · intro m hm
      rcases List.mem_cons.mp hm with rfl | hm
      · exact ⟨rfl, fun _ => rfl⟩
      · rw [moments_bind] at hm
        rcases List.mem_append.mp hm with hm | hm
        · have hw := (hp fd).moments _ s1 m hm
          exact ⟨leaves_of_isWrite hw m.2, fun hneeds => absurd (needs_of_isWrite hw) hneeds⟩
        · rw [List.mem_singleton.mp hm]
          exact ⟨rfl, fun hneeds => absurd rfl hneeds⟩

theorem withFile_left (s : Host) : left limit env tid (withFile path p) s = 0 :=
  (left_eq_zero_iff _ s).mpr fun m hm => ((withFile_opened hp s).2 m hm).1

theorem withFile_balanced : Balanced limit env tid (withFile path p) where
  opened s := by rw [withFile_left hp, zero_add, (withFile_opened hp s).1]
  asking s m hm hneeds := by rw [withFile_left hp, zero_add, ((withFile_opened hp s).2 m hm).2 hneeds]

end

theorem write_eq_withFile (str path : Bytes) : FileSys.write str path = withFile (cStr path) fun fd =>
    FileSys.writeLoop fd (cStr str) (cStr str).length (FileSys.intLen (cStr str).length) >>= fun len =>
      sys (.write fd ((cStr str).take len)) := by
  unfold FileSys.write withFile
  refine congrArg (Prog.call _) (funext fun fd => ?_)
  cases fd with
  | none => rfl
  | some fd =>
    exact (bind_assoc' _ (fun len => sys (.write fd ((cStr str).take len)))
      fun _ => .call (.close fd) fun _ => .pure 0).symm

theorem write_writes (str : Bytes) (fd : Nat) : (FileSys.writeLoop fd (cStr str) (cStr str).length
    (FileSys.intLen (cStr str).length) >>= fun len => sys (.write fd ((cStr str).take len))).Uses
      fun op => isWrite op = true := Uses.bind (writeLoop_writes _ _ _ _) fun _ => Uses.lift rfl

theorem write_left (str path : Bytes) (s : Host) : left limit env tid (FileSys.write str path) s = 0 := by
  rw [write_eq_withFile]
  exact withFile_left (write_writes str) s

theorem write_balanced (str path : Bytes) : Balanced limit env tid (FileSys.write str path) := by
  rw [write_eq_withFile]
  exact withFile_balanced (write_writes str)

/-! ### The helpers -/

theorem mkdir_balanced (path : Bytes) : Balanced limit env tid (FileSys.mkdir path) :=
  (Balanced.sys rfl).bind fun _ => Balanced.ite (Balanced.pure _) (Balanced.pure _)

theorem deleteFile_balanced (path : Bytes) : Balanced limit env tid (FileSys.deleteFile path) :=
  (Balanced.sys rfl).bind fun _ => Balanced.ite (Balanced.pure _) (Balanced.pure _)

theorem link_balanced (src dst : Bytes) : Balanced limit env tid (FileSys.link src dst) :=
  (Balanced.sys rfl).bind fun _ => Balanced.ite (Balanced.pure _) (Balanced.pure _)

theorem lsDir_balanced (path : Bytes) : Balanced limit env tid (FileSys.lsDir path) := by
  refine (Balanced.sys rfl).bind fun names => ?_
  cases names <;> exact Balanced.pure _

theorem md5Sum_balanced (path : Bytes) : Balanced limit env tid (md5Sum path) := by
  refine (Balanced.sys rfl).bind fun res => ?_
  cases res <;> exact Balanced.pure _

theorem runQuery_balanced (cmd : Bytes) : Balanced limit env tid (Mmysql.runQuery cmd) :=
  (Balanced.sys rfl).bind fun _ => Balanced.ite (Balanced.pure _) (Balanced.pure _)

theorem lockedQuery_balanced (cmd : Bytes) : Balanced limit env tid (UploadRpc.lockedQuery cmd) := by
  refine (Balanced.sys rfl).bind fun _ => (runQuery_balanced cmd).bind fun rt => (Balanced.sys rfl).bind fun _ => ?_
  exact Balanced.ite (Balanced.pure _) (Balanced.pure _)

theorem linkToUsr_balanced (src dst sign fileName : Bytes) :
    Balanced limit env tid (UploadRpc.linkToUsr src dst sign fileName) := by
  unfold UploadRpc.linkToUsr
  refine (link_balanced src dst).bind fun rt => Balanced.ite (Balanced.pure _) ?_
  refine (runQuery_balanced _).bind fun rt => Balanced.ite (Balanced.pure _) ?_
  refine (Balanced.sys rfl).bind fun row => ?_
  cases row <;> exact lockedQuery_balanced _

/-! ### `UploadRpc::Do` -/

section
variable (fl : Flags) (request : NetDiskRequest) (response : NetDiskResponse)

open UploadRpc

theorem publish_balanced : Balanced limit env tid (publish fl request response) := by
  unfold publish
  refine (Balanced.sys rfl).bind fun shellRes => Balanced.ite (Balanced.pure _) ?_
  exact (linkToUsr_balanced _ _ _ _).bind fun rt => Balanced.ite (Balanced.pure _) (Balanced.pure _)

theorem checkSign_balanced : Balanced limit env tid (checkSign fl request response) := by
  unfold checkSign
  refine (md5Sum_balanced _).bind fun curMd5 => ?_
  cases curMd5 with
  | none => exact Balanced.pure _
  | some curMd5 =>
    refine Balanced.ite (Balanced.pure _) ?_
    unfold checkArrived
    refine Balanced.bind ((lsDir_balanced _).bind fun _ => Balanced.pure _) fun arrived => ?_
    exact Balanced.ite (publish_balanced fl request response) (Balanced.pure _)

theorem writePart_balanced : Balanced limit env tid (writePart fl request response) := by
  unfold writePart
  exact (write_balanced _ _).bind fun rt => Balanced.ite (Balanced.pure _) (checkSign_balanced fl request response)

theorem storePart_balanced : Balanced limit env tid (storePart fl request response) := by
  unfold storePart
  refine (Balanced.sys rfl).bind fun exist => Balanced.ite ?_ (writePart_balanced fl request response)
  unfold existingPart
  refine (md5Sum_balanced _).bind fun curMd5 => ?_
  cases curMd5 with
  | none => exact Balanced.pure _
  | some curMd5 =>
    refine Balanced.ite (writePart_balanced fl request _) ?_
    exact (deleteFile_balanced _).bind fun _ => writePart_balanced fl request response

theorem makeTmpDirs_balanced : Balanced limit env tid (makeTmpDirs fl request) := by
  unfold makeTmpDirs
  refine (mkdir_balanced _).bind fun rt => Balanced.ite (Balanced.pure _) ?_
  refine (mkdir_balanced _).bind fun rt => Balanced.ite (Balanced.pure _) ?_
  exact (mkdir_balanced _).bind fun rt => Balanced.pure _

theorem Do_balanced : Balanced limit env tid (Do fl request response) := by
  unfold Do
  refine (mkdir_balanced _).bind fun rt => Balanced.ite (Balanced.pure _) ?_
  refine (Balanced.sys rfl).bind fun stored => Balanced.ite ?_ ?_
  · unfold speedUpload
    exact (linkToUsr_balanced _ _ _ _).bind fun rt => Balanced.ite (Balanced.pure _) (Balanced.pure _)
  · unfold uploadPart
    exact (makeTmpDirs_balanced fl request).bind fun made =>
      Balanced.ite (storePart_balanced fl request response) (Balanced.pure _)

end

/-! ### `RegisterView::Process` -/

section
variable {ρ : Type} (j : Jsoncpp ρ) (fl : Flags)

open RegisterView

theorem regist_balanced (usr passwd : Bytes) : Balanced limit env tid (regist fl usr passwd) := by
  have hnotExist : Balanced limit env tid (usrNotExist usr) := by
    refine (runQuery_balanced _).bind fun rt => Balanced.ite (Balanced.pure _) ?_
    refine (Balanced.sys rfl).bind fun row => ?_
    cases row <;> exact Balanced.pure _
  unfold regist
  refine hnotExist.bind fun rt => Balanced.ite (Balanced.pure _) (Balanced.ite (Balanced.pure _) ?_)
  refine Balanced.bind ((runQuery_balanced _).bind fun rt => Balanced.ite (Balanced.pure _) (Balanced.pure _)) fun rt => ?_
  refine Balanced.ite (Balanced.pure _) ?_
  refine Balanced.bind ((mkdir_balanced _).bind fun rt => Balanced.ite (Balanced.pure _) (Balanced.pure _)) fun rt => ?_
  exact Balanced.ite (Balanced.pure _) (Balanced.pure _)

theorem Process_balanced (reqVal : Json ρ) (clientFd : Int) :
    Balanced limit env tid (RegisterView.Process j fl reqVal clientFd) := by
  unfold RegisterView.Process
  cases readRequest j reqVal with
  | error crash => exact Balanced.pure _
  | ok names =>
    refine (regist_balanced fl names.1 names.2).bind fun responseMsg => ?_
    unfold respond
    cases (Json.null : Json ρ).set "Response" (.str responseMsg) with
    | error crash => exact Balanced.pure _
    | ok val => exact Balanced.bind ((Balanced.sys rfl).bind fun _ => Balanced.pure _) fun _ => Balanced.pure _

end

end Host

end NetDisk
