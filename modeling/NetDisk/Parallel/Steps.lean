import NetDisk.Server
import NetDisk.Lib.Pool

/-!
# Parts that are uploaded at the same time

Several calls of `UploadRpc::Do` for one file of one user, one for each part, in any order of their
operations. What each call promises of its operations, what they keep together, and what one
operation changes.
-/

namespace NetDisk.Parallel

open Machine UploadRpc Prog

/-- A history of `n` calls. -/
abbrev Calls (n : Nat) := Hist World (Fin n) Sys

section
variable (fl : Flags) (u s : Name)

/-! ## The operations that matter -/

/-- The directory of the parts. -/
def signDir : Path := fl.usrRoot ++ [u, TMP, s]

def partText (i : Nat) : Bytes := dirText (signDir fl u s) ++ toString i

def openOp (i : Nat) : Sys := .openFile (partText fl u s i)

def sumOp (i : Nat) : Sys := .shell (cStr (ascii "md5sum " ++ partText fl u s i))

def listOp : Sys := .readdir (dirText (fl.usrRoot ++ [u, TMP]) ++ s)

def mvOp : Sys := .shell (mvText fl u s)

variable {n : Nat}

def Opened (tr : List (Fin n × Sys)) (i : Fin n) : Prop := (i, openOp fl u s i) ∈ tr
def Summed (tr : List (Fin n × Sys)) (i : Fin n) : Prop := (i, sumOp fl u s i) ∈ tr
def Listed (tr : List (Fin n × Sys)) (i : Fin n) : Prop := (i, listOp fl u s) ∈ tr
def Moved (tr : List (Fin n × Sys)) : Prop := ∃ i, (i, mvOp fl u s) ∈ tr

/-- Every part has a file. -/
def Complete (tr : List (Fin n × Sys)) : Prop := ∀ i, Opened fl u s tr i

/-- The call has listed the directory when every part had a file. -/
def Found (tr : List (Fin n × Sys)) (i : Fin n) : Prop :=
  ∃ pre, Complete fl u s pre ∧ pre ++ [(i, listOp fl u s)] <+: tr

/-- Of the calls that list the directory once every part has a file, a second one waits for the `mv` of the
first; and the `mv` waits until every call has checked its part. -/
def sched (env : Env) (n : Nat) : Sched World (Fin n) Sys Sys.Res where
  handler i := exec env i
  ready := Machine.ready
  ok t _ op := (op = listOp fl u s → Complete fl u s t.trace →
      Moved fl u s t.trace ∨ ∀ j, ¬ Found fl u s t.trace j) ∧
    (op = mvOp fl u s → ∀ j, Summed fl u s t.trace j)

/-! ## What the calls keep together -/

variable (body name : Fin n → Bytes)

/-- Until the parts are moved. -/
structure Before (t : Calls n) : Prop where
  stored : (Disk.of fl t.state.fs).stored s = false
  part_iff : ∀ m, (Disk.of fl t.state.fs).part u s m ≠ none ↔ ∃ i : Fin n, i = m ∧ Opened fl u s t.trace i
  summed : ∀ i, Summed fl u s t.trace i → (Disk.of fl t.state.fs).part u s i = some (body i)
  refs : t.state.db.refs s = none

/-- Once they are moved. -/
structure After (t : Calls n) : Prop where
  all : ∀ i, Summed fl u s t.trace i
  part_none : ∀ m, (Disk.of fl t.state.fs).part u s m = none
  stored : (Disk.of fl t.state.fs).stored s = true
  store : ∀ i : Fin n, (Disk.of fl t.state.fs).store s i = some (body i)

structure Inv (t : Calls n) : Prop where
  shape : Shape fl t.state.fs
  user : t.state.fs.node (fl.usrRoot ++ [u]) = some .dir
  fresh : ∀ k, t.state.fds k ≠ none → k < t.state.nextFd
  opened : ∀ i, Listed fl u s t.trace i → Opened fl u s t.trace i
  found : (∀ i, Listed fl u s t.trace i) → ∃ i, Found fl u s t.trace i
  once : t.trace.countP (fun e => e.2 = mvOp fl u s) ≤ 1
  mover : ∀ i j, (i, mvOp fl u s) ∈ t.trace → (j, mvOp fl u s) ∈ t.trace → i = j
  before : ¬ Moved fl u s t.trace → Before fl u s body t
  after : Moved fl u s t.trace → After fl u s body t

/-! ## What each call promises -/

/-- The directories that a call makes: the one above, and the name. -/
inductive Target : Path → Name → Prop
  | files : Target [u] FILES
  | user : Target [] u
  | tmp : Target [u] TMP
  | sign : Target [u, TMP] s

def Promise (t : Calls n) (i : Fin n) : Sys → Prop
  | .mkdir path => ¬ Summed fl u s t.trace i ∧ ∃ q m, Target u s q m ∧
      t.state.fs.node (fl.usrRoot ++ q) = some .dir ∧
      (path = dirText (fl.usrRoot ++ q) ++ m ∨ path = dirText (fl.usrRoot ++ q ++ [m]))
  | .opendir _ | .access _ | .fetch | .lock | .unlock => True
  | .readdir path => Sys.readdir path = listOp fl u s ∧ Opened fl u s t.trace i
  | .openFile path => Sys.openFile path = openOp fl u s i ∧ ¬ Summed fl u s t.trace i ∧
      ¬ Opened fl u s t.trace i ∧ t.state.fs.node (signDir fl u s) = some .dir
  | .write fd _ => ¬ Summed fl u s t.trace i ∧ Opened fl u s t.trace i ∧
      ∃ o, t.state.fds fd = some ⟨some (signDir fl u s ++ [toString i]), o⟩
  | .close fd => ∃ o, t.state.fds fd = some ⟨some (signDir fl u s ++ [toString i]), o⟩
  | .shell cmd =>
      Sys.shell cmd = sumOp fl u s i ∧ (Disk.of fl t.state.fs).part u s i = some (body i) ∨
      Sys.shell cmd = mvOp fl u s ∧ Found fl u s t.trace i ∧ ¬ Moved fl u s t.trace
  | .symlink target path => target = fl.filesDir ++ s ∧
      path = dirText (fl.usrRoot ++ [u, FILES]) ++ s ∧
      t.state.fs.node (fl.usrRoot ++ [u, FILES]) = some .dir ∧ Moved fl u s t.trace
  | .query cmd => (i, mvOp fl u s) ∈ t.trace ∧ (cmd = selectSignCmd s ∨
      cmd = insertSignCmd s (name i) ∧ t.state.db.refs s = none)
  | .remove _ | .send _ _ => False

end

/-! ## What one operation changes -/

/-- What an operation of call `i` does to the files. -/
inductive Change (fl : Flags) (u s : Name) {n : Nat} (t : Calls n) (i : Fin n) (op : Sys) : FS → Prop
  | same : op ≠ mvOp fl u s → op ≠ openOp fl u s i → Change fl u s t i op t.state.fs
  | dir {q : Path} {m : Name} : op ≠ mvOp fl u s → op ≠ openOp fl u s i → Target u s q m → q ≠ [] →
      t.state.fs.node (fl.usrRoot ++ q) = some .dir →
      Change fl u s t i op (ensureDir t.state.fs (fl.usrRoot ++ q ++ [m]))
  | part (c : Bytes) (h : t.state.fs.CanPut (signDir fl u s ++ [toString i])) : op ≠ mvOp fl u s →
      ¬ Summed fl u s t.trace i → op = openOp fl u s i ∨ Opened fl u s t.trace i →
      Change fl u s t i op (t.state.fs.put _ (.file c) h)
  | move (h : t.state.fs.CanMove (fl.usrRoot ++ [u, TMP, s]) (fl.filesRoot ++ [s])) : op = mvOp fl u s →
      t.state.fs.node (fl.usrRoot ++ [u, TMP, s]) = some .dir → Change fl u s t i op (t.state.fs.move _ _ h)
  | link : op ≠ mvOp fl u s → op ≠ openOp fl u s i → t.state.fs.node (fl.usrRoot ++ [u, FILES]) = some .dir →
      Change fl u s t i op (ensureLink t.state.fs (fl.usrRoot ++ [u, FILES, s]) (fl.filesDir ++ s))

section
variable {fl : Flags} {u s : Name} {n : Nat} {body name : Fin n → Bytes} {env : Env}

theorem node_part_none {fs : FS} (hs : Shape fl fs) {m : Nat} (h : (Disk.of fl fs).part u s m = none) :
    fs.node (signDir fl u s ++ [toString m]) = none := by
  have hpath : signDir fl u s ++ [toString m] = fl.usrRoot ++ [u, TMP, s, toString m] := by simp [signDir]
  rw [hpath]
  by_contra hsome
  obtain ⟨node, hnode⟩ := Option.ne_none_iff_exists'.mp hsome
  obtain ⟨c, k, rfl, hk⟩ := hs.usr_entry _ _ hnode rfl
  simp [Disk.of, fileAt, hnode] at h

theorem node_part_some {fs : FS} {m : Nat} {c : Bytes} (h : (Disk.of fl fs).part u s m = some c) :
    fs.node (signDir fl u s ++ [toString m]) = some (.file c) := by
  have hpath : signDir fl u s ++ [toString m] = fl.usrRoot ++ [u, TMP, s, toString m] := by simp [signDir]
  rw [hpath]
  simp only [Disk.of, fileAt] at h
  split at h <;> simp_all

theorem sum_ne_mv (hu : Plain u) (hsg : Plain s) (i : Nat) : sumOp fl u s i ≠ mvOp fl u s := by
  intro h
  have hcmd : cStr (ascii "md5sum " ++ partText fl u s i) = mvText fl u s := Sys.shell.inj h
  have hsum := FileSys.md5Cmd_words (plain_signDir fl hu hsg) (plain_toString i)
  have hmv := (mvText_words fl hu hsg).2
  rw [← hcmd] at hmv
  have hwords := hsum.symm.trans hmv
  simp at hwords

theorem of_put_signDir {fs : FS} {i : Nat} (c : Bytes) (h : fs.CanPut (signDir fl u s ++ [toString i])) :
    Disk.of fl (fs.put _ (.file c) h) = { Disk.of fl fs with
      part := fun u' s' i' => if u' = u ∧ s' = s ∧ i' = i then some c else (Disk.of fl fs).part u' s' i' } := by
  have hput : ∀ p (h : fs.CanPut p), p = fl.usrRoot ++ [u, TMP, s, toString i] →
      Disk.of fl (fs.put p (.file c) h) = { Disk.of fl fs with
        part := fun u' s' i' => if u' = u ∧ s' = s ∧ i' = i then some c else (Disk.of fl fs).part u' s' i' } := by
    rintro _ h rfl
    exact Disk.of_put_file u s i c h
  exact hput _ h (by simp [signDir])

variable (fl) in
theorem Target.plain (hu : Plain u) (hsg : Plain s) {q : Path} {m : Name} (h : Target u s q m) :
    (∀ k ∈ fl.usrRoot ++ q, Plain k) ∧ Plain m := by
  cases h with
  | files => exact ⟨plain_snoc fl.usr_plain hu, plain_FILES⟩
  | user => exact ⟨by simpa using fl.usr_plain, hu⟩
  | tmp => exact ⟨plain_snoc fl.usr_plain hu, plain_TMP⟩
  | sign => exact ⟨plain_tmp fl hu, hsg⟩

theorem mkdir_fs {p : Path} {m : Name} (hp : ∀ k ∈ p, Plain k) (hm : Plain m) {fs : FS}
    (hd : fs.node p = some .dir) {path : Bytes} (h : path = dirText p ++ m ∨ path = dirText (p ++ [m])) :
    (mkdir env fs path).2 = ensureDir fs (p ++ [m]) := by
  rcases h with rfl | rfl
  · rw [mkdir_name hp hm hd]
  · rw [mkdir_dirText hp hm hd]

variable (env) in
theorem symlink_fs {p : Path} {m : Name} (hp : ∀ k ∈ p, Plain k) (hm : Plain m) {fs : FS}
    (hd : fs.node p = some .dir) (target : Bytes) (ht : target ≠ []) :
    (symlink env fs target (dirText p ++ m)).2 = ensureLink fs (p ++ [m]) target := by
  unfold ensureLink
  by_cases hnone : fs.node (p ++ [m]) = none
  · rw [symlink_new hp hm ht hd hnone, ensure_new hnone (canPut_of_parent hd (by simp [hnone]))]
  · rw [symlink_old hp hm ht hd hnone, ensure_old hnone]

theorem exec_sum (hu : Plain u) (hsg : Plain s) (i tid : Nat) (w : World) :
    (exec env tid (sumOp fl u s i) w).2 = w := by
  have hwords := FileSys.md5Cmd_words (plain_signDir fl hu hsg) (plain_toString i)
  change (exec env tid (.shell _) w).2 = w
  simp only [exec, Machine.shell, partText, signDir, hwords, if_true]

theorem Inv.not_moved {t : Calls n} (hinv : Inv fl u s body t) {i : Fin n} (h : ¬ Summed fl u s t.trace i) :
    ¬ Moved fl u s t.trace := fun hm => h ((hinv.after hm).all i)

theorem Inv.movable {t : Calls n} (hinv : Inv fl u s body t) (hnot : ¬ Moved fl u s t.trace) {i : Fin n}
    (h : Summed fl u s t.trace i) : t.state.fs.node (fl.usrRoot ++ [u, TMP, s]) = some .dir ∧
      t.state.fs.node (fl.filesRoot ++ [s]) = none := by
  have hbefore := hinv.before hnot
  constructor
  · have hpart := node_part_some (hbefore.summed i h)
    exact t.state.fs.parent_dir (signDir fl u s) (toString i) (by rw [hpart]; simp)
  · have hst := hbefore.stored
    by_contra hne
    obtain ⟨node, hnode⟩ := Option.ne_none_iff_exists'.mp hne
    have hd := hinv.shape.store_entry _ _ hnode
    simp only [storeEntry] at hd
    simp [Disk.of, hnode, hd] at hst

section
variable (hu : Plain u) (hsg : Plain s) {t : Calls n} (hinv : Inv fl u s body t) {i : Fin n} {op : Sys}
  (hok : (sched fl u s env n).ok t i op) (hpro : Promise fl u s body name t i op)
include hu hsg hinv hok hpro

theorem step_change : Change fl u s t i op ((sched fl u s env n).after t i op).state.fs := by
  change Change fl u s t i op (exec env i op t.state).2.fs
  cases op with
  | mkdir path =>
    obtain ⟨_, q, m, htarget, hd, htext⟩ := hpro
    obtain ⟨hp, hm⟩ := htarget.plain fl hu hsg
    simp only [exec, mkdir_fs hp hm hd htext]
    by_cases hq : q = []
    · -- The directory of the user is there.
      subst hq
      cases htarget
      have huser : ensureDir t.state.fs (fl.usrRoot ++ [] ++ [u]) = t.state.fs := by
        rw [List.append_nil]
        exact ensure_old (by rw [hinv.user]; simp) .dir
      rw [huser]
      exact .same (by simp [mvOp]) (by simp [openOp])
    · exact .dir (by simp [mvOp]) (by simp [openOp]) htarget hq hd
  | openFile path =>
    obtain ⟨hpath, hsum, hopen, hdir⟩ := hpro
    have hbefore := hinv.before (hinv.not_moved hsum)
    have hnone : (Disk.of fl t.state.fs).part u s i = none := by
      by_contra hne
      obtain ⟨j, hj, hopened⟩ := (hbefore.part_iff i).mp hne
      rw [Fin.ext hj] at hopened
      exact hopen hopened
    have hnode := node_part_none hinv.shape hnone
    obtain rfl : path = partText fl u s i := Sys.openFile.inj hpath
    have hnew : openFile env t.state.fs (partText fl u s i) = _ :=
      openFile_new (plain_signDir fl hu hsg) (plain_toString i) hdir hnode
    simp only [exec, hnew]
    exact .part [] (canPut_of_parent hdir (by simp [hnode])) (by simp [mvOp]) hsum (Or.inl rfl)
  | write fd buf =>
    obtain ⟨hsum, hopen, o, ho⟩ := hpro
    have hmv : Sys.write fd buf ≠ mvOp fl u s := by simp [mvOp]
    have hop : Sys.write fd buf ≠ openOp fl u s i := by simp [openOp]
    simp only [exec, ho, writeFile]
    split
    · split
      · rename_i hcan
        exact .part _ hcan hmv hsum (Or.inr hopen)
      · exact .same hmv hop
    · exact .same hmv hop
  | shell cmd =>
    rcases hpro with ⟨hsum, _⟩ | ⟨hmv, _, hnot⟩
    · rw [hsum, exec_sum hu hsg]
      exact .same (sum_ne_mv hu hsg i) (by simp [sumOp, openOp])
    · obtain ⟨hdir, hnone⟩ := hinv.movable hnot (hok.2 hmv i)
      rw [hmv]
      unfold mvOp
      rw [exec_mv fl hu hsg hinv.shape.files_root hdir hnone]
      exact .move (hinv.shape.canMove hnone) rfl hdir
  | symlink target path =>
    obtain ⟨rfl, rfl, hd, _⟩ := hpro
    have hlink := symlink_fs env (plain_files fl hu) hsg hd (fl.filesDir ++ s) (by simp [Flags.filesDir, dirText])
    rw [List.append_assoc] at hlink
    simp only [exec, hlink]
    exact .link (by simp [mvOp]) (by simp [openOp]) hd
  | query cmd =>
    simp only [exec]
    split <;> exact .same (by simp [mvOp]) (by simp [openOp])
  | remove path => exact hpro.elim
  | send fd msg => exact hpro.elim
  | opendir path => exact .same (by simp [mvOp]) (by simp [openOp])
  | access path => exact .same (by simp [mvOp]) (by simp [openOp])
  | readdir path => exact .same (by simp [mvOp]) (by simp [openOp])
  | close fd => exact .same (by simp [mvOp]) (by simp [openOp])
  | fetch => exact .same (by simp [mvOp]) (by simp [openOp])
  | lock => exact .same (by simp [mvOp]) (by simp [openOp])
  | unlock => exact .same (by simp [mvOp]) (by simp [openOp])

end

/-! ## What stays -/

section
variable {t : Calls n} {i : Fin n} {op : Sys} {fs : FS} (h : Change fl u s t i op fs)
include h

theorem Change.shape (hs : Shape fl t.state.fs) : Shape fl fs := by
  cases h with
  | same => exact hs
  | dir _ _ htarget _ _ =>
    apply hs.ensureDir_usr
    cases htarget with
    | files => exact fun _ => rfl
    | user => exact rfl
    | tmp => exact fun _ => rfl
    | sign => exact ⟨fun he => absurd he FILES_ne_TMP.symm, fun _ => rfl⟩
  | part c hcan _ _ _ =>
    have hput : ∀ p (hcan : t.state.fs.CanPut p), p = fl.usrRoot ++ [u, TMP, s, toString i] →
        Shape fl (t.state.fs.put p (.file c) hcan) := by
      rintro _ hcan rfl
      exact hs.put_usr hcan fun _ => ⟨c, i, rfl, rfl⟩
    exact hput _ hcan (by simp [signDir])
  | move hcan _ hdir => exact hs.move hdir hcan
  | link => exact shape_ensureLink hs u s

theorem Change.dir_kept {q : Path} (hd : t.state.fs.node (fl.usrRoot ++ q) = some .dir)
    (hq : op ≠ mvOp fl u s ∨ ¬ [u, TMP, s] <+: q) : fs.node (fl.usrRoot ++ q) = some .dir := by
  cases h with
  | same => exact hd
  | dir _ _ _ _ hparent => rw [ensureDir_keeps hparent (by rw [hd]; simp), hd]
  | part c hcan _ _ _ =>
    rw [FileTree.node_put, if_neg]
    · exact hd
    · intro he
      rw [he] at hd
      exact hcan.2.2 hd
  | move hcan hop _ =>
    rw [Shape.move_node_usr hcan, if_neg (hq.resolve_left fun hne => hne hop)]
    exact hd
  | link _ _ _ =>
    unfold ensureLink ensure
    split
    · rename_i hcan
      rw [FileTree.node_put, if_neg]
      · exact hd
      · intro he
        rw [he, hcan.1] at hd
        cases hd
    · exact hd

theorem Change.store_kept (hne : op ≠ mvOp fl u s) : (Disk.of fl fs).stored = (Disk.of fl t.state.fs).stored ∧
    (Disk.of fl fs).store = (Disk.of fl t.state.fs).store := by
  cases h with
  | same => exact ⟨rfl, rfl⟩
  | dir _ _ htarget hq _ =>
    cases htarget with
    | files => rw [Disk.of_ensureDir_files]; exact ⟨rfl, rfl⟩
    | user => exact absurd rfl hq
    | tmp => rw [Disk.of_ensureDir_tmp]; exact ⟨rfl, rfl⟩
    | sign => rw [Disk.of_ensureDir_sign]; exact ⟨rfl, rfl⟩
  | part c hcan _ _ _ => rw [of_put_signDir c hcan]; exact ⟨rfl, rfl⟩
  | move _ hop _ => exact absurd hop hne
  | link _ _ hfiles => rw [of_ensureLink hfiles]; exact ⟨rfl, rfl⟩

theorem Change.part_kept (hne : op ≠ mvOp fl u s) {m : Nat} (hm : m ≠ i ∨ Summed fl u s t.trace i) :
    (Disk.of fl fs).part u s m = (Disk.of fl t.state.fs).part u s m := by
  cases h with
  | same => rfl
  | dir _ _ htarget hq _ =>
    cases htarget with
    | files => rw [Disk.of_ensureDir_files]
    | user => exact absurd rfl hq
    | tmp => rw [Disk.of_ensureDir_tmp]
    | sign => rw [Disk.of_ensureDir_sign]
  | part c hcan _ hsum _ =>
    rw [of_put_signDir c hcan]
    exact if_neg fun he => (hm.resolve_right hsum) he.2.2
  | move _ hop _ => exact absurd hop hne
  | link _ _ hfiles => rw [of_ensureLink hfiles]; rfl

theorem Change.part_own (hne : op ≠ mvOp fl u s)
    (hbefore : (Disk.of fl t.state.fs).part u s i ≠ none ↔ Opened fl u s t.trace i) :
    (Disk.of fl fs).part u s i ≠ none ↔ Opened fl u s t.trace i ∨ op = openOp fl u s i := by
  cases h with
  | same _ hop => simp only [hbefore, hop, or_false]
  | dir _ hop htarget hq _ =>
    simp only [hop, or_false]
    cases htarget with
    | files => rw [Disk.of_ensureDir_files]; exact hbefore
    | user => exact absurd rfl hq
    | tmp => rw [Disk.of_ensureDir_tmp]; exact hbefore
    | sign => rw [Disk.of_ensureDir_sign]; exact hbefore
  | part c hcan _ _ hop =>
    rw [of_put_signDir c hcan]
    simpa using hop.symm
  | move _ hop _ => exact absurd hop hne
  | link _ hop hfiles =>
    rw [of_ensureLink hfiles]
    simp only [hop, or_false]
    exact hbefore

theorem Change.published (hop : op = mvOp fl u s) : Disk.of fl fs = (Disk.of fl t.state.fs).publish u s := by
  cases h with
  | same hne | dir hne | part _ _ hne | link hne => exact absurd hop hne
  | move hcan _ hdir => exact Disk.of_move hdir hcan

end

end

end NetDisk.Parallel
