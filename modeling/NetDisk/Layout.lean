import NetDisk.FileSysSpec
import NetDisk.Spec.Disk
import NetDisk.Code.UploadRpc

/-!
# The two directories

What stands where below `usr_dir` and `files_dir` while only the server writes there, and the
`Disk` that it stands for.
-/

namespace NetDisk

/-- `files` -/
def FILES : Name := ascii "files"

/-- `tmp` -/
def TMP : Name := ascii "tmp"

theorem plain_FILES : Plain FILES := by decide +kernel
theorem plain_TMP : Plain TMP := by decide +kernel

theorem FILES_ne_TMP : FILES ≠ TMP := by decide

section
variable (fl : Flags)

/-! ## Shape -/

/-- What may stand at a path below `usr_dir`. -/
def usrEntry : Path → Node Bytes Bytes → Prop
  | [_], n => n = .dir
  | [_, a], n => a = FILES ∨ a = TMP → n = .dir
  | [_, a, s], n => (a = FILES → n = .link (fl.filesDir ++ s)) ∧ (a = TMP → n = .dir)
  | [_, a, _, i], n => a = TMP → ∃ c k, n = .file c ∧ i = toString k
  | _, _ => True

/-- What may stand at a path below `files_dir`. -/
def storeEntry : Path → Node Bytes Bytes → Prop
  | [_], n => n = .dir
  | [_, i], n => ∃ c k, n = .file c ∧ i = toString k
  | _, _ => True

structure Shape (fs : FS) : Prop where
  usr_root : fs.node fl.usrRoot = some .dir
  files_root : fs.node fl.filesRoot = some .dir
  usr_entry : ∀ q n, fs.node (fl.usrRoot ++ q) = some n → usrEntry fl q n
  store_entry : ∀ q n, fs.node (fl.filesRoot ++ q) = some n → storeEntry q n

def fileAt (fs : FS) (p : Path) : Option Bytes :=
  match fs.node p with
  | some (.file c) => some c
  | _ => none

def Disk.of (fs : FS) : Disk where
  user u := fs.node (fl.usrRoot ++ [u]) = some .dir
  part u s i := fileAt fs (fl.usrRoot ++ [u, TMP, s, toString i])
  stored s := fs.node (fl.filesRoot ++ [s]) = some .dir
  store s i := fileAt fs (fl.filesRoot ++ [s, toString i])
  linked u s := fs.node (fl.usrRoot ++ [u, FILES, s]) ≠ none

end

/-! ## Neither directory is in the other -/

namespace Flags

variable (fl : Flags)

theorem usr_ne_files (p q : Path) : fl.usrRoot ++ p ≠ fl.filesRoot ++ q := by
  intro h
  have hu : fl.usrRoot <+: fl.filesRoot ++ q := ⟨p, h⟩
  rcases List.prefix_or_prefix_of_prefix hu (List.prefix_append fl.filesRoot q) with hp | hp
  · exact fl.disjoint.1 hp
  · exact fl.disjoint.2 hp

theorem files_ne_usr (p q : Path) : fl.filesRoot ++ q ≠ fl.usrRoot ++ p := (fl.usr_ne_files p q).symm

theorem not_files_prefix_usr (p q : Path) : ¬ fl.filesRoot ++ q <+: fl.usrRoot ++ p := by
  rintro ⟨r, hr⟩
  rw [List.append_assoc] at hr
  exact fl.files_ne_usr _ _ hr

theorem not_usr_prefix_files (p q : Path) : ¬ fl.usrRoot ++ p <+: fl.filesRoot ++ q := by
  rintro ⟨r, hr⟩
  rw [List.append_assoc] at hr
  exact fl.usr_ne_files _ _ hr

end Flags

/-! ## One change at a time -/

namespace Shape

variable {fl : Flags} {fs : FS}

theorem user_dir (hs : Shape fl fs) {u : Name} (h : fs.node (fl.usrRoot ++ [u]) ≠ none) :
    fs.node (fl.usrRoot ++ [u]) = some .dir := by
  obtain ⟨n, hn⟩ := Option.ne_none_iff_exists'.mp h
  rw [hn, hs.usr_entry _ _ hn]

theorem put_usr (hs : Shape fl fs) {q : Path} {n : Node Bytes Bytes} (h : fs.CanPut (fl.usrRoot ++ q))
    (hn : usrEntry fl q n) : Shape fl (fs.put (fl.usrRoot ++ q) n h) := by
  have hq : q ≠ [] := by
    rintro rfl
    rw [List.append_nil] at h
    exact h.2.2 hs.usr_root
  refine ⟨?_, ?_, ?_, ?_⟩
  · rw [FileTree.node_put, if_neg (by simpa using hq)]
    exact hs.usr_root
  · rw [FileTree.node_put, if_neg (by simpa using fl.files_ne_usr q [])]
    exact hs.files_root
  · intro q' n' h'
    rw [FileTree.node_put] at h'
    split at h'
    · rename_i he
      rw [List.append_cancel_left_eq] at he
      rw [he, ← Option.some.inj h']
      exact hn
    · exact hs.usr_entry q' n' h'
  · intro q' n' h'
    rw [FileTree.node_put, if_neg (fl.files_ne_usr q q')] at h'
    exact hs.store_entry q' n' h'

theorem ensure_usr (hs : Shape fl fs) {q : Path} {m : Node Bytes Bytes} (hm : usrEntry fl q m) :
    Shape fl (Machine.ensure fs (fl.usrRoot ++ q) m) := by
  unfold Machine.ensure
  split
  · rename_i h
    exact hs.put_usr h.2 hm
  · exact hs

theorem ensureDir_usr (hs : Shape fl fs) {q : Path} {n : Name} (hn : usrEntry fl (q ++ [n]) .dir) :
    Shape fl (Machine.ensureDir fs (fl.usrRoot ++ q ++ [n])) := by
  rw [Machine.ensureDir, List.append_assoc]
  exact hs.ensure_usr hn

theorem storeEntry_of_usrEntry {u s : Name} {q : Path} {n : Node Bytes Bytes}
    (h : usrEntry fl ([u, TMP, s] ++ q) n) (hn : q = [] → n = .dir) : storeEntry ([s] ++ q) n := by
  match q with
  | [] => exact hn rfl
  | [i] => exact h rfl
  | _ :: _ :: _ => trivial

theorem canMove_new (hroot : fs.node fl.filesRoot = some .dir) {u s : Name}
    (hnot : fs.node (fl.filesRoot ++ [s]) = none) :
    fs.CanMove (fl.usrRoot ++ [u, TMP, s]) (fl.filesRoot ++ [s]) := by
  refine ⟨by simp, by simp, ?_, fl.not_usr_prefix_files _ _, ?_⟩
  · rw [List.dropLast_concat]
    exact hroot
  · rintro q hq ⟨r, rfl⟩
    by_contra hr
    have hnone := fs.none_below (p := fl.filesRoot ++ [s]) (by simp [hnot]) (q := r) (by rintro rfl; simp at hr)
    exact (fs.mem_paths _).mp hq hnone

theorem canMove (hs : Shape fl fs) {u s : Name} (hnot : fs.node (fl.filesRoot ++ [s]) = none) :
    fs.CanMove (fl.usrRoot ++ [u, TMP, s]) (fl.filesRoot ++ [s]) := canMove_new hs.files_root hnot

theorem move_node_usr {u s : Name} (h : fs.CanMove (fl.usrRoot ++ [u, TMP, s]) (fl.filesRoot ++ [s])) (q : Path) :
    (fs.move _ _ h).node (fl.usrRoot ++ q) =
      if [u, TMP, s] <+: q then none else fs.node (fl.usrRoot ++ q) := by
  rw [FileTree.node_move, if_neg (fl.not_files_prefix_usr _ _)]
  simp only [List.prefix_append_right_inj]

theorem move_node_store {u s : Name} (h : fs.CanMove (fl.usrRoot ++ [u, TMP, s]) (fl.filesRoot ++ [s])) (q : Path) :
    (fs.move _ _ h).node (fl.filesRoot ++ q) =
      if [s] <+: q then fs.node (fl.usrRoot ++ ([u, TMP, s] ++ q.drop 1)) else fs.node (fl.filesRoot ++ q) := by
  rw [FileTree.node_move, if_neg (c := fl.usrRoot ++ [u, TMP, s] <+: _) (fl.not_usr_prefix_files _ _)]
  simp only [List.prefix_append_right_inj]
  split
  · rw [List.length_append, ← List.drop_drop, List.drop_left, List.append_assoc]
    rfl
  · rfl

theorem move (hs : Shape fl fs) {u s : Name} (hdir : fs.node (fl.usrRoot ++ [u, TMP, s]) = some .dir)
    (h : fs.CanMove (fl.usrRoot ++ [u, TMP, s]) (fl.filesRoot ++ [s])) : Shape fl (fs.move _ _ h) := by
  have hroot := move_node_usr h []
  have hfiles := move_node_store h []
  simp only [List.append_nil] at hroot hfiles
  refine ⟨?_, ?_, ?_, ?_⟩
  · rw [hroot, if_neg (by simp)]
    exact hs.usr_root
  · rw [hfiles, if_neg (by simp)]
    exact hs.files_root
  · intro q n hq
    rw [move_node_usr] at hq
    split at hq
    · simp at hq
    · exact hs.usr_entry q n hq
  · intro q n hq
    rw [move_node_store] at hq
    split at hq
    · rename_i hpre
      obtain ⟨r, rfl⟩ := hpre
      rw [show ([s] ++ r).drop 1 = r from rfl] at hq
      have hentry : usrEntry fl ([u, TMP, s] ++ r) n := hs.usr_entry _ _ hq
      refine storeEntry_of_usrEntry hentry ?_
      rintro rfl
      rw [List.append_nil, hdir] at hq
      exact (Option.some.inj hq).symm
    · exact hs.store_entry q n hq

end Shape

/-! ## The same changes on the disk -/

namespace Disk

variable {fl : Flags} {fs : FS}

theorem of_ensureDir_files (u : Name) :
    Disk.of fl (Machine.ensureDir fs (fl.usrRoot ++ [u] ++ [FILES])) = Disk.of fl fs := by
  unfold Machine.ensureDir Machine.ensure
  split
  · simp [Disk.of, fileAt, fl.files_ne_usr]
  · rfl

theorem of_ensureDir_tmp (u : Name) :
    Disk.of fl (Machine.ensureDir fs (fl.usrRoot ++ [u] ++ [TMP])) = Disk.of fl fs := by
  unfold Machine.ensureDir Machine.ensure
  split
  · simp [Disk.of, fileAt, fl.files_ne_usr]
  · rfl

theorem of_ensureDir_sign (u s : Name) :
    Disk.of fl (Machine.ensureDir fs (fl.usrRoot ++ [u, TMP] ++ [s])) = Disk.of fl fs := by
  have hne : ¬ FILES = TMP := FILES_ne_TMP
  unfold Machine.ensureDir Machine.ensure
  split
  · simp [Disk.of, fileAt, fl.files_ne_usr, hne]
  · rfl

theorem of_put_file (u s : Name) (i : Nat) (c : Bytes) (h : fs.CanPut (fl.usrRoot ++ [u, TMP, s, toString i])) :
    Disk.of fl (fs.put _ (.file c) h) = { Disk.of fl fs with
      part := fun u' s' i' => if u' = u ∧ s' = s ∧ i' = i then some c else (Disk.of fl fs).part u' s' i' } := by
  simp only [Disk.of, FileTree.node_put, fileAt, List.append_cancel_left_eq, fl.files_ne_usr, if_false]
  congr 1
  · simp
  · funext u' s' i'
    by_cases hq : u' = u ∧ s' = s ∧ i' = i <;> simp [hq]
  · simp

theorem of_put_part (r : Part) (h : fs.CanPut (fl.usrRoot ++ [r.usr, TMP, r.sign, toString r.index])) :
    Disk.of fl (fs.put _ (.file ((Disk.of fl fs).content r)) h) = (Disk.of fl fs).putPart r :=
  of_put_file r.usr r.sign r.index _ h

theorem of_put_link (u s : Name) (n : Node Bytes Bytes) (h : fs.CanPut (fl.usrRoot ++ [u, FILES, s])) :
    Disk.of fl (fs.put _ n h) = (Disk.of fl fs).link u s := by
  have hne : ¬ TMP = FILES := FILES_ne_TMP.symm
  simp only [Disk.of, link, FileTree.node_put, fileAt, List.append_cancel_left_eq, fl.files_ne_usr, if_false]
  congr 1
  · simp
  · simp
  · funext u' s'
    by_cases hq : u' = u ∧ s' = s <;> simp [hq]

theorem link_of_linked (d : Disk) {u s : Name} (h : d.linked u s = true) : d.link u s = d := by
  have : (fun u' s' => (u' = u ∧ s' = s) || d.linked u' s') = d.linked := by
    funext u' s'
    by_cases hq : u' = u ∧ s' = s
    · obtain ⟨rfl, rfl⟩ := hq
      simp [h]
    · simp [hq]
  unfold link
  rw [this]

theorem of_move {u s : Name} (hdir : fs.node (fl.usrRoot ++ [u, TMP, s]) = some .dir)
    (h : fs.CanMove (fl.usrRoot ++ [u, TMP, s]) (fl.filesRoot ++ [s])) :
    Disk.of fl (fs.move _ _ h) = (Disk.of fl fs).publish u s := by
  have hne : ¬ TMP = FILES := FILES_ne_TMP.symm
  simp only [Disk.of, publish, fileAt, Shape.move_node_usr h, Shape.move_node_store h]
  congr 1
  · funext u'
    simp
  · funext u' s' i
    by_cases hq : u' = u ∧ s' = s
    · obtain ⟨rfl, rfl⟩ := hq
      simp
    · have hpre : ¬ [u, TMP, s] <+: [u', TMP, s', toString i] := by
        simp only [List.cons_prefix_cons, List.nil_prefix, and_true, true_and]
        exact fun hp => hq ⟨hp.1.symm, hp.2.symm⟩
      rw [if_neg hpre, if_neg hq]
  · funext s'
    by_cases hq : s' = s
    · subst hq
      simp [hdir]
    · have hpre : ¬ [s] <+: [s'] := by simpa using fun h => hq h.symm
      simp [hpre, hq]
  · funext s' i
    by_cases hq : s' = s
    · subst hq
      simp
    · have hpre : ¬ [s] <+: [s', toString i] := by simpa using fun h => hq h.symm
      simp [hpre, hq]
  · funext u' s'
    simp [hne]

theorem ncard_arrived (hs : Shape fl fs) (u s : Name) :
    ((Disk.of fl fs).arrived u s).ncard = (fs.entries (fl.usrRoot ++ [u, TMP, s])).card := by
  have himage : (fs.entries (fl.usrRoot ++ [u, TMP, s]) : Set Name) =
      toString '' (Disk.of fl fs).arrived u s := by
    ext n
    rw [Finset.mem_coe, FileTree.mem_entries, Set.mem_image]
    constructor
    · intro hn
      rw [List.append_assoc] at hn
      obtain ⟨m, hm⟩ := Option.ne_none_iff_exists'.mp hn
      obtain ⟨c, k, rfl, rfl⟩ := hs.usr_entry _ _ hm rfl
      refine ⟨k, ?_, rfl⟩
      have hm' : fs.node (fl.usrRoot ++ [u, TMP, s, toString k]) = some (.file c) := hm
      simp [arrived, Disk.of, fileAt, hm']
    · rintro ⟨k, hk, rfl⟩
      intro hnone
      have hnone' : fs.node (fl.usrRoot ++ [u, TMP, s, toString k]) = none := by simpa using hnone
      simp [arrived, Disk.of, fileAt, hnone'] at hk
  rw [← Set.ncard_coe_finset, himage, Set.ncard_image_of_injective _ toString_injective]

/-! ## Reading the store -/

theorem store_eq_some {s : Name} {i : Nat} {c : Bytes} : (Disk.of fl fs).store s i = some c ↔
    fs.node (fl.filesRoot ++ [s, toString i]) = some (.file c) := by
  simp only [Disk.of, fileAt]
  split <;> simp_all

theorem store_names (hs : Shape fl fs) (s f : Name) : fs.node (fl.filesRoot ++ [s, f]) ≠ none ↔
    ∃ i, (Disk.of fl fs).store s i ≠ none ∧ f = toString i := by
  constructor
  · intro h
    obtain ⟨m, hm⟩ := Option.ne_none_iff_exists'.mp h
    obtain ⟨c, i, rfl, rfl⟩ := hs.store_entry _ _ hm
    exact ⟨i, by rw [store_eq_some.mpr hm]; simp, rfl⟩
  · rintro ⟨i, hi, rfl⟩
    obtain ⟨c, hc⟩ := Option.ne_none_iff_exists'.mp hi
    rw [store_eq_some.mp hc]
    simp

end Disk

end NetDisk
