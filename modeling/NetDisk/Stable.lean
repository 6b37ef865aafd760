import NetDisk.Confine
import NetDisk.Faults

/-!
# What is stored stays

Uploads one after another, each with any of its operations failing. A failed test for a stored file sends a
request down the way of a new one; what is stored is safe because `mv` replaces no directory with something in it,
and only directories with something in them are moved.
-/

namespace NetDisk

open Machine UploadRpc FileSys Mmysql Server

/-! ## One change at a time -/

/-- What one operation of an upload, other than the `mv`, can do to the files. -/
inductive Change (fl : Flags) (r : NetDiskRequest) (fs : FS) : FS → Prop
  | keep : Change fl r fs fs
  | dir (q : Path) (hq : q ∈ [[r.usr], [r.usr, FILES], [r.usr, TMP], [r.usr, TMP, r.fileSign]])
      (h : fs.CanPut (fl.usrRoot ++ q)) : Change fl r fs (fs.put (fl.usrRoot ++ q) .dir h)
  | file (c : Bytes) (h : fs.CanPut (partPath fl r)) : Change fl r fs (fs.put (partPath fl r) (.file c) h)
  | gone (h : fs.CanErase (partPath fl r)) : Change fl r fs (fs.erase (partPath fl r) h)
  | link (h : fs.CanPut (fl.usrRoot ++ [r.usr, FILES, r.fileSign]))
      (hnone : fs.node (fl.usrRoot ++ [r.usr, FILES, r.fileSign]) = none) :
      Change fl r fs (fs.put (fl.usrRoot ++ [r.usr, FILES, r.fileSign]) (.link (fl.filesDir ++ r.fileSign)) h)

/-- What is stored has something in it. -/
structure Stocked (fl : Flags) (fs : FS) : Prop where
  shape : Shape fl fs
  full : ∀ s, fs.node (fl.filesRoot ++ [s]) ≠ none → ∃ i, fs.node (fl.filesRoot ++ [s, i]) ≠ none

/-- Between two states, what is stored and what is linked has stayed as it is. -/
structure Lasting (fl : Flags) (fs fs' : FS) : Prop where
  stored : ∀ s, fs.node (fl.filesRoot ++ [s]) ≠ none →
    ∀ q, fs'.node (fl.filesRoot ++ ([s] ++ q)) = fs.node (fl.filesRoot ++ ([s] ++ q))
  linked : ∀ u s target, fs.node (fl.usrRoot ++ [u, FILES, s]) = some (.link target) →
    fs'.node (fl.usrRoot ++ [u, FILES, s]) = some (.link target)

namespace Lasting

variable {fl : Flags} {fs fs' fs'' : FS}

theorem refl (fl : Flags) (fs : FS) : Lasting fl fs fs := ⟨fun _ _ _ => rfl, fun _ _ _ h => h⟩

theorem trans (h : Lasting fl fs fs') (h' : Lasting fl fs' fs'') : Lasting fl fs fs'' where
  stored s hs q := by
    have hs' : fs'.node (fl.filesRoot ++ [s]) ≠ none := by
      have hroot := h.stored s hs []
      rw [List.append_nil] at hroot
      rwa [hroot]
    rw [h'.stored s hs' q, h.stored s hs q]
  linked u s target hl := h'.linked u s target (h.linked u s target hl)

theorem of_usr {q : Path} (hq : ∀ u s, q ≠ [u, FILES, s] ∨ fs.node (fl.usrRoot ++ q) = none)
    (hkeep : ∀ p, p ≠ fl.usrRoot ++ q → fs'.node p = fs.node p) : Lasting fl fs fs' where
  stored s _ p := hkeep _ (fl.files_ne_usr _ _)
  linked u s target hl := by
    rw [hkeep _ ?_, hl]
    intro he
    rcases hq u s with h | h
    · exact h (List.append_cancel_left he).symm
    · rw [he, h] at hl
      cases hl

end Lasting

section
variable {fl : Flags} {r : NetDiskRequest} {fs fs' : FS}

theorem Change.lasting (h : Change fl r fs fs') : Lasting fl fs fs' := by
  cases h with
  | keep => exact .refl fl fs
  | dir q hq h =>
    refine .of_usr (q := q) ?_ fun p hp => if_neg hp
    intro u s
    left
    rintro rfl
    have hne : ¬ FILES = TMP := FILES_ne_TMP
    simp [hne] at hq
  | file c h =>
    refine .of_usr (q := [r.usr, TMP, r.fileSign, toString r.partIndex.toNat]) ?_ fun p hp => if_neg hp
    exact fun _ _ => Or.inl (by simp)
  | gone h =>
    refine .of_usr (q := [r.usr, TMP, r.fileSign, toString r.partIndex.toNat]) ?_ fun p hp => if_neg hp
    exact fun _ _ => Or.inl (by simp)
  | link h hnone =>
    refine .of_usr (q := [r.usr, FILES, r.fileSign]) ?_ fun p hp => if_neg hp
    exact fun _ _ => Or.inr hnone

theorem Shape.erase_usr (hs : Shape fl fs) {q : Path} (hq : q ≠ []) (h : fs.CanErase (fl.usrRoot ++ q)) :
    Shape fl (fs.erase (fl.usrRoot ++ q) h) := by
  refine ⟨?_, ?_, ?_, ?_⟩
  · rw [FileTree.node_erase, if_neg (by simpa using hq)]
    exact hs.usr_root
  · rw [FileTree.node_erase, if_neg (by simpa using fl.files_ne_usr q [])]
    exact hs.files_root
  · intro q' n' h'
    rw [FileTree.node_erase] at h'
    split at h'
    · cases h'
    · exact hs.usr_entry q' n' h'
  · intro q' n' h'
    rw [FileTree.node_erase, if_neg (fl.files_ne_usr q q')] at h'
    exact hs.store_entry q' n' h'

theorem Change.stocked (h : Change fl r fs fs') (hs : Stocked fl fs) : Stocked fl fs' := by
  have hshape : Shape fl fs' := by
    cases h with
    | keep => exact hs.shape
    | dir q hq h =>
      refine hs.shape.put_usr h ?_
      rcases List.mem_cons.mp hq with rfl | hq
      · rfl
      rcases List.mem_cons.mp hq with rfl | hq
      · exact fun _ => rfl
      rcases List.mem_cons.mp hq with rfl | hq
      · exact fun _ => rfl
      · rw [List.mem_singleton.mp hq]
        exact ⟨fun h => absurd h FILES_ne_TMP.symm, fun _ => rfl⟩
    | file c h => exact hs.shape.put_usr h fun _ => ⟨c, _, rfl, rfl⟩
    | gone h => exact hs.shape.erase_usr (by simp) h
    | link h hnone => exact hs.shape.put_usr h ⟨fun _ => rfl, fun h => absurd h FILES_ne_TMP⟩
  have hstore : ∀ q, fs'.node (fl.filesRoot ++ q) = fs.node (fl.filesRoot ++ q) := by
    intro q
    cases h with
    | keep => rfl
    | dir q' hq h => exact if_neg (fl.files_ne_usr _ _)
    | file c h => exact if_neg (fl.files_ne_usr _ _)
    | gone h => exact if_neg (fl.files_ne_usr _ _)
    | link h hnone => exact if_neg (fl.files_ne_usr _ _)
  refine ⟨hshape, fun s hsome => ?_⟩
  rw [hstore] at hsome
  obtain ⟨i, hi⟩ := hs.full s hsome
  exact ⟨i, by rwa [hstore]⟩

theorem moved {u s i : Name} (hs : Stocked fl fs) (hdir : fs.node (fl.usrRoot ++ [u, TMP, s]) = some .dir)
    (hpart : fs.node (fl.usrRoot ++ [u, TMP, s, i]) ≠ none)
    (hcan : fs.CanMove (fl.usrRoot ++ [u, TMP, s]) (fl.filesRoot ++ [s])) :
    Stocked fl (fs.move _ _ hcan) ∧ Lasting fl fs (fs.move _ _ hcan) := by
  -- Where something is stored, something would be below it.
  have hnone : fs.node (fl.filesRoot ++ [s]) = none := by
    by_contra hsome
    obtain ⟨j, hj⟩ := hs.full s hsome
    have hempty := hcan.2.2.2.2 (fl.filesRoot ++ [s, j]) ((fs.mem_paths _).mpr hj) ⟨[j], by simp⟩
    simp at hempty
  refine ⟨⟨hs.shape.move hdir hcan, ?_⟩, ?_, ?_⟩
  · intro s' hsome
    by_cases he : s' = s
    · subst he
      refine ⟨i, ?_⟩
      rw [Shape.move_node_store, if_pos ⟨[i], rfl⟩]
      exact hpart
    · have hpre : ∀ q, ¬ [s] <+: s' :: q := by
        intro q hp
        exact he (List.cons_prefix_cons.mp hp).1.symm
      rw [Shape.move_node_store, if_neg (hpre [])] at hsome
      obtain ⟨j, hj⟩ := hs.full s' hsome
      exact ⟨j, by rwa [Shape.move_node_store, if_neg (hpre [j])]⟩
  · intro s' hsome q
    rw [Shape.move_node_store, if_neg]
    intro hp
    rw [(List.cons_prefix_cons.mp hp).1] at hnone
    exact hsome hnone
  · intro u' s' target hl
    rw [Shape.move_node_usr, if_neg, hl]
    intro hp
    have hne : TMP = FILES := (List.cons_prefix_cons.mp (List.cons_prefix_cons.mp hp).2).1
    exact FILES_ne_TMP hne.symm

end

/-! ## No links on the way -/

namespace Shape

variable {fl : Flags} {fs : FS}

theorem noLinks_usr (hs : Shape fl fs) {q : Path}
    (hq : ∀ q' target, q' <+: q → q' ≠ [] → ¬ usrEntry fl q' (.link target)) : NoLinks fs (fl.usrRoot ++ q) := by
  intro p hp target h
  rcases List.prefix_or_prefix_of_prefix hp (List.prefix_append fl.usrRoot q) with hroot | ⟨q', rfl⟩
  · rw [fs.dir_of_prefix hs.usr_root hroot] at h
    cases h
  · by_cases hnil : q' = []
    · rw [hnil, List.append_nil, hs.usr_root] at h
      cases h
    · exact hq q' target ((List.prefix_append_right_inj _).mp hp) hnil (hs.usr_entry q' _ h)

theorem noLinks_files (hs : Shape fl fs) (u : Name) : NoLinks fs (fl.usrRoot ++ [u, FILES]) := by
  refine hs.noLinks_usr fun q' target hp hnil h => ?_
  obtain ⟨rest, hrest⟩ := hp
  match q' with
  | [] => exact hnil rfl
  | [_] => cases h
  | [_, a] =>
    simp only [List.cons_append, List.cons.injEq] at hrest
    exact absurd (h (Or.inl hrest.2.1)) (by simp)
  | _ :: _ :: _ :: _ => simp at hrest

theorem noLinks_part (hs : Shape fl fs) (r : NetDiskRequest) : NoLinks fs (partPath fl r) := by
  refine hs.noLinks_usr fun q' target hp hnil h => ?_
  obtain ⟨rest, hrest⟩ := hp
  match q' with
  | [] => exact hnil rfl
  | [_] => cases h
  | [_, a] =>
    simp only [List.cons_append, List.cons.injEq] at hrest
    exact absurd (h (Or.inr hrest.2.1)) (by simp)
  | [_, a, _] =>
    simp only [List.cons_append, List.cons.injEq] at hrest
    exact absurd (h.2 hrest.2.1) (by simp)
  | [_, a, _, _] =>
    simp only [List.cons_append, List.cons.injEq] at hrest
    obtain ⟨c, k, hfile, -⟩ := h hrest.2.1
    cases hfile
  | _ :: _ :: _ :: _ :: _ :: _ => simp at hrest

end Shape

/-! ## One operation, however it goes -/

section
variable {env : Env} {tid : Nat} {fl : Flags} {r : NetDiskRequest} {w : World}

theorem mkdir_change {text : Bytes} {q : Path} (hq : q ∈ [[r.usr], [r.usr, FILES], [r.usr, TMP], [r.usr, TMP, r.fileSign]])
    (hloc : locate env w.fs text = .ok (fl.usrRoot ++ q) ∨ ∃ e, locate env w.fs text = .error e) :
    Change fl r w.fs (exec env tid (.mkdir text) w).2.fs := by
  simp only [exec, Machine.mkdir]
  rcases hloc with h | ⟨e, h⟩
  · rw [h]
    dsimp only
    split
    · rename_i hcan
      exact .dir q hq hcan.1
    · exact .keep
  · rw [h]
    exact .keep

theorem remove_change {text : Bytes}
    (hloc : locate env w.fs text = .ok (partPath fl r) ∨ ∃ e, locate env w.fs text = .error e) :
    Change fl r w.fs (exec env tid (.remove text) w).2.fs := by
  simp only [exec, Machine.remove]
  rcases hloc with h | ⟨e, h⟩
  · rw [h]
    dsimp only
    split_ifs with hnone hcan
    · exact .keep
    · exact .gone hcan
    · exact .keep
  · rw [h]
    exact .keep

theorem symlink_change {text : Bytes}
    (hloc : locate env w.fs text = .ok (fl.usrRoot ++ [r.usr, FILES, r.fileSign]) ∨ ∃ e, locate env w.fs text = .error e) :
    Change fl r w.fs (exec env tid (.symlink (fl.filesDir ++ r.fileSign) text) w).2.fs := by
  simp only [exec, Machine.symlink]
  rw [if_neg (by simp [Flags.filesDir, dirText])]
  rcases hloc with h | ⟨e, h⟩
  · rw [h]
    dsimp only
    split_ifs with hcan hslash
    · exact .link hcan.1 hcan.2
    · exact .keep
    · exact .keep
  · rw [h]
    exact .keep

/-- The part's file is there, and open. -/
def PartOpen (fl : Flags) (r : NetDiskRequest) (fd : Nat) (w : World) : Prop :=
  (∃ c, w.fs.node (partPath fl r) = some (.file c)) ∧ ∃ o, w.fds fd = some ⟨some (partPath fl r), o⟩

variable (tid) in
theorem openFile_change {text : Bytes}
    (hres : resolve env w.fs text = .ok (partPath fl r) ∨ ∃ e, resolve env w.fs text = .error e) :
    Change fl r w.fs (exec env tid (.openFile text) w).2.fs ∧
      ∀ fd, (exec env tid (.openFile text) w).1 = some fd → PartOpen fl r fd (exec env tid (.openFile text) w).2 := by
  simp only [exec, Machine.openFile]
  rcases hres with h | ⟨e, h⟩
  · rw [h]
    cases hnode : w.fs.node (partPath fl r) with
    | none =>
      by_cases hcan : w.fs.CanPut (partPath fl r)
      · simp only [hnode, dif_pos hcan]
        refine ⟨.file [] hcan, fun fd hfd => ?_⟩
        obtain rfl := Option.some.inj hfd
        exact ⟨⟨[], by simp⟩, 0, by simp⟩
      · simp only [hnode, dif_neg hcan]
        exact ⟨.keep, fun fd hfd => by cases hfd⟩
    | some n =>
      cases n with
      | file c =>
        simp only [hnode]
        refine ⟨.keep, fun fd hfd => ?_⟩
        obtain rfl := Option.some.inj hfd
        exact ⟨⟨c, hnode⟩, 0, by simp⟩
      | dir =>
        simp only [hnode]
        exact ⟨.keep, fun fd hfd => by cases hfd⟩
      | link target =>
        simp only [hnode]
        exact ⟨.keep, fun fd hfd => by cases hfd⟩
  · simp only [h]
    exact ⟨.keep, fun fd hfd => by cases hfd⟩

variable (env tid) in
theorem write_change {fd : Nat} (buf : Bytes) (h : PartOpen fl r fd w) :
    Change fl r w.fs (exec env tid (.write fd buf) w).2.fs ∧ PartOpen fl r fd (exec env tid (.write fd buf) w).2 := by
  obtain ⟨⟨c, hc⟩, o, ho⟩ := h
  simp only [exec, ho, writeFile, hc]
  by_cases hcan : w.fs.CanPut (partPath fl r)
  · simp only [dif_pos hcan]
    exact ⟨.file _ hcan, ⟨_, if_pos rfl⟩, o + buf.length, by simp⟩
  · simp only [dif_neg hcan]
    exact ⟨.keep, ⟨c, hc⟩, o + buf.length, by simp⟩

variable (env tid) in
theorem mv_cases (hs : Shape fl w.fs) (hu : Plain r.usr) (hsg : Plain r.fileSign)
    (hdir : w.fs.node (fl.usrRoot ++ [r.usr, TMP, r.fileSign]) = some .dir) :
    (exec env tid (.shell (mvCmd fl r)) w).1 = some [] ∧ (exec env tid (.shell (mvCmd fl r)) w).2.db = w.db ∧
      (¬ w.fs.CanMove (fl.usrRoot ++ [r.usr, TMP, r.fileSign]) (fl.filesRoot ++ [r.fileSign]) ∧
          (exec env tid (.shell (mvCmd fl r)) w).2.fs = w.fs ∨
        ∃ hcan, (exec env tid (.shell (mvCmd fl r)) w).2.fs =
          w.fs.move (fl.usrRoot ++ [r.usr, TMP, r.fileSign]) (fl.filesRoot ++ [r.fileSign]) hcan) := by
  have htmp : w.fs.node (fl.usrRoot ++ [r.usr, TMP]) = some .dir := w.fs.dir_above _ [r.fileSign] (by simp) (by simp [hdir])
  have hsrc : locate env w.fs (dirText (fl.usrRoot ++ [r.usr, TMP]) ++ r.fileSign) =
      .ok (fl.usrRoot ++ [r.usr, TMP, r.fileSign]) := by
    rw [locate_name (plain_tmp fl hu) hsg htmp]
    simp
  have hstore : isDir env w.fs fl.filesDir = some fl.filesRoot := by
    simp only [isDir, Flags.filesDir, resolve_dir fl.files_plain hs.files_root, hs.files_root, if_true]
  have htarget : mvTarget env w.fs (fl.usrRoot ++ [r.usr, TMP, r.fileSign]) fl.filesDir = .ok (fl.filesRoot ++ [r.fileSign]) := by
    have hlast : (fl.usrRoot ++ [r.usr, TMP, r.fileSign]).getLast? = some r.fileSign := by simp
    simp only [mvTarget, hstore, hlast]
  have hrep : mvReplaces w.fs (fl.usrRoot ++ [r.usr, TMP, r.fileSign]) (fl.filesRoot ++ [r.fileSign]) := by
    cases hnode : w.fs.node (fl.filesRoot ++ [r.fileSign]) with
    | none => exact Or.inl hnode
    | some n =>
      rw [hs.store_entry _ _ hnode] at hnode
      exact Or.inr (iff_of_true hdir hnode)
  have hrun : exec env tid (.shell (mvCmd fl r)) w =
      (some [], mv env w (dirText (fl.usrRoot ++ [r.usr, TMP]) ++ r.fileSign) fl.filesDir) := by
    simp only [exec, Machine.shell, (mvCmd_words fl hu hsg).2, if_true]
  rw [hrun]
  simp only [mv, mvPaths, hsrc, hdir, htarget]
  rw [if_neg (by simp), if_pos hrep]
  by_cases hcan : w.fs.CanMove (fl.usrRoot ++ [r.usr, TMP, r.fileSign]) (fl.filesRoot ++ [r.fileSign])
  · simp only [dif_pos hcan]
    exact ⟨trivial, trivial, Or.inr ⟨hcan, trivial⟩⟩
  · simp only [dif_neg hcan]
    exact ⟨trivial, trivial, Or.inl ⟨hcan, trivial⟩⟩

end

/-! ## The call, part by part -/

/-- What is kept all along a call that started from `fs0`. -/
def Held (fl : Flags) (fs0 : FS) (s : Faulty) : Prop := Stocked fl s.world.fs ∧ Lasting fl fs0 s.world.fs

/-- The same, with the part's file there. -/
def HeldPart (fl : Flags) (r : NetDiskRequest) (fs0 : FS) (s : Faulty) : Prop :=
  Held fl fs0 s ∧ ∃ c, s.world.fs.node (partPath fl r) = some (.file c)

/-- The file is open, or could not be opened. -/
def HeldOpen (fl : Flags) (r : NetDiskRequest) (fs0 : FS) : Option Nat → Faulty → Prop
  | none, s => Held fl fs0 s
  | some fd, s => Held fl fs0 s ∧ PartOpen fl r fd s.world

section
variable {env : Env} {tid : Nat} {fl : Flags} {r : NetDiskRequest} {fs0 fs fs' : FS}

theorem Change.held (hc : Change fl r fs fs') (h : Stocked fl fs ∧ Lasting fl fs0 fs) :
    Stocked fl fs' ∧ Lasting fl fs0 fs' :=
  ⟨hc.stocked h.1, h.2.trans hc.lasting⟩

theorem op_held {op : Sys} (hexec : ∀ w, Shape fl w.fs → Change fl r w.fs (exec env tid op w).2.fs)
    (hfail : ∀ f w, (failed f env tid op w).2.fs = w.fs) :
    Prog.Triple (faulty anyFails env tid) (Held fl fs0) (sys op) (fun _ => Held fl fs0) := by
  refine Prog.Triple.lift fun s hs => ?_
  refine faulty_spec (Q := fun _ w => Stocked fl w.fs ∧ Lasting fl fs0 w.fs) ?_ fun _ f => ?_
  · exact (hexec s.world hs.1.shape).held hs
  · rw [hfail]
    exact hs

theorem read_keeps {op : Sys} {P : Faulty → Prop} (hP : ∀ s s', s.world.fs = s'.world.fs → P s → P s')
    (hexec : ∀ w, (exec env tid op w).2.fs = w.fs) (hfail : ∀ f w, (failed f env tid op w).2.fs = w.fs) :
    Prog.Triple (faulty anyFails env tid) P (sys op) (fun _ => P) := by
  refine Prog.Triple.lift fun s hs => hP s _ (Eq.symm ?_) hs
  exact faulty_spec (Q := fun _ w => w.fs = s.world.fs) (hexec s.world) fun _ f => hfail f s.world

theorem held_of_fs (s s' : Faulty) (h : s.world.fs = s'.world.fs) (hs : Held fl fs0 s) : Held fl fs0 s' := by
  unfold Held
  rwa [← h]

theorem heldPart_of_fs (s s' : Faulty) (h : s.world.fs = s'.world.fs) (hs : HeldPart fl r fs0 s) : HeldPart fl r fs0 s' := by
  unfold HeldPart Held
  rwa [← h]

theorem mkdir_held {text : Bytes} {q : Path} (hq : q ∈ [[r.usr], [r.usr, FILES], [r.usr, TMP], [r.usr, TMP, r.fileSign]])
    (hloc : ∀ fs, Shape fl fs → locate env fs (cStr text) = .ok (fl.usrRoot ++ q) ∨
      ∃ e, locate env fs (cStr text) = .error e) :
    Prog.Triple (faulty anyFails env tid) (Held fl fs0) (FileSys.mkdir text) (fun _ => Held fl fs0) := by
  unfold FileSys.mkdir
  refine Prog.Triple.bind _ (op_held (fun w hs => mkdir_change hq (hloc w.fs hs)) fun _ _ => rfl) fun err => ?_
  exact Prog.Triple.ite (fun _ => Prog.Triple.pure fun _ h => h) fun _ => Prog.Triple.pure fun _ h => h

theorem deleteFile_held {text : Bytes} (hloc : ∀ fs, Shape fl fs → locate env fs (cStr text) = .ok (partPath fl r) ∨
      ∃ e, locate env fs (cStr text) = .error e) :
    Prog.Triple (faulty anyFails env tid) (Held fl fs0) (deleteFile text) (fun _ => Held fl fs0) := by
  unfold deleteFile
  refine Prog.Triple.bind _ (op_held (fun w hs => remove_change (hloc w.fs hs)) fun _ _ => rfl) fun err => ?_
  exact Prog.Triple.ite (fun _ => Prog.Triple.pure fun _ h => h) fun _ => Prog.Triple.pure fun _ h => h

theorem sysWrite_held (fd : Nat) (buf : Bytes) : Prog.Triple (faulty anyFails env tid)
    (HeldOpen fl r fs0 (some fd)) (sys (.write fd buf)) (fun _ => HeldOpen fl r fs0 (some fd)) := by
  have hstep : ∀ (w : World) (buf : Bytes), (Stocked fl w.fs ∧ Lasting fl fs0 w.fs) ∧ PartOpen fl r fd w →
      (Stocked fl (exec env tid (.write fd buf) w).2.fs ∧ Lasting fl fs0 (exec env tid (.write fd buf) w).2.fs) ∧
        PartOpen fl r fd (exec env tid (.write fd buf) w).2 := by
    rintro w buf ⟨hheld, hopen⟩
    obtain ⟨hc, hopen'⟩ := write_change env tid buf hopen
    exact ⟨hc.held hheld, hopen'⟩
  refine Prog.Triple.lift fun s hs => ?_
  refine faulty_spec (Q := fun _ w => (Stocked fl w.fs ∧ Lasting fl fs0 w.fs) ∧ PartOpen fl r fd w) ?_ fun _ f => ?_
  · exact hstep s.world buf hs
  · exact hstep s.world (buf.take f.written) hs

theorem writeLoop_held (fd : Nat) (text : Bytes) (fuel len : Nat) : Prog.Triple (faulty anyFails env tid)
    (HeldOpen fl r fs0 (some fd)) (writeLoop fd text fuel len) (fun _ => HeldOpen fl r fs0 (some fd)) := by
  induction fuel generalizing len with
  | zero => exact Prog.Triple.pure fun _ h => h
  | succ fuel ih =>
    unfold writeLoop
    apply Prog.Triple.ite
    · exact fun _ => Prog.Triple.bind _ (sysWrite_held fd _) fun _ => ih (len - writeLen)
    · exact fun _ => Prog.Triple.pure fun _ h => h

theorem write_held (str : Bytes) {text : Bytes} (hres : ∀ fs, Shape fl fs →
      resolve env fs (cStr text) = .ok (partPath fl r) ∨ ∃ e, resolve env fs (cStr text) = .error e) :
    Prog.Triple (faulty anyFails env tid) (Held fl fs0) (write str text)
      (fun rt s => Held fl fs0 s ∧ (rt = 0 → HeldPart fl r fs0 s)) := by
  unfold write
  refine Prog.Triple.bind (HeldOpen fl r fs0) ?_ fun fd => ?_
  · refine Prog.Triple.lift fun s hs => ?_
    cases hf : s.faults 0 with
    | some f =>
      rw [faulty_some hf rfl]
      exact hs
    | none =>
      rw [faulty_none hf]
      obtain ⟨hc, hopen⟩ := openFile_change tid (hres s.world.fs hs.1.shape)
      generalize exec env tid (.openFile (cStr text)) s.world = out at hc hopen ⊢
      obtain ⟨fd, w⟩ := out
      cases fd with
      | none => exact hc.held hs
      | some fd => exact ⟨hc.held hs, hopen fd rfl⟩
  · cases fd with
    | none => exact Prog.Triple.pure fun _ h => ⟨h, by simp⟩
    | some fd =>
      refine Prog.Triple.bind _ (writeLoop_held fd _ _ _) fun len => ?_
      refine Prog.Triple.bind _ (sysWrite_held fd _) fun _ => ?_
      refine Prog.Triple.bind (fun _ => HeldPart fl r fs0) ?_ fun _ => Prog.Triple.pure fun _ h => ⟨h.1, fun _ => h⟩
      exact fun s hs => read_keeps heldPart_of_fs (fun _ => rfl) (fun _ _ => rfl) s ⟨hs.1, hs.2.1⟩

theorem query_keeps {cmd : Bytes} : Prog.Triple (faulty anyFails env tid) (Held fl fs0) (runQuery cmd)
    (fun _ => Held fl fs0) := by
  unfold runQuery
  refine Prog.Triple.bind _ (read_keeps held_of_fs ?_ fun _ _ => rfl) fun ok => ?_
  · intro w
    simp only [exec]
    split <;> rfl
  · exact Prog.Triple.ite (fun _ => Prog.Triple.pure fun _ h => h) fun _ => Prog.Triple.pure fun _ h => h

theorem lockedQuery_held (cmd : Bytes) : Prog.Triple (faulty anyFails env tid) (Held fl fs0) (lockedQuery cmd)
    (fun _ => Held fl fs0) := by
  unfold lockedQuery
  refine Prog.Triple.bind _ (read_keeps held_of_fs (fun _ => rfl) fun _ _ => rfl) fun _ => ?_
  refine Prog.Triple.bind _ query_keeps fun rt => ?_
  refine Prog.Triple.bind _ (read_keeps held_of_fs (fun _ => rfl) fun _ _ => rfl) fun _ => ?_
  exact Prog.Triple.ite (fun _ => Prog.Triple.pure fun _ h => h) fun _ => Prog.Triple.pure fun _ h => h

theorem countLink_held (sign fileName : Bytes) : Prog.Triple (faulty anyFails env tid) (Held fl fs0)
    (countLink sign fileName) (fun _ => Held fl fs0) := by
  unfold countLink
  refine Prog.Triple.bind _ query_keeps fun rt => ?_
  refine Prog.Triple.ite (fun _ => Prog.Triple.pure fun _ h => h) fun _ => ?_
  refine Prog.Triple.bind _ (read_keeps held_of_fs (fun _ => rfl) fun _ _ => rfl) fun row => ?_
  cases row <;> exact lockedQuery_held _

theorem lsDir_held {dir : Bytes} : Prog.Triple (faulty anyFails env tid) (HeldPart fl r fs0) (lsDir dir)
    (fun _ => HeldPart fl r fs0) := by
  unfold lsDir
  refine Prog.Triple.bind _ (read_keeps heldPart_of_fs (fun _ => rfl) fun _ _ => rfl) fun names => ?_
  cases names <;> exact Prog.Triple.pure fun _ h => h

variable (hu : Plain r.usr) (hsg : Plain r.fileSign) (response : NetDiskResponse)
include hu hsg

theorem md5Sum_held {P : Faulty → Prop} (hP : ∀ s s', s.world.fs = s'.world.fs → P s → P s') :
    Prog.Triple (faulty anyFails env tid) P (md5Sum (filePath fl r)) (fun _ => P) := by
  unfold md5Sum shellOut
  have hleave : ∀ w, (exec env tid (.shell (cStr (ascii "md5sum " ++ filePath fl r))) w).2 = w := by
    intro w
    rw [filePath_text]
    simp only [exec, md5Cmd_words (plain_signDir fl hu hsg) (plain_toString _), Machine.shell, if_true]
  refine Prog.Triple.bind _ (read_keeps hP (fun w => by rw [hleave]) fun f w => ?_) fun res => ?_
  · simp only [failed]
    split
    · rw [hleave]
    · rfl
  · cases res <;> exact Prog.Triple.pure fun _ h => h

theorem linkToUsr_held (sign fileName : Bytes) : Prog.Triple (faulty anyFails env tid) (Held fl fs0)
    (linkToUsr (fileDir fl r) (linkPath fl r) sign fileName) (fun _ => Held fl fs0) := by
  unfold linkToUsr link
  rw [fileDir_cStr fl hsg, linkPath_text, cStr_name (plain_files fl hu) hsg]
  refine Prog.Triple.bind (fun _ => Held fl fs0) ?_ fun rt => ?_
  · refine Prog.Triple.bind _ (op_held (r := r) (fun w hs => symlink_change ?_) fun _ _ => rfl) fun err => ?_
    · have hclear := locate_clear env (plain_files fl hu) hsg (hs.noLinks_files r.usr)
      rwa [List.append_assoc] at hclear
    · exact Prog.Triple.ite (fun _ => Prog.Triple.pure fun _ h => h) fun _ => Prog.Triple.pure fun _ h => h
  · exact Prog.Triple.ite (fun _ => Prog.Triple.pure fun _ h => h) fun _ => countLink_held sign fileName

theorem mv_held {w : World} (h : Stocked fl w.fs ∧ Lasting fl fs0 w.fs)
    (hc : ∃ c, w.fs.node (partPath fl r) = some (.file c)) :
    Stocked fl (exec env tid (.shell (mvCmd fl r)) w).2.fs ∧ Lasting fl fs0 (exec env tid (.shell (mvCmd fl r)) w).2.fs := by
  obtain ⟨c, hc⟩ := hc
  have hpart : w.fs.node (fl.usrRoot ++ [r.usr, TMP, r.fileSign, toString r.partIndex.toNat]) ≠ none := by
    change w.fs.node (partPath fl r) ≠ none
    simp [hc]
  have hdir : w.fs.node (fl.usrRoot ++ [r.usr, TMP, r.fileSign]) = some .dir :=
    w.fs.dir_above _ [toString r.partIndex.toNat] (by simp) (by simpa using hpart)
  obtain ⟨-, -, ⟨-, hstay⟩ | ⟨hcan, hmove⟩⟩ := mv_cases env tid h.1.shape hu hsg hdir
  · rw [hstay]
    exact h
  · obtain ⟨hstocked, hlast⟩ := moved h.1 hdir hpart hcan
    rw [hmove]
    exact ⟨hstocked, h.2.trans hlast⟩

theorem publish_held : Prog.Triple (faulty anyFails env tid) (HeldPart fl r fs0) (publish fl r response)
    (fun _ => Held fl fs0) := by
  unfold publish shellOut
  rw [(mvCmd_words fl hu hsg).1]
  refine Prog.Triple.bind (fun _ => Held fl fs0) (Prog.Triple.lift fun s hs => ?_) fun shellRes => ?_
  · refine faulty_spec (Q := fun _ w => Stocked fl w.fs ∧ Lasting fl fs0 w.fs) (mv_held hu hsg hs.1 hs.2) fun _ f => ?_
    simp only [failed]
    split
    · exact mv_held hu hsg hs.1 hs.2
    · exact hs.1
  · refine Prog.Triple.ite (fun _ => Prog.Triple.pure fun _ h => h) fun _ => ?_
    refine Prog.Triple.bind _ (linkToUsr_held hu hsg _ _) fun rt => ?_
    exact Prog.Triple.ite (fun _ => Prog.Triple.pure fun _ h => h) fun _ => Prog.Triple.pure fun _ h => h

theorem checkSign_held : Prog.Triple (faulty anyFails env tid) (HeldPart fl r fs0) (checkSign fl r response)
    (fun _ => Held fl fs0) := by
  unfold checkSign checkArrived allPartArrived
  refine Prog.Triple.bind _ (md5Sum_held hu hsg heldPart_of_fs) fun curMd5 => ?_
  cases curMd5 with
  | none => exact Prog.Triple.pure fun _ h => h.1
  | some curMd5 =>
    refine Prog.Triple.ite (fun _ => Prog.Triple.pure fun _ h => h.1) fun _ => ?_
    refine Prog.Triple.bind (fun _ => HeldPart fl r fs0) ?_ fun arrived => ?_
    · exact Prog.Triple.bind _ lsDir_held fun _ => Prog.Triple.pure fun _ h => h
    exact Prog.Triple.ite (fun _ => publish_held hu hsg response) fun _ => Prog.Triple.pure fun _ h => h.1

theorem writePart_held : Prog.Triple (faulty anyFails env tid) (Held fl fs0) (writePart fl r response)
    (fun _ => Held fl fs0) := by
  unfold writePart
  refine Prog.Triple.bind _ (write_held (r := r) r.body fun fs hs => ?_) fun rt => ?_
  · have hclear := resolve_clear env (plain_signDir fl hu hsg) (plain_toString r.partIndex.toNat)
      (partPath_eq fl r ▸ hs.noLinks_part r)
    rw [filePath_text, cStr_name (plain_signDir fl hu hsg) (plain_toString _), partPath_eq]
    exact hclear
  · by_cases hrt : rt = 0
    · rw [if_neg (by simpa using hrt)]
      exact fun s hs => checkSign_held hu hsg response s (hs.2 hrt)
    · rw [if_pos hrt]
      exact Prog.Triple.pure fun _ h => h.1

theorem storePart_held : Prog.Triple (faulty anyFails env tid) (Held fl fs0) (storePart fl r response)
    (fun _ => Held fl fs0) := by
  unfold storePart existingPart existFile
  refine Prog.Triple.bind _ (read_keeps held_of_fs (fun _ => rfl) fun _ _ => rfl) fun exist => ?_
  refine Prog.Triple.ite (fun _ => ?_) fun _ => writePart_held hu hsg response
  refine Prog.Triple.bind _ (md5Sum_held hu hsg held_of_fs) fun curMd5 => ?_
  cases curMd5 with
  | none => exact Prog.Triple.pure fun _ h => h
  | some curMd5 =>
    refine Prog.Triple.ite (fun _ => writePart_held hu hsg _) fun _ => ?_
    refine Prog.Triple.bind _ (deleteFile_held (r := r) fun fs hs => ?_) fun _ => writePart_held hu hsg response
    have hclear := locate_clear env (plain_signDir fl hu hsg) (plain_toString r.partIndex.toNat)
      fun q hq => hs.noLinks_part r q (hq.trans (partPath_eq fl r ▸ List.prefix_append _ _))
    rw [filePath_text, cStr_name (plain_signDir fl hu hsg) (plain_toString _), partPath_eq]
    exact hclear

theorem makeTmpDirs_held : Prog.Triple (faulty anyFails env tid) (Held fl fs0) (makeTmpDirs fl r)
    (fun _ => Held fl fs0) := by
  have husr := plain_snoc fl.usr_plain hu
  have hsign := plain_snoc (plain_tmp fl hu) hsg
  have hclear : ∀ {fs}, Shape fl fs → ∀ {p}, p <+: partPath fl r → NoLinks fs p :=
    fun hs _ hp q hq => hs.noLinks_part r q (hq.trans hp)
  unfold makeTmpDirs
  refine Prog.Triple.bind _ (mkdir_held (r := r) (q := [r.usr]) (by simp) fun fs hs => ?_) fun rt => ?_
  · rw [Flags.usrDir, cStr_name fl.usr_plain hu]
    exact locate_clear env fl.usr_plain hu (hclear hs (List.prefix_append _ _))
  refine Prog.Triple.ite (fun _ => Prog.Triple.pure fun _ h => h) fun _ => ?_
  rw [signDir_slash_text, usrUploadDir_text]
  refine Prog.Triple.bind _ (mkdir_held (r := r) (q := [r.usr, TMP]) (by simp) fun fs hs => ?_) fun rt => ?_
  · rw [cStr_dirText (plain_snoc husr plain_TMP), locate_dirText env fs _ _ husr plain_TMP]
    have hloc := locate_clear env husr plain_TMP (hclear hs own_prefix_part)
    rwa [List.append_assoc] at hloc
  refine Prog.Triple.ite (fun _ => Prog.Triple.pure fun _ h => h) fun _ => ?_
  refine Prog.Triple.bind _ (mkdir_held (r := r) (q := [r.usr, TMP, r.fileSign]) (by simp) fun fs hs => ?_)
    fun rt => Prog.Triple.pure fun _ h => h
  rw [cStr_dirText hsign, locate_dirText env fs _ _ (plain_tmp fl hu) hsg]
  have hloc := locate_clear env (plain_tmp fl hu) hsg
    (hclear hs ⟨[r.fileSign, toString r.partIndex.toNat], by simp [partPath]⟩)
  rwa [List.append_assoc] at hloc

theorem Do_held : Prog.Triple (faulty anyFails env tid) (Held fl fs0) (Do fl r response) (fun _ => Held fl fs0) := by
  have husr := plain_snoc fl.usr_plain hu
  unfold Do speedUpload uploadPart existDir
  rw [usrFiles_text]
  refine Prog.Triple.bind _ (mkdir_held (r := r) (q := [r.usr, FILES]) (by simp) fun fs hs => ?_) fun rt => ?_
  · rw [cStr_name husr plain_FILES]
    have hloc := locate_clear env husr plain_FILES fun q hq => hs.noLinks_files r.usr q (hq.trans ⟨[FILES], by simp⟩)
    rwa [List.append_assoc] at hloc
  refine Prog.Triple.ite (fun _ => Prog.Triple.pure fun _ h => h) fun _ => ?_
  refine Prog.Triple.bind _ (read_keeps held_of_fs (fun _ => rfl) fun _ _ => rfl) fun stored => ?_
  apply Prog.Triple.ite
  · intro _
    refine Prog.Triple.bind _ (linkToUsr_held hu hsg _ _) fun rt => ?_
    exact Prog.Triple.ite (fun _ => Prog.Triple.pure fun _ h => h) fun _ => Prog.Triple.pure fun _ h => h
  · intro _
    refine Prog.Triple.bind _ (makeTmpDirs_held hu hsg) fun made => ?_
    exact Prog.Triple.ite (fun _ => storePart_held hu hsg response) fun _ => Prog.Triple.pure fun _ h => h

end

/-! ## Uploads one after another -/

/-- A request, and what goes wrong while it is handled. -/
structure Attempt where
  request : NetDiskRequest
  faults : Nat → Option Fault

section
variable (env : Env) (fl : Flags)

def attempt (w : World) (a : Attempt) : World :=
  ((Do fl a.request .empty).run (faulty anyFails env 0) ⟨w, a.faults⟩).2.world

def attempts (w : World) (as : List Attempt) : World := as.foldl (attempt env fl) w

variable {env fl} {w : World} {as : List Attempt}

theorem attempt_held {fs0 : FS} {a : Attempt} (ha : PlainNames a.request) (h : Stocked fl w.fs ∧ Lasting fl fs0 w.fs) :
    Stocked fl (attempt env fl w a).fs ∧ Lasting fl fs0 (attempt env fl w a).fs :=
  Do_held ha.1 ha.2 .empty ⟨w, a.faults⟩ h

variable (env) in
theorem attempts_held {fs0 : FS} (hnames : ∀ a ∈ as, PlainNames a.request) (h : Stocked fl w.fs ∧ Lasting fl fs0 w.fs) :
    ∀ done, done <+: as → Stocked fl (attempts env fl w done).fs ∧ Lasting fl fs0 (attempts env fl w done).fs := by
  refine Prog.foldl_invariant (fun _ (w : World) => Stocked fl w.fs ∧ Lasting fl fs0 w.fs) h ?_
  intro done a hpre h
  exact attempt_held (hnames a (hpre.subset (by simp))) h

theorem EmptyDirs.stocked {fs : FS} (h : EmptyDirs fl fs) : Stocked fl fs :=
  ⟨h.shape, fun _ hsome => absurd (h.files_none (by simp)) hsome⟩

/-- Whatever fails, what is stored and what is linked after some of the uploads is so after all later ones. -/
theorem stored_lasts (hstart : EmptyDirs fl w.fs) (hnames : ∀ a ∈ as, PlainNames a.request) (done later : List Attempt)
    (hpre : done ++ later <+: as) :
    Lasting fl (attempts env fl w done).fs (attempts env fl w (done ++ later)).fs := by
  have hdone := attempts_held env hnames ⟨hstart.stocked, .refl fl w.fs⟩ done
    ((List.prefix_append done later).trans hpre)
  have hlater : ∀ a ∈ later, PlainNames a.request := fun a ha => hnames a (hpre.subset (List.mem_append_right _ ha))
  unfold attempts at hdone ⊢
  rw [List.foldl_append]
  exact (attempts_held env hlater ⟨hdone.1, .refl fl _⟩ later List.prefix_rfl).2

end

/-! ### A file that is not found -/

namespace NotFound

open TwoParts (request)

def fault : Fault := ⟨.eio, eio_ne_eexist, 0, none, false⟩

/-- Both parts come, and then the first one again when `opendir` fails. -/
def uploads : List Attempt := [⟨request "alice" 0 "a", fun _ => none⟩, ⟨request "alice" 1 "b", fun _ => none⟩]

def again : List Attempt := [⟨request "bob" 0 "x", fun k => if k = 1 then some fault else none⟩]

end NotFound

theorem stored_lasts_again :
    (attempts .bare .short TwoParts.world NotFound.uploads).fs.node (Flags.short.filesRoot ++ [TwoParts.sign]) ≠ none ∧
    Lasting .short (attempts .bare .short TwoParts.world NotFound.uploads).fs
      (attempts .bare .short TwoParts.world (NotFound.uploads ++ NotFound.again)).fs := by
  refine ⟨by decide +kernel, stored_lasts (EmptyDirs.start _ _) ?_ _ _ List.prefix_rfl⟩
  intro a ha
  simp only [NotFound.uploads, NotFound.again, List.cons_append, List.nil_append, List.mem_cons, List.not_mem_nil,
    or_false] at ha
  rcases ha with rfl | rfl | rfl <;> exact ⟨by decide +kernel, by decide +kernel⟩

end NetDisk
