import NetDisk.Stable

/-!
# What one operation can do to the files

Calls to both services run at once, and any of their operations can fail. What is on the disk, and what is
open, changes in a few ways only.
-/

namespace NetDisk.Services

open Machine UploadRpc

/-- An upload, or the registration of a name. -/
inductive Actor where
  | upload (r : NetDiskRequest)
  | register (usr : Name)

structure Files where
  fs : FS
  fds : Nat → Option OpenFile
  nextFd : Nat

def filesOf (w : World) : Files := ⟨w.fs, w.fds, w.nextFd⟩

section
variable (fl : Flags)

/-- Where the part of a request is once it is stored. -/
def storedPath (r : NetDiskRequest) : Path := fl.filesRoot ++ [r.fileSign, toString r.partIndex.toNat]

/-- The descriptor has been given out. As long as it is open, it is the part's file, wherever that is by now. -/
structure Opened (r : NetDiskRequest) (fd : Nat) (x : Files) : Prop where
  given : fd < x.nextFd
  place : ∀ f p, x.fds fd = some f → f.path = some p → p = partPath fl r ∨ p = storedPath fl r

/-- A new descriptor for the file at a path. -/
def Files.openAt (x : Files) (fs : FS) (p : Path) : Files :=
  ⟨fs, Function.update x.fds x.nextFd (some ⟨some p, 0⟩), x.nextFd + 1⟩

def Files.write (x : Files) (fd : Nat) (f : OpenFile) (buf : Bytes) : Files :=
  ⟨writeFile x.fs f buf, Function.update x.fds fd (some { f with offset := f.offset + buf.length }), x.nextFd⟩

def Files.erase (x : Files) (p : Path) (h : x.fs.CanErase p) : Files :=
  ⟨x.fs.erase p h, fun k => (x.fds k).map fun f => if f.path = some p then { f with path := none } else f, x.nextFd⟩

def Files.move (x : Files) (src dst : Path) (h : x.fs.CanMove src dst) : Files :=
  ⟨x.fs.move src dst h, moveFds src dst x.fds, x.nextFd⟩

/-- One operation. A name has a directory only if it has a `row`; `works` says that a file is linked only where it is
stored. -/
inductive Effect (row : Name → Prop) (works : Prop) (x : Files) : Actor → Files → Prop
  | keep {a : Actor} : Effect row works x a x
  | user {usr : Name} (hrow : row usr) (h : x.fs.CanPut (fl.usrRoot ++ [usr]))
      (hnone : x.fs.node (fl.usrRoot ++ [usr]) = none) :
      Effect row works x (.register usr) { x with fs := x.fs.put _ .dir h }
  | dir {r : NetDiskRequest} {q : Path} (hq : q ∈ [[r.usr, FILES], [r.usr, TMP], [r.usr, TMP, r.fileSign]])
      (h : x.fs.CanPut (fl.usrRoot ++ q)) (hnone : x.fs.node (fl.usrRoot ++ q) = none) :
      Effect row works x (.upload r) { x with fs := x.fs.put _ .dir h }
  | create {r : NetDiskRequest} (h : x.fs.CanPut (partPath fl r)) (hnone : x.fs.node (partPath fl r) = none) :
      Effect row works x (.upload r) (x.openAt (x.fs.put _ (.file []) h) (partPath fl r))
  | opened {r : NetDiskRequest} {c : Bytes} (h : x.fs.node (partPath fl r) = some (.file c)) :
      Effect row works x (.upload r) (x.openAt x.fs (partPath fl r))
  | write {r : NetDiskRequest} {fd : Nat} {f : OpenFile} {buf : Bytes} (hf : x.fds fd = some f) (hopen : Opened fl r fd x)
      (hbuf : ∀ b ∈ buf, b ∈ r.body) : Effect row works x (.upload r) (x.write fd f buf)
  | close {a : Actor} (fd : Nat) : Effect row works x a { x with fds := Function.update x.fds fd none }
  | gone {r : NetDiskRequest} (h : x.fs.CanErase (partPath fl r)) : Effect row works x (.upload r) (x.erase _ h)
  | link {r : NetDiskRequest} (h : x.fs.CanPut (fl.usrRoot ++ [r.usr, FILES, r.fileSign]))
      (hnone : x.fs.node (fl.usrRoot ++ [r.usr, FILES, r.fileSign]) = none)
      (hstored : works → x.fs.node (fl.filesRoot ++ [r.fileSign]) = some .dir) :
      Effect row works x (.upload r) { x with fs := x.fs.put _ (.link (fl.filesDir ++ r.fileSign)) h }
  | move {r : NetDiskRequest} (hdir : x.fs.node (fl.usrRoot ++ [r.usr, TMP, r.fileSign]) = some .dir)
      (h : x.fs.CanMove (fl.usrRoot ++ [r.usr, TMP, r.fileSign]) (fl.filesRoot ++ [r.fileSign])) :
      Effect row works x (.upload r) (x.move _ _ h)

/-! ## Where a part is -/

/-- The paths of parts, with a user or in the store. -/
inductive PartAt : Path → Prop
  | tmp (u s i : Name) : PartAt (fl.usrRoot ++ [u, TMP, s, i])
  | stored (s i : Name) : PartAt (fl.filesRoot ++ [s, i])

/-- The bytes of a part are from the requests that were sent for it. -/
structure Sound (sent : NetDiskRequest → Prop) (x : Files) : Prop where
  shape : Shape fl x.fs
  open_path : ∀ fd f p, x.fds fd = some f → f.path = some p → PartAt fl p
  open_file : ∀ fd f p, x.fds fd = some f → f.path = some p → ∃ c, x.fs.node p = some (.file c) ∧ f.offset ≤ c.length
  tmp : ∀ u s (i : Nat) c, x.fs.node (fl.usrRoot ++ [u, TMP, s, toString i]) = some (.file c) → ∀ b ∈ c,
    ∃ r, sent r ∧ r.usr = u ∧ r.fileSign = s ∧ r.partIndex.toNat = i ∧ b ∈ r.body
  stored : ∀ s (i : Nat) c, x.fs.node (fl.filesRoot ++ [s, toString i]) = some (.file c) → ∀ b ∈ c,
    ∃ r, sent r ∧ r.fileSign = s ∧ r.partIndex.toNat = i ∧ b ∈ r.body

def Actor.Sent (sent : NetDiskRequest → Prop) : Actor → Prop
  | .upload r => sent r
  | .register _ => True

end

section
variable {fl : Flags} {row : Name → Prop} {works : Prop} {sent : NetDiskRequest → Prop} {x y : Files} {a : Actor}

theorem length_overwrite (old buf : Bytes) (offset : Nat) : old.length ≤ (overwrite old offset buf).length ∧
    offset + buf.length ≤ (overwrite old offset buf).length := by
  simp only [overwrite, List.length_append, List.length_take, List.length_replicate, List.length_drop]
  omega

theorem mem_overwrite {old buf : Bytes} {offset : Nat} (h : offset ≤ old.length) {b : Byte}
    (hb : b ∈ overwrite old offset buf) : b ∈ old ∨ b ∈ buf := by
  unfold overwrite at hb
  rw [Nat.sub_eq_zero_of_le h] at hb
  simp only [List.replicate_zero, List.append_nil, List.mem_append] at hb
  rcases hb with (hb | hb) | hb
  · exact Or.inl (List.mem_of_mem_take hb)
  · exact Or.inr hb
  · exact Or.inl (List.mem_of_mem_drop hb)

theorem shape_put_part {fs : FS} (hs : Shape fl fs) {p : Path} {old : Bytes} (c : Bytes)
    (hold : fs.node p = some (.file old)) (h : fs.CanPut p) {r : NetDiskRequest}
    (hp : p = partPath fl r ∨ p = storedPath fl r) : Shape fl (fs.put p (.file c) h) := by
  refine ⟨?_, ?_, fun q n hn => ?_, fun q n hn => ?_⟩
  · rw [FileTree.node_put, if_neg]
    · exact hs.usr_root
    · intro he
      rw [← he, hs.usr_root] at hold
      cases hold
  · rw [FileTree.node_put, if_neg]
    · exact hs.files_root
    · intro he
      rw [← he, hs.files_root] at hold
      cases hold
  · rw [FileTree.node_put] at hn
    split at hn
    · rename_i he
      obtain rfl := Option.some.inj hn
      rcases hp with hp | hp
      · rw [hp, partPath, List.append_cancel_left_eq] at he
        rw [he]
        exact fun _ => ⟨c, _, rfl, rfl⟩
      · exact absurd (he.trans hp) (fl.usr_ne_files _ _)
    · exact hs.usr_entry q n hn
  · rw [FileTree.node_put] at hn
    split at hn
    · rename_i he
      obtain rfl := Option.some.inj hn
      rcases hp with hp | hp
      · exact absurd (he.trans hp) (fl.files_ne_usr _ _)
      · rw [hp, storedPath, List.append_cancel_left_eq] at he
        rw [he]
        exact ⟨c, _, rfl, rfl⟩
    · exact hs.store_entry q n hn

/-! ## One way after another -/

namespace Sound

theorem put_usr (hs : Sound fl sent x) {q : Path} {n : Node Bytes Bytes} (h : x.fs.CanPut (fl.usrRoot ++ q))
    (hn : usrEntry fl q n) (hnone : x.fs.node (fl.usrRoot ++ q) = none) (hempty : ∀ c, n = .file c → c = []) :
    Sound fl sent { x with fs := x.fs.put _ n h } := by
  have hnode : ∀ p c, (x.fs.put (fl.usrRoot ++ q) n h).node p = some (.file c) →
      x.fs.node p = some (.file c) ∨ c = [] := by
    intro p c hp
    rw [FileTree.node_put] at hp
    split at hp
    · exact Or.inr (hempty c (Option.some.inj hp))
    · exact Or.inl hp
  refine ⟨hs.shape.put_usr h hn, hs.open_path, fun fd f p hf hp => ?_, fun u s i c hc b hb => ?_, fun s i c hc b hb => ?_⟩
  · obtain ⟨c, hc, hle⟩ := hs.open_file fd f p hf hp
    refine ⟨c, ?_, hle⟩
    rw [FileTree.node_put, if_neg, hc]
    rintro rfl
    rw [hnone] at hc
    cases hc
  · rcases hnode _ c hc with hold | rfl
    · exact hs.tmp u s i c hold b hb
    · cases hb
  · rcases hnode _ c hc with hold | rfl
    · exact hs.stored s i c hold b hb
    · cases hb

theorem openAt (hs : Sound fl sent x) {p : Path} {c : Bytes} (hpart : PartAt fl p) (hc : x.fs.node p = some (.file c)) :
    Sound fl sent (x.openAt x.fs p) := by
  refine ⟨hs.shape, fun fd f p' hf hp => ?_, fun fd f p' hf hp => ?_, hs.tmp, hs.stored⟩
  · simp only [Files.openAt, Function.update_apply] at hf
    split at hf
    · cases hf
      cases hp
      exact hpart
    · exact hs.open_path fd f p' hf hp
  · simp only [Files.openAt, Function.update_apply] at hf
    split at hf
    · cases hf
      cases hp
      exact ⟨c, hc, Nat.zero_le _⟩
    · exact hs.open_file fd f p' hf hp

theorem put_file (hs : Sound fl sent x) {p : Path} {old c : Bytes} (hold : x.fs.node p = some (.file old))
    (hlen : old.length ≤ c.length) (h : x.fs.CanPut p) {r : NetDiskRequest} (hr : sent r)
    (hp : p = partPath fl r ∨ p = storedPath fl r) (hc : ∀ b ∈ c, b ∈ old ∨ b ∈ r.body) :
    Sound fl sent { x with fs := x.fs.put p (.file c) h } := by
  refine ⟨shape_put_part hs.shape c hold h hp, hs.open_path, fun fd f p' hf hp' => ?_,
    fun u s i c' hc' b hb => ?_, fun s i c' hc' b hb => ?_⟩
  · obtain ⟨c', hc', hle⟩ := hs.open_file fd f p' hf hp'
    by_cases he : p' = p
    · subst he
      obtain rfl : old = c' := by simpa using hold.symm.trans hc'
      exact ⟨c, if_pos rfl, Nat.le_trans hle hlen⟩
    · exact ⟨c', (if_neg he).trans hc', hle⟩
  · rw [FileTree.node_put] at hc'
    split at hc'
    · rename_i he
      obtain rfl : c = c' := by simpa using hc'
      rcases hc b hb with hb | hb
      · exact hs.tmp u s i old (he ▸ hold) b hb
      · rcases hp with hp | hp
        · rw [hp, partPath, List.append_cancel_left_eq] at he
          simp only [List.cons.injEq, true_and, and_true] at he
          exact ⟨r, hr, he.1.symm, he.2.1.symm, (toString_injective he.2.2).symm, hb⟩
        · exact absurd (he.trans hp) (fl.usr_ne_files _ _)
    · exact hs.tmp u s i c' hc' b hb
  · rw [FileTree.node_put] at hc'
    split at hc'
    · rename_i he
      obtain rfl : c = c' := by simpa using hc'
      rcases hc b hb with hb | hb
      · exact hs.stored s i old (he ▸ hold) b hb
      · rcases hp with hp | hp
        · exact absurd (he.trans hp) (fl.files_ne_usr _ _)
        · rw [hp, storedPath, List.append_cancel_left_eq] at he
          simp only [List.cons.injEq, and_true] at he
          exact ⟨r, hr, he.1.symm, (toString_injective he.2).symm, hb⟩
    · exact hs.stored s i c' hc' b hb

theorem write (hs : Sound fl sent x) {r : NetDiskRequest} (hr : sent r) {fd : Nat} {f : OpenFile} {buf : Bytes}
    (hf : x.fds fd = some f) (hopen : Opened fl r fd x) (hbuf : ∀ b ∈ buf, b ∈ r.body) :
    Sound fl sent (x.write fd f buf) := by
  -- What was open stays so, and only this descriptor goes on.
  have hfds : ∀ {fs : FS}, Sound fl sent { x with fs := fs } →
      (∀ p, f.path = some p → ∃ c, fs.node p = some (.file c) ∧ f.offset + buf.length ≤ c.length) →
      Sound fl sent ⟨fs, Function.update x.fds fd (some { f with offset := f.offset + buf.length }), x.nextFd⟩ := by
    intro fs hs' hwritten
    refine ⟨hs'.shape, fun k g p hg hp => ?_, fun k g p hg hp => ?_, hs'.tmp, hs'.stored⟩
    · simp only [Function.update_apply] at hg
      split at hg
      · cases hg
        exact hs.open_path fd f p hf hp
      · exact hs.open_path k g p hg hp
    · simp only [Function.update_apply] at hg
      split at hg
      · cases hg
        exact hwritten p hp
      · exact hs'.open_file k g p hg hp
  obtain ⟨path, offset⟩ := f
  cases path with
  | none => exact hfds hs fun p hp => by cases hp
  | some p =>
    unfold Files.write writeFile
    obtain ⟨old, hold, hle⟩ := hs.open_file fd _ p hf rfl
    have hcan : x.fs.CanPut p := by
      refine ⟨?_, ?_, by simp [hold]⟩
      · rintro rfl
        rw [x.fs.root_dir] at hold
        cases hold
      · obtain ⟨q, n, rfl⟩ : ∃ q n, p = q ++ [n] := by
          rcases List.eq_nil_or_concat p with rfl | ⟨q, n, rfl⟩
          · rw [x.fs.root_dir] at hold
            cases hold
          · exact ⟨q, n, List.concat_eq_append⟩
        rw [List.dropLast_concat]
        exact x.fs.parent_dir q n (by simp [hold])
    obtain ⟨hlen, hlen'⟩ := length_overwrite old buf offset
    simp only [hold, dif_pos hcan]
    refine hfds (hs.put_file hold hlen hcan hr (hopen.place _ p hf rfl) ?_) fun p' hp' => ?_
    · intro b hb
      exact (mem_overwrite hle hb).imp_right (hbuf b)
    · obtain rfl := Option.some.inj hp'
      exact ⟨_, if_pos rfl, hlen'⟩

theorem close (hs : Sound fl sent x) (fd : Nat) : Sound fl sent { x with fds := Function.update x.fds fd none } := by
  have hold : ∀ k f, Function.update x.fds fd none k = some f → x.fds k = some f := by
    intro k f hf
    rw [Function.update_apply] at hf
    split at hf
    · cases hf
    · exact hf
  exact ⟨hs.shape, fun k f p hf => hs.open_path k f p (hold k f hf), fun k f p hf => hs.open_file k f p (hold k f hf),
    hs.tmp, hs.stored⟩

theorem erase (hs : Sound fl sent x) {r : NetDiskRequest} (h : x.fs.CanErase (partPath fl r)) :
    Sound fl sent (x.erase _ h) := by
  have hnode : ∀ p c, (x.fs.erase (partPath fl r) h).node p = some (.file c) → x.fs.node p = some (.file c) := by
    intro p c hp
    rw [FileTree.node_erase] at hp
    split at hp
    · cases hp
    · exact hp
  have hold : ∀ k f p, (x.erase _ h).fds k = some f → f.path = some p →
      x.fds k = some f ∧ p ≠ partPath fl r := by
    intro k f p hf hp
    obtain ⟨g, hg, hgf⟩ := Option.map_eq_some_iff.mp hf
    split at hgf
    · rw [← hgf] at hp
      cases hp
    · rename_i hne
      subst hgf
      exact ⟨hg, fun he => hne (hp.trans (congrArg some he))⟩
  refine ⟨hs.shape.erase_usr (by simp) h, fun k f p hf hp => ?_, fun k f p hf hp => ?_, fun u s i c hc => ?_,
    fun s i c hc => ?_⟩
  · exact hs.open_path k f p (hold k f p hf hp).1 hp
  · obtain ⟨hf', hne⟩ := hold k f p hf hp
    obtain ⟨c, hc, hle⟩ := hs.open_file k f p hf' hp
    exact ⟨c, (if_neg hne).trans hc, hle⟩
  · exact hs.tmp u s i c (hnode _ c hc)
  · exact hs.stored s i c (hnode _ c hc)

theorem move (hs : Sound fl sent x) {u s : Name} (hdir : x.fs.node (fl.usrRoot ++ [u, TMP, s]) = some .dir)
    (h : x.fs.CanMove (fl.usrRoot ++ [u, TMP, s]) (fl.filesRoot ++ [s])) : Sound fl sent (x.move _ _ h) := by
  have hold : ∀ k f p, (x.move _ _ h).fds k = some f → f.path = some p → ∃ g q, x.fds k = some g ∧ g.path = some q ∧
      p = FileTree.reroot (fl.usrRoot ++ [u, TMP, s]) (fl.filesRoot ++ [s]) q ∧ f.offset = g.offset := by
    intro k f p hf hp
    obtain ⟨g, hg, rfl⟩ := Option.map_eq_some_iff.mp hf
    obtain ⟨q, hq, rfl⟩ := Option.map_eq_some_iff.mp hp
    exact ⟨g, q, hg, hq, rfl, rfl⟩
  refine ⟨hs.shape.move hdir h, fun k f p hf hp => ?_, fun k f p hf hp => ?_, fun u' s' i c hc b hb => ?_,
    fun s' i c hc b hb => ?_⟩
  · obtain ⟨g, q, hg, hq, rfl, -⟩ := hold k f p hf hp
    cases hs.open_path k g q hg hq with
    | tmp u' s' i =>
      unfold FileTree.reroot
      split
      · rename_i hpre
        rw [List.prefix_append_right_inj] at hpre
        simp only [List.cons_prefix_cons, List.nil_prefix, and_true, true_and] at hpre
        obtain ⟨rfl, rfl⟩ := hpre
        rw [show fl.usrRoot ++ [u, TMP, s, i] = (fl.usrRoot ++ [u, TMP, s]) ++ [i] by simp, List.drop_left, List.append_assoc]
        exact .stored s i
      · exact .tmp u' s' i
    | stored s' i =>
      rw [FileTree.reroot, if_neg (fl.not_usr_prefix_files _ _)]
      exact .stored s' i
  · obtain ⟨g, q, hg, hq, rfl, hoff⟩ := hold k f p hf hp
    obtain ⟨c, hc, hle⟩ := hs.open_file k g q hg hq
    refine ⟨c, ?_, hoff ▸ hle⟩
    unfold FileTree.reroot
    split
    · rename_i hpre
      obtain ⟨rest, rfl⟩ := hpre
      rw [List.drop_left]
      exact (FileTree.node_move_under _ _ _ h rest).trans hc
    · rename_i hpre
      change (x.fs.move _ _ h).node q = _
      rw [FileTree.node_move, if_neg, if_neg hpre, hc]
      -- A file where the parts go would be in the way.
      intro hdst
      have he := h.2.2.2.2 q ((x.fs.mem_paths q).mpr (by simp [hc])) hdst
      have hstore := hs.shape.store_entry [s] (.file c) (he ▸ hc)
      cases hstore
  · change (x.fs.move _ _ h).node _ = _ at hc
    rw [Shape.move_node_usr] at hc
    split at hc
    · cases hc
    · exact hs.tmp u' s' i c hc b hb
  · change (x.fs.move _ _ h).node _ = _ at hc
    rw [Shape.move_node_store] at hc
    split at hc
    · rename_i hpre
      simp only [List.cons_prefix_cons, List.nil_prefix, and_true] at hpre
      subst hpre
      obtain ⟨r, hr, -, hrest⟩ := hs.tmp u s i c hc b hb
      exact ⟨r, hr, hrest⟩
    · exact hs.stored s' i c hc b hb

end Sound

theorem Effect.sound (hs : Sound fl sent x) (ha : a.Sent sent) (h : Effect fl row works x a y) : Sound fl sent y := by
  cases h with
  | keep => exact hs
  | user hrow h hnone => exact hs.put_usr h rfl hnone fun c hc => by cases hc
  | @dir r q hq h hnone =>
    refine hs.put_usr h ?_ hnone fun c hc => by cases hc
    rcases List.mem_cons.mp hq with rfl | hq
    · exact fun _ => rfl
    rcases List.mem_cons.mp hq with rfl | hq
    · exact fun _ => rfl
    · rw [List.mem_singleton.mp hq]
      exact ⟨fun h => absurd h FILES_ne_TMP.symm, fun _ => rfl⟩
  | @create r h hnone =>
    have hput := hs.put_usr h (fun _ => ⟨[], _, rfl, rfl⟩) hnone fun c hc => (Node.file.inj hc).symm
    exact hput.openAt (.tmp _ _ _) (if_pos rfl)
  | @opened r c h => exact hs.openAt (.tmp _ _ _) h
  | write hf hopen hbuf => exact hs.write ha hf hopen hbuf
  | close fd => exact hs.close fd
  | gone h => exact hs.erase h
  | link h hnone hstored => exact hs.put_usr h ⟨fun _ => rfl, fun h => absurd h FILES_ne_TMP⟩ hnone fun c hc => by cases hc
  | move hdir h => exact hs.move hdir h

/-! ## What becomes of an entry -/

theorem node_writeFile (fs : FS) (f : OpenFile) (buf : Bytes) (p : Path) : (writeFile fs f buf).node p = fs.node p ∨
    ∃ c c', fs.node p = some (.file c) ∧ (writeFile fs f buf).node p = some (.file c') := by
  unfold writeFile
  cases f.path with
  | none => exact Or.inl rfl
  | some q =>
    dsimp only
    cases hnode : fs.node q with
    | none => exact Or.inl rfl
    | some n =>
      cases n with
      | dir => exact Or.inl rfl
      | link target => exact Or.inl rfl
      | file old =>
        dsimp only
        split
        · rw [FileTree.node_put]
          split
          · rename_i hp
            exact Or.inr ⟨old, _, hp ▸ hnode, rfl⟩
          · exact Or.inl rfl
        · exact Or.inl rfl

inductive Fate (fl : Flags) (fs : FS) (p : Path) (n : Node Bytes Bytes) : Prop
  | same (h : fs.node p = some n)
  | written {c c' : Bytes} (hn : n = .file c) (h : fs.node p = some (.file c'))
  | removed (r : NetDiskRequest) (h : p = partPath fl r)
  | moved (u s : Name) (q : Path) (hp : p = fl.usrRoot ++ ([u, TMP, s] ++ q)) (h : fs.node (fl.filesRoot ++ [s]) = some .dir)

theorem Fate.of_put {fs : FS} {p q : Path} {n m : Node Bytes Bytes} (h : fs.CanPut q) (hnone : fs.node q = none)
    (hn : fs.node p = some n) : Fate fl (fs.put q m h) p n := by
  refine .same ((if_neg ?_).trans hn)
  rintro rfl
  rw [hnone] at hn
  cases hn

theorem Effect.fate (hs : Shape fl x.fs) (h : Effect fl row works x a y) {p : Path} {n : Node Bytes Bytes}
    (hn : x.fs.node p = some n) : Fate fl y.fs p n := by
  cases h with
  | keep => exact .same hn
  | user hrow h hnone => exact .of_put h hnone hn
  | dir hq h hnone => exact .of_put h hnone hn
  | create h hnone => exact .of_put h hnone hn
  | opened h => exact .same hn
  | @write r fd f buf hf hopen hbuf =>
    rcases node_writeFile x.fs f buf p with h | ⟨c, c', hc, hc'⟩
    · exact .same (h.trans hn)
    · rw [hn] at hc
      exact .written (Option.some.inj hc) hc'
  | close fd => exact .same hn
  | @gone r h =>
    by_cases hp : p = partPath fl r
    · exact .removed r hp
    · exact .same ((if_neg hp).trans hn)
  | link h hnone hstored => exact .of_put h hnone hn
  | @move r hdir h =>
    have hnew : (x.fs.move _ _ h).node (fl.filesRoot ++ [r.fileSign]) = some .dir := by
      have hunder := FileTree.node_move_under _ _ _ h []
      rw [List.append_nil, List.append_nil] at hunder
      exact hunder.trans hdir
    by_cases hdst : fl.filesRoot ++ [r.fileSign] <+: p
    · -- An entry that was there before is an empty directory.
      obtain rfl := h.2.2.2.2 p ((x.fs.mem_paths p).mpr (by simp [hn])) hdst
      exact .same (hnew.trans (congrArg some (hs.store_entry [r.fileSign] n hn).symm))
    by_cases hsrc : fl.usrRoot ++ [r.usr, TMP, r.fileSign] <+: p
    · obtain ⟨q, rfl⟩ := hsrc
      exact .moved r.usr r.fileSign q (List.append_assoc ..) hnew
    · exact .same (((if_neg hdst).trans (if_neg hsrc)).trans hn)

/-- Users, stored files with their parts, and links stay. -/
structure Stays (fl : Flags) (fs fs' : FS) : Prop where
  user : ∀ u, fs.node (fl.usrRoot ++ [u]) = some .dir → fs'.node (fl.usrRoot ++ [u]) = some .dir
  stored : ∀ s, fs.node (fl.filesRoot ++ [s]) = some .dir → fs'.node (fl.filesRoot ++ [s]) = some .dir
  part : ∀ s i, fs.node (fl.filesRoot ++ [s, i]) ≠ none → fs'.node (fl.filesRoot ++ [s, i]) ≠ none
  linked : ∀ u s target, fs.node (fl.usrRoot ++ [u, FILES, s]) = some (.link target) →
    fs'.node (fl.usrRoot ++ [u, FILES, s]) = some (.link target)

theorem Stays.refl (fl : Flags) (fs : FS) : Stays fl fs fs :=
  ⟨fun _ h => h, fun _ h => h, fun _ _ h => h, fun _ _ _ h => h⟩

theorem Stays.trans {fs fs' fs'' : FS} (h : Stays fl fs fs') (h' : Stays fl fs' fs'') : Stays fl fs fs'' where
  user u hu := h'.user u (h.user u hu)
  stored s hs := h'.stored s (h.stored s hs)
  part s i hi := h'.part s i (h.part s i hi)
  linked u s target hl := h'.linked u s target (h.linked u s target hl)

theorem Effect.stays (hs : Shape fl x.fs) (h : Effect fl row works x a y) : Stays fl x.fs y.fs where
  user u hu := by
    cases h.fate hs hu with
    | same h => exact h
    | written hn h => cases hn
    | removed r hp => simp [partPath] at hp
    | moved u' s q hp h => simp at hp
  stored s hd := by
    cases h.fate hs hd with
    | same h => exact h
    | written hn h => cases hn
    | removed r hp => exact absurd hp (fl.files_ne_usr _ _)
    | moved u' s q hp h => exact absurd hp (fl.files_ne_usr _ _)
  part s i hi := by
    obtain ⟨n, hn⟩ := Option.ne_none_iff_exists'.mp hi
    cases h.fate hs hn with
    | same h => simp [h]
    | written hn h => simp [h]
    | removed r hp => exact absurd hp (fl.files_ne_usr _ _)
    | moved u' s q hp h => exact absurd hp (fl.files_ne_usr _ _)
  linked u s target hl := by
    have hne : ¬ FILES = TMP := FILES_ne_TMP
    cases h.fate hs hl with
    | same h => exact h
    | written hn h => cases hn
    | removed r hp => simp [partPath, hne] at hp
    | moved u' s' q hp h => simp [hne] at hp

/-- The parts are where they are collected, or their file is stored. -/
def Placed (fl : Flags) (r : NetDiskRequest) (x : Files) : Prop :=
  x.fs.node (fl.usrRoot ++ [r.usr, TMP, r.fileSign]) = some .dir ∨ x.fs.node (fl.filesRoot ++ [r.fileSign]) = some .dir

theorem Effect.placed (hs : Shape fl x.fs) (h : Effect fl row works x a y) {r : NetDiskRequest} (hr : Placed fl r x) :
    Placed fl r y := by
  rcases hr with hdir | hstored
  · cases h.fate hs hdir with
    | same h => exact Or.inl h
    | written hn h => cases hn
    | removed r' hp => simp [partPath] at hp
    | moved u s q hp h =>
      simp only [List.cons_append, List.nil_append, List.append_cancel_left_eq, List.cons.injEq] at hp
      exact Or.inr (hp.2.2.1 ▸ h)
  · exact Or.inr ((h.stays hs).stored r.fileSign hstored)

theorem Effect.opens (h : Effect fl row works x a y) {r : NetDiskRequest} {fd : Nat} (hr : Opened fl r fd x) :
    Opened fl r fd y := by
  have hnew : ∀ p fs, Opened fl r fd (x.openAt fs p) := by
    intro p fs
    refine ⟨Nat.lt_succ_of_lt hr.given, fun f q hf hq => ?_⟩
    simp only [Files.openAt, Function.update_apply] at hf
    rw [if_neg (Nat.ne_of_lt hr.given)] at hf
    exact hr.place f q hf hq
  cases h with
  | keep => exact hr
  | user hrow h hnone => exact ⟨hr.given, hr.place⟩
  | dir hq h hnone => exact ⟨hr.given, hr.place⟩
  | create h hnone => exact hnew _ _
  | opened h => exact hnew _ _
  | @write r' fd' f buf hf hopen hbuf =>
    refine ⟨hr.given, fun g q hg hq => ?_⟩
    simp only [Files.write, Function.update_apply] at hg
    split at hg
    · rename_i he
      cases hg
      exact hr.place f q (he ▸ hf) hq
    · exact hr.place g q hg hq
  | close fd' =>
    refine ⟨hr.given, fun g q hg hq => ?_⟩
    simp only [Function.update_apply] at hg
    split at hg
    · cases hg
    · exact hr.place g q hg hq
  | gone h =>
    refine ⟨hr.given, fun g q hg hq => ?_⟩
    obtain ⟨f, hf, hfg⟩ := Option.map_eq_some_iff.mp hg
    split at hfg
    · rw [← hfg] at hq
      cases hq
    · subst hfg
      exact hr.place f q hf hq
  | link h hnone hstored => exact ⟨hr.given, hr.place⟩
  | @move r' hdir h =>
    refine ⟨hr.given, fun g q hg hq => ?_⟩
    obtain ⟨f, hf, rfl⟩ := Option.map_eq_some_iff.mp hg
    obtain ⟨p, hp, rfl⟩ := Option.map_eq_some_iff.mp hq
    unfold FileTree.reroot
    split
    · rename_i hpre
      rcases hr.place f p hf hp with rfl | rfl
      · right
        unfold partPath at hpre ⊢
        rw [List.prefix_append_right_inj] at hpre
        simp only [List.cons_prefix_cons, List.nil_prefix, and_true, true_and] at hpre
        obtain ⟨hu, hsign⟩ := hpre
        rw [hu, hsign, storedPath, show fl.usrRoot ++ [r.usr, TMP, r.fileSign, toString r.partIndex.toNat] =
          (fl.usrRoot ++ [r.usr, TMP, r.fileSign]) ++ [toString r.partIndex.toNat] by simp, List.drop_left, List.append_assoc]
        rfl
      · exact absurd hpre (fl.not_usr_prefix_files _ _)
    · exact hr.place f p hf hp

/-! ## What is new -/

inductive New (fl : Flags) (row : Name → Prop) (works : Prop) (x : Files) : Actor → Path → Prop
  | user {u : Name} (hrow : row u) : New fl row works x (.register u) [u]
  | dir {r : NetDiskRequest} {q : Path} (hq : q ∈ [[r.usr, FILES], [r.usr, TMP], [r.usr, TMP, r.fileSign]]) :
      New fl row works x (.upload r) q
  | part (r : NetDiskRequest) : New fl row works x (.upload r) [r.usr, TMP, r.fileSign, toString r.partIndex.toNat]
  | link {r : NetDiskRequest} (hstored : works → x.fs.node (fl.filesRoot ++ [r.fileSign]) = some .dir) :
      New fl row works x (.upload r) [r.usr, FILES, r.fileSign]

theorem New.of_put {q q' : Path} {n : Node Bytes Bytes} (h : x.fs.CanPut (fl.usrRoot ++ q')) (hnew : New fl row works x a q')
    (hq : (x.fs.put _ n h).node (fl.usrRoot ++ q) ≠ none) : x.fs.node (fl.usrRoot ++ q) ≠ none ∨ New fl row works x a q := by
  rw [FileTree.node_put] at hq
  split at hq
  · rename_i he
    exact Or.inr (List.append_cancel_left he ▸ hnew)
  · exact Or.inl hq

theorem Effect.new (h : Effect fl row works x a y) {q : Path} (hq : y.fs.node (fl.usrRoot ++ q) ≠ none) :
    x.fs.node (fl.usrRoot ++ q) ≠ none ∨ New fl row works x a q := by
  cases h with
  | keep => exact Or.inl hq
  | user hrow h hnone => exact New.of_put h (.user hrow) hq
  | dir hq' h hnone => exact New.of_put h (.dir hq') hq
  | @create r h hnone => exact New.of_put h (.part r) hq
  | opened h => exact Or.inl hq
  | @write r fd f buf hf hopen hbuf =>
    rcases node_writeFile x.fs f buf (fl.usrRoot ++ q) with h | ⟨c, c', hc, -⟩
    · exact Or.inl (h ▸ hq)
    · exact Or.inl (by simp [hc])
  | close fd => exact Or.inl hq
  | gone h =>
    change (x.fs.erase _ h).node _ ≠ none at hq
    rw [FileTree.node_erase] at hq
    split at hq
    · exact absurd rfl hq
    · exact Or.inl hq
  | link h hnone hstored => exact New.of_put h (.link hstored) hq
  | move hdir h =>
    change (x.fs.move _ _ h).node _ ≠ none at hq
    rw [Shape.move_node_usr] at hq
    split at hq
    · exact absurd rfl hq
    · exact Or.inl hq

theorem New.of_user {u : Name} (h : New fl row works x a [u]) : row u := by
  cases h with
  | user hrow => exact hrow
  | dir hq => simp at hq

theorem New.of_link {u s : Name} (h : New fl row works x a [u, FILES, s]) (hworks : works) :
    x.fs.node (fl.filesRoot ++ [s]) = some .dir := by
  have hne : ¬ FILES = TMP := FILES_ne_TMP
  cases h with
  | dir hq => simp [hne] at hq
  | link hstored => exact hstored hworks

end

end NetDisk.Services
