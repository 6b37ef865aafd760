import NetDisk.Clear
import NetDisk.Reference

/-!
# Two files at once

Uploads of different files in either order. Each reads and writes its own zone; the directories that both may make
are made by whichever comes first.
-/

namespace NetDisk

open Machine UploadRpc FileSys Mmysql Server

/-! ## What a request reads and writes -/

section
variable (fl : Flags)

/-- The two directories are there, and only entries of a `files` directory are links. -/
structure Ground (fs : FS) : Prop where
  usr_root : fs.node fl.usrRoot = some .dir
  files_root : fs.node fl.filesRoot = some .dir
  links : ∀ p target, fs.node p = some (.link target) → ∃ u s, p = fl.usrRoot ++ [u, FILES, s]

/-- The parts, the stored file, and the link to it. -/
inductive Zone (r : NetDiskRequest) : Path → Prop
  | part (q : Path) : Zone r (fl.usrRoot ++ ([r.usr, TMP, r.fileSign] ++ q))
  | stored (q : Path) : Zone r (fl.filesRoot ++ ([r.fileSign] ++ q))
  | link : Zone r (fl.usrRoot ++ [r.usr, FILES, r.fileSign])

/-- The directories that it makes for all files of the user. -/
inductive Common (r : NetDiskRequest) : Path → Prop
  | files : Common r (fl.usrRoot ++ [r.usr, FILES])
  | tmp : Common r (fl.usrRoot ++ [r.usr, TMP])

end

/-- The same, or one of them a directory that the other lacks. -/
def OrMade (m n : Option (Node Bytes Bytes)) : Prop :=
  m = n ∨ m = none ∧ n = some .dir ∨ m = some .dir ∧ n = none

def rowsOf (db : DB) (sign : Bytes) : List SignRow := db.signMap.filter (·.sign = sign)

/-- Two states that a request cannot tell apart. -/
structure Alike (fl : Flags) (r : NetDiskRequest) (s s' : FS × DB) : Prop where
  left : Ground fl s.1
  right : Ground fl s'.1
  user : s.1.node (fl.usrRoot ++ [r.usr]) = s'.1.node (fl.usrRoot ++ [r.usr])
  zone : ∀ p, Zone fl r p → s.1.node p = s'.1.node p
  common : ∀ p, Common fl r p → OrMade (s.1.node p) (s'.1.node p)
  rows : rowsOf s.2 r.fileSign = rowsOf s'.2 r.fileSign

/-- What a request leaves as it is. -/
structure Elsewhere (fl : Flags) (r : NetDiskRequest) (s t : FS × DB) : Prop where
  node : ∀ p, ¬ Zone fl r p → t.1.node p = s.1.node p ∨ Common fl r p ∧ s.1.node p = none ∧ t.1.node p = some .dir
  rows : ∀ sign, sign ≠ r.fileSign → rowsOf t.2 sign = rowsOf s.2 sign

/-- From `s` and `s'` to `t` and `t'`, the same is done in both. -/
structure Twin (fl : Flags) (r : NetDiskRequest) (s s' t t' : FS × DB) : Prop where
  alike : Alike fl r t t'
  same : ∀ p, s.1.node p = s'.1.node p → t.1.node p = t'.1.node p
  elsewhere : Elsewhere fl r s t

section
variable {fl : Flags} {r : NetDiskRequest} {s s' t t' u u' : FS × DB}

theorem zone_usr {q : Path} : Zone fl r (fl.usrRoot ++ q) ↔
    [r.usr, TMP, r.fileSign] <+: q ∨ q = [r.usr, FILES, r.fileSign] := by
  constructor
  · intro h
    generalize hp : fl.usrRoot ++ q = p at h
    cases h with
    | part q' => exact Or.inl ⟨q', (List.append_cancel_left hp).symm⟩
    | stored q' => exact absurd hp (fl.usr_ne_files _ _)
    | link => exact Or.inr (List.append_cancel_left hp)
  · rintro (⟨q', rfl⟩ | rfl)
    · exact .part q'
    · exact .link

theorem zone_files {q : Path} : Zone fl r (fl.filesRoot ++ q) ↔ [r.fileSign] <+: q := by
  constructor
  · intro h
    generalize hp : fl.filesRoot ++ q = p at h
    cases h with
    | part q' => exact absurd hp (fl.files_ne_usr _ _)
    | stored q' => exact ⟨q', (List.append_cancel_left hp).symm⟩
    | link => exact absurd hp (fl.files_ne_usr _ _)
  · rintro ⟨q', rfl⟩
    exact .stored q'

theorem not_zone_short {q : Path} (hq : q.length ≤ 2) : ¬ Zone fl r (fl.usrRoot ++ q) := by
  rw [zone_usr]
  rintro (h | rfl)
  · have := h.length_le
    simp only [List.length_cons, List.length_nil] at this
    omega
  · simp at hq

theorem Common.not_zone {r' : NetDiskRequest} {p : Path} (h : Common fl r p) : ¬ Zone fl r' p := by
  cases h with
  | files => exact not_zone_short (by simp)
  | tmp => exact not_zone_short (by simp)

theorem Zone.disjoint {r' : NetDiskRequest} (hne : r.fileSign ≠ r'.fileSign) {p : Path} (h : Zone fl r p) :
    ¬ Zone fl r' p := by
  have hft : ¬ FILES = TMP := FILES_ne_TMP
  cases h with
  | part q =>
    rw [zone_usr]
    rintro (⟨q', hq⟩ | hq)
    · simp only [List.cons_append, List.nil_append, List.cons.injEq] at hq
      exact hne hq.2.2.1.symm
    · simp only [List.cons_append, List.nil_append, List.cons.injEq] at hq
      exact hft hq.2.1.symm
  | stored q =>
    rw [zone_files]
    rintro ⟨q', hq⟩
    simp only [List.cons_append, List.nil_append, List.cons.injEq] at hq
    exact hne hq.1.symm
  | link =>
    rw [zone_usr]
    rintro (⟨q', hq⟩ | hq)
    · simp only [List.cons_append, List.nil_append, List.cons.injEq] at hq
      exact hft hq.2.1.symm
    · simp only [List.cons.injEq, and_true] at hq
      exact hne hq.2.2

/-! ### No links on the way -/

theorem Ground.noLinks {fs : FS} (h : Ground fl fs) {p : Path} (hp : ∀ u sg, ¬ fl.usrRoot ++ [u, FILES, sg] <+: p) :
    NoLinks fs p := by
  intro q hq target hlink
  obtain ⟨u, sg, rfl⟩ := h.links q target hlink
  exact hp u sg hq

theorem Ground.noLinks_files {fs : FS} (h : Ground fl fs) (q : Path) : NoLinks fs (fl.filesRoot ++ q) :=
  h.noLinks fun _ _ => fl.not_usr_prefix_files _ _

theorem Ground.noLinks_short {fs : FS} (h : Ground fl fs) {q : Path} (hq : q.length ≤ 2) :
    NoLinks fs (fl.usrRoot ++ q) := by
  refine h.noLinks fun u sg hp => ?_
  have := ((List.prefix_append_right_inj _).mp hp).length_le
  simp only [List.length_cons, List.length_nil] at this
  omega

theorem Ground.noLinks_tmp {fs : FS} (h : Ground fl fs) (u : Name) (q : Path) :
    NoLinks fs (fl.usrRoot ++ (u :: TMP :: q)) := by
  refine h.noLinks fun u' sg hp => ?_
  have hp' := (List.prefix_append_right_inj _).mp hp
  exact FILES_ne_TMP (List.cons_prefix_cons.mp (List.cons_prefix_cons.mp hp').2).1

/-! ### Steps -/

theorem Elsewhere.refl (s : FS × DB) : Elsewhere fl r s s := ⟨fun _ _ => Or.inl rfl, fun _ _ => rfl⟩

theorem Elsewhere.trans (h : Elsewhere fl r s t) (h' : Elsewhere fl r t u) : Elsewhere fl r s u := by
  refine ⟨fun p hp => ?_, fun sign hne => (h'.rows sign hne).trans (h.rows sign hne)⟩
  rcases h.node p hp, h'.node p hp with ⟨h1 | ⟨hc, hnone, hdir⟩, h2 | ⟨hc', hnone', hdir'⟩⟩
  · exact Or.inl (h2.trans h1)
  · exact Or.inr ⟨hc', h1.symm.trans hnone', hdir'⟩
  · exact Or.inr ⟨hc, hnone, h2.trans hdir⟩
  · rw [hdir] at hnone'
    cases hnone'

theorem Elsewhere.of_some (h : Elsewhere fl r s t) {p : Path} (hp : ¬ Zone fl r p) (hsome : s.1.node p ≠ none) :
    t.1.node p = s.1.node p :=
  (h.node p hp).resolve_right fun hmade => hsome hmade.2.1

theorem Alike.refl (h : Ground fl s.1) : Alike fl r s s := ⟨h, h, rfl, fun _ _ => rfl, fun _ _ => Or.inl rfl, rfl⟩

theorem Twin.refl (h : Alike fl r s s') : Twin fl r s s' s s' := ⟨h, fun _ h => h, .refl s⟩

theorem Twin.trans (h : Twin fl r s s' t t') (h' : Twin fl r t t' u u') : Twin fl r s s' u u' :=
  ⟨h'.alike, fun p hp => h'.same p (h.same p hp), h.elsewhere.trans h'.elsewhere⟩

/-! ### What one operation does in both -/

theorem Twin.set (h : Alike fl r s s') {fs fs' : FS} (hkeep : ∀ p, ¬ Zone fl r p → fs.node p = s.1.node p)
    (hkeep' : ∀ p, ¬ Zone fl r p → fs'.node p = s'.1.node p) (hsame : ∀ p, Zone fl r p → fs.node p = fs'.node p)
    (hlinks : ∀ p target, Zone fl r p → fs.node p = some (.link target) → ∃ u sg, p = fl.usrRoot ++ [u, FILES, sg]) :
    Twin fl r s s' (fs, s.2) (fs', s'.2) := by
  have husr : ¬ Zone fl r (fl.usrRoot ++ []) := not_zone_short (by simp)
  have hfiles : ¬ Zone fl r (fl.filesRoot ++ []) := by
    rw [zone_files]
    simp
  rw [List.append_nil] at husr hfiles
  refine ⟨⟨⟨?_, ?_, ?_⟩, ⟨?_, ?_, ?_⟩, ?_, hsame, ?_, h.rows⟩, ?_, fun p hp => Or.inl (hkeep p hp), fun _ _ => rfl⟩
  · rw [hkeep _ husr, h.left.usr_root]
  · rw [hkeep _ hfiles, h.left.files_root]
  · intro p target hp
    by_cases hz : Zone fl r p
    · exact hlinks p target hz hp
    · exact h.left.links p target (by rw [← hkeep p hz, hp])
  · rw [hkeep' _ husr, h.right.usr_root]
  · rw [hkeep' _ hfiles, h.right.files_root]
  · intro p target hp
    by_cases hz : Zone fl r p
    · exact hlinks p target hz (by rw [hsame p hz]; exact hp)
    · exact h.right.links p target (by rw [← hkeep' p hz]; exact hp)
  · rw [hkeep _ (not_zone_short (by simp)), hkeep' _ (not_zone_short (by simp)), h.user]
  · intro p hp
    rw [hkeep p hp.not_zone, hkeep' p hp.not_zone]
    exact h.common p hp
  · intro p hp
    by_cases hz : Zone fl r p
    · exact hsame p hz
    · rw [hkeep p hz, hkeep' p hz, hp]

theorem Twin.one (h : Alike fl r s s') {p : Path} (hz : Zone fl r p) {n : Option (Node Bytes Bytes)} {fs fs' : FS}
    (hn : ∀ target, n = some (.link target) → ∃ u sg, p = fl.usrRoot ++ [u, FILES, sg])
    (hfs : ∀ q, fs.node q = if q = p then n else s.1.node q)
    (hfs' : ∀ q, fs'.node q = if q = p then n else s'.1.node q) : Twin fl r s s' (fs, s.2) (fs', s'.2) := by
  refine .set h ?_ ?_ ?_ ?_
  · intro q hq
    rw [hfs, if_neg (by rintro rfl; exact hq hz)]
  · intro q hq
    rw [hfs', if_neg (by rintro rfl; exact hq hz)]
  · intro q hq
    rw [hfs, hfs', h.zone q hq]
  · intro q target _ hq
    rw [hfs] at hq
    split at hq
    · rename_i he
      rw [he]
      exact hn target hq
    · exact h.left.links q target hq

theorem Alike.canPut_iff (h : Alike fl r s s') {p : Path} (hz : Zone fl r p)
    (hparent : s.1.node p.dropLast = s'.1.node p.dropLast) : s.1.CanPut p ↔ s'.1.CanPut p := by
  unfold FileTree.CanPut
  rw [hparent, h.zone p hz]

theorem Twin.ensure (h : Alike fl r s s') {p : Path} (hz : Zone fl r p) {m : Node Bytes Bytes}
    (hm : ∀ target, m = .link target → ∃ u sg, p = fl.usrRoot ++ [u, FILES, sg])
    (hparent : s.1.node p.dropLast = s'.1.node p.dropLast) :
    Twin fl r s s' (ensure s.1 p m, s.2) (ensure s'.1 p m, s'.2) := by
  have hcan : s.1.node p = none ∧ s.1.CanPut p ↔ s'.1.node p = none ∧ s'.1.CanPut p := by
    rw [h.canPut_iff hz hparent, h.zone p hz]
  unfold NetDisk.Machine.ensure
  by_cases hnew : s.1.node p = none ∧ s.1.CanPut p
  · rw [dif_pos hnew, dif_pos (hcan.mp hnew)]
    exact .one h hz (fun target ht => hm target (Option.some.inj ht)) (fun q => rfl) fun q => rfl
  · rw [dif_neg hnew, dif_neg (hcan.not.mp hnew)]
    exact .refl h

theorem Twin.writeOver (h : Alike fl r s s') {p : Path} (hz : Zone fl r p) (buf : Bytes)
    (hparent : s.1.node p.dropLast = s'.1.node p.dropLast) :
    Twin fl r s s' (writeOver s.1 p buf, s.2) (writeOver s'.1 p buf, s'.2) := by
  have hbytes : bytesAt s.1 p = bytesAt s'.1 p := by
    unfold bytesAt fileAt
    rw [h.zone p hz]
  unfold NetDisk.writeOver
  by_cases hcan : s.1.CanPut p
  · rw [dif_pos hcan, dif_pos ((h.canPut_iff hz hparent).mp hcan), hbytes]
    exact .one h hz (fun target ht => by cases ht) (fun q => rfl) fun q => rfl
  · rw [dif_neg hcan, dif_neg ((h.canPut_iff hz hparent).not.mp hcan)]
    exact .refl h

theorem Twin.eraseOld (h : Alike fl r s s') {p : Path} (hz : ∀ q, Zone fl r (p ++ q)) :
    (s.1.node p ≠ none ∧ s.1.CanErase p ↔ s'.1.node p ≠ none ∧ s'.1.CanErase p) ∧
      Twin fl r s s' (eraseOld s.1 p, s.2) (eraseOld s'.1 p, s'.2) := by
  have hzone : Zone fl r p := by
    have := hz []
    rwa [List.append_nil] at this
  have hcan : s.1.node p ≠ none ∧ s.1.CanErase p ↔ s'.1.node p ≠ none ∧ s'.1.CanErase p := by
    have hbelow : (∀ q ∈ s.1.paths, p <+: q → q = p) ↔ ∀ q ∈ s'.1.paths, p <+: q → q = p := by
      refine forall_congr' fun q => ?_
      rw [s.1.mem_paths, s'.1.mem_paths]
      constructor
      · rintro hq hnode ⟨rest, rfl⟩
        exact hq (by rwa [h.zone _ (hz rest)]) ⟨rest, rfl⟩
      · rintro hq hnode ⟨rest, rfl⟩
        exact hq (by rwa [← h.zone _ (hz rest)]) ⟨rest, rfl⟩
    unfold FileTree.CanErase
    rw [h.zone p hzone, hbelow]
  refine ⟨hcan, ?_⟩
  unfold NetDisk.eraseOld
  by_cases hold : s.1.node p ≠ none ∧ s.1.CanErase p
  · rw [dif_pos hold, dif_pos (hcan.mp hold)]
    exact .one h hzone (fun target ht => by cases ht) (fun q => rfl) fun q => rfl
  · rw [dif_neg hold, dif_neg (hcan.not.mp hold)]
    exact .refl h

theorem Twin.moveOver (h : Alike fl r s s') : Twin fl r s s'
    (moveOver s.1 (fl.usrRoot ++ [r.usr, TMP, r.fileSign]) (fl.filesRoot ++ [r.fileSign]), s.2)
    (moveOver s'.1 (fl.usrRoot ++ [r.usr, TMP, r.fileSign]) (fl.filesRoot ++ [r.fileSign]), s'.2) := by
  have hsrc : ∀ q, Zone fl r (fl.usrRoot ++ [r.usr, TMP, r.fileSign] ++ q) := by
    intro q
    rw [List.append_assoc]
    exact .part q
  have hdst : ∀ q, Zone fl r (fl.filesRoot ++ [r.fileSign] ++ q) := by
    intro q
    rw [List.append_assoc]
    exact .stored q
  have hsrc0 := h.zone _ (hsrc [])
  have hdst0 := h.zone _ (hdst [])
  rw [List.append_nil] at hsrc0 hdst0
  unfold NetDisk.moveOver
  have hcan : ((s.1.node (fl.usrRoot ++ [r.usr, TMP, r.fileSign]) ≠ none ∧
        mvReplaces s.1 (fl.usrRoot ++ [r.usr, TMP, r.fileSign]) (fl.filesRoot ++ [r.fileSign])) ∧
        s.1.CanMove (fl.usrRoot ++ [r.usr, TMP, r.fileSign]) (fl.filesRoot ++ [r.fileSign])) ↔
      (s'.1.node (fl.usrRoot ++ [r.usr, TMP, r.fileSign]) ≠ none ∧
        mvReplaces s'.1 (fl.usrRoot ++ [r.usr, TMP, r.fileSign]) (fl.filesRoot ++ [r.fileSign])) ∧
        s'.1.CanMove (fl.usrRoot ++ [r.usr, TMP, r.fileSign]) (fl.filesRoot ++ [r.fileSign]) := by
    have hbelow : (∀ q ∈ s.1.paths, fl.filesRoot ++ [r.fileSign] <+: q → q = fl.filesRoot ++ [r.fileSign]) ↔
        ∀ q ∈ s'.1.paths, fl.filesRoot ++ [r.fileSign] <+: q → q = fl.filesRoot ++ [r.fileSign] := by
      refine forall_congr' fun q => ?_
      rw [s.1.mem_paths, s'.1.mem_paths]
      constructor
      · rintro hq hnode ⟨rest, rfl⟩
        exact hq (by rwa [h.zone _ (hdst rest)]) ⟨rest, rfl⟩
      · rintro hq hnode ⟨rest, rfl⟩
        exact hq (by rwa [← h.zone _ (hdst rest)]) ⟨rest, rfl⟩
    unfold mvReplaces FileTree.CanMove
    rw [hsrc0, hdst0, hbelow, List.dropLast_concat, h.left.files_root, h.right.files_root]
  by_cases hmove : (s.1.node (fl.usrRoot ++ [r.usr, TMP, r.fileSign]) ≠ none ∧
      mvReplaces s.1 (fl.usrRoot ++ [r.usr, TMP, r.fileSign]) (fl.filesRoot ++ [r.fileSign])) ∧
      s.1.CanMove (fl.usrRoot ++ [r.usr, TMP, r.fileSign]) (fl.filesRoot ++ [r.fileSign])
  swap
  · rw [dif_neg hmove, dif_neg (hcan.not.mp hmove)]
    exact .refl h
  rw [dif_pos hmove, dif_pos (hcan.mp hmove)]
  have hkeep : ∀ (t : FS) (hc : t.CanMove (fl.usrRoot ++ [r.usr, TMP, r.fileSign]) (fl.filesRoot ++ [r.fileSign])) p,
      ¬ Zone fl r p → (t.move _ _ hc).node p = t.node p := by
    intro t hc p hp
    rw [FileTree.node_move, if_neg, if_neg]
    · rintro ⟨q, rfl⟩
      exact hp (hsrc q)
    · rintro ⟨q, rfl⟩
      exact hp (hdst q)
  refine .set h (hkeep _ _) (hkeep _ _) ?_ ?_
  · intro p hp
    rw [FileTree.node_move, FileTree.node_move, h.zone _ (hsrc _), h.zone p hp]
  · intro p target _ hp
    rw [FileTree.node_move] at hp
    split at hp
    · exact absurd hp (h.left.noLinks_tmp r.usr _ _ (by rw [List.append_assoc]; exact List.prefix_rfl) target)
    · split at hp
      · cases hp
      · exact h.left.links p target hp

/-! ### The common directories -/

theorem OrMade.made {m n : Option (Node Bytes Bytes)} (h : OrMade m n) : m.or (some .dir) = n.or (some .dir) := by
  rcases h with rfl | ⟨rfl, rfl⟩ | ⟨rfl, rfl⟩ <;> rfl

theorem node_ensureDir_or {fs : FS} {p : Path} {n : Name} (hd : fs.node p = some .dir) (q : Path) :
    (ensureDir fs (p ++ [n])).node q = if q = p ++ [n] then (fs.node q).or (some .dir) else fs.node q := by
  rw [node_ensureDir hd]
  by_cases hq : q = p ++ [n]
  · subst hq
    cases fs.node (p ++ [n]) <;> simp
  · simp [hq]

theorem Ground.ensureDir {fs : FS} (h : Ground fl fs) {p : Path} {n : Name} (hd : fs.node p = some .dir) :
    Ground fl (ensureDir fs (p ++ [n])) := by
  refine ⟨?_, ?_, fun q target hq => h.links q target ?_⟩
  · rw [ensureDir_keeps hd (by simp [h.usr_root]), h.usr_root]
  · rw [ensureDir_keeps hd (by simp [h.files_root]), h.files_root]
  · rw [node_ensureDir hd] at hq
    split at hq
    · cases hq
    · exact hq

theorem Twin.made (h : Alike fl r s s') {n : Name} (hc : Common fl r (fl.usrRoot ++ [r.usr] ++ [n])) :
    Twin fl r s s' (ensureDir s.1 (fl.usrRoot ++ [r.usr] ++ [n]), s.2)
        (ensureDir s'.1 (fl.usrRoot ++ [r.usr] ++ [n]), s'.2) ∧
      (ensureDir s.1 (fl.usrRoot ++ [r.usr] ++ [n])).node (fl.usrRoot ++ [r.usr] ++ [n]) =
        (ensureDir s'.1 (fl.usrRoot ++ [r.usr] ++ [n])).node (fl.usrRoot ++ [r.usr] ++ [n]) := by
  by_cases hd : s.1.node (fl.usrRoot ++ [r.usr]) = some .dir
  swap
  · have hd' : s'.1.node (fl.usrRoot ++ [r.usr]) ≠ some .dir := h.user ▸ hd
    rw [ensureDir, ensureDir, ensure_off hd, ensure_off hd']
    refine ⟨.refl h, ?_⟩
    rw [s.1.none_below hd (by simp), s'.1.none_below hd' (by simp)]
  have hd' : s'.1.node (fl.usrRoot ++ [r.usr]) = some .dir := h.user ▸ hd
  have hmade := (h.common _ hc).made
  have hother : ∀ q, q ≠ fl.usrRoot ++ [r.usr] ++ [n] →
      (ensureDir s.1 (fl.usrRoot ++ [r.usr] ++ [n])).node q = s.1.node q ∧
      (ensureDir s'.1 (fl.usrRoot ++ [r.usr] ++ [n])).node q = s'.1.node q := by
    intro q hq
    rw [node_ensureDir_or hd, node_ensureDir_or hd', if_neg hq, if_neg hq]
    exact ⟨rfl, rfl⟩
  have hsame : (ensureDir s.1 (fl.usrRoot ++ [r.usr] ++ [n])).node (fl.usrRoot ++ [r.usr] ++ [n]) =
      (ensureDir s'.1 (fl.usrRoot ++ [r.usr] ++ [n])).node (fl.usrRoot ++ [r.usr] ++ [n]) := by
    rw [node_ensureDir_or hd, node_ensureDir_or hd', if_pos rfl, if_pos rfl, hmade]
  refine ⟨⟨⟨h.left.ensureDir hd, h.right.ensureDir hd', ?_, ?_, ?_, h.rows⟩, ?_, ?_, fun _ _ => rfl⟩, hsame⟩
  · rw [(hother _ (by simp)).1, (hother _ (by simp)).2, h.user]
  · intro p hp
    have hne : p ≠ fl.usrRoot ++ [r.usr] ++ [n] := by
      rintro rfl
      exact hc.not_zone hp
    rw [(hother p hne).1, (hother p hne).2, h.zone p hp]
  · intro p hp
    by_cases hne : p = fl.usrRoot ++ [r.usr] ++ [n]
    · rw [hne]
      exact Or.inl hsame
    · rw [(hother p hne).1, (hother p hne).2]
      exact h.common p hp
  · intro p hp
    by_cases hne : p = fl.usrRoot ++ [r.usr] ++ [n]
    · rw [hne]
      exact hsame
    · rw [(hother p hne).1, (hother p hne).2, hp]
  · intro p _
    by_cases hne : p = fl.usrRoot ++ [r.usr] ++ [n]
    · subst hne
      rw [node_ensureDir_or hd, if_pos rfl]
      cases hnode : s.1.node (fl.usrRoot ++ [r.usr] ++ [n]) with
      | none => exact Or.inr ⟨hc, rfl, rfl⟩
      | some m => exact Or.inl rfl
    · exact Or.inl (hother p hne).1

/-! ### The rows -/

theorem rowsOf_eq_nil {db : DB} {sign : Bytes} : rowsOf db sign = [] ↔ db.refs sign = none := by
  rw [DB.refs_eq_none, rowsOf, List.filter_eq_nil_iff]
  simp

theorem linkQueries_rows (env : Env) (db : DB) {sign fileName name : Bytes} (hs : SqlText.litSafe sign = true)
    (hread : Stmt.read (insertSignCmd sign fileName) = some (.insertSigns [⟨sign, name, 1⟩])) :
    rowsOf (linkQueries env db sign fileName).2 sign =
        (if rowsOf db sign = [] then [⟨sign, name, 1⟩] else (rowsOf db sign).map (SignRow.countUp sign)) ∧
      ∀ sign', sign' ≠ sign → rowsOf (linkQueries env db sign fileName).2 sign' = rowsOf db sign' := by
  rw [linkQueries_eq env db hs]
  by_cases hnone : db.refs sign = none
  · obtain ⟨db', hq, hrows, -⟩ := insertRow_spec env hread hnone
    have hnil := rowsOf_eq_nil.mpr hnone
    rw [if_pos hnone, if_pos hnil, hq]
    unfold rowsOf at hnil ⊢
    rw [hrows]
    refine ⟨by rw [List.filter_append, hnil]; simp, fun sign' hne => ?_⟩
    rw [List.filter_append]
    simp [hne.symm]
  · have hrows : (db.countUp sign).signMap = db.signMap.map (SignRow.countUp sign) := rfl
    have hfilter : ∀ sign', rowsOf (db.countUp sign) sign' = (rowsOf db sign').map (SignRow.countUp sign) := by
      intro sign'
      unfold rowsOf
      rw [hrows, List.filter_map]
      congr 2
      funext row
      simp
    rw [if_neg hnone, if_neg (rowsOf_eq_nil.not.mpr hnone), (updateRow_spec env hs hnone).1]
    refine ⟨hfilter sign, fun sign' hne => (hfilter sign').trans ?_⟩
    refine List.map_congr_left (fun row hrow => ?_) |>.trans (List.map_id _)
    have hsign : row.sign = sign' := of_decide_eq_true (List.mem_filter.mp hrow).2
    unfold SignRow.countUp
    rw [if_neg (by rw [hsign]; exact hne)]
    rfl

theorem Twin.count (env : Env) (h : Alike fl r s s') (hs : SqlText.litSafe r.fileSign = true)
    (hrow : Stmt.OneRow r.fileSign r.fileName) : Twin fl r s s' (s.1, (linkQueries env s.2 r.fileSign r.fileName).2)
      (s'.1, (linkQueries env s'.2 r.fileSign r.fileName).2) := by
  obtain ⟨name, hread⟩ := hrow
  obtain ⟨hrows, hother⟩ := linkQueries_rows env s.2 hs hread
  obtain ⟨hrows', -⟩ := linkQueries_rows env s'.2 hs hread
  refine ⟨⟨h.left, h.right, h.user, h.zone, h.common, ?_⟩, fun _ hp => hp, fun _ _ => Or.inl rfl, hother⟩
  rw [hrows, hrows', h.rows]

end

/-! ## The call from both states -/

/-- From both states the code ends with the same result, in states as `Q` says. -/
def Both (env : Env) (tid : Nat) {α : Type} (c : Code α) (s s' : FS × DB) (Q : α → FS × DB → FS × DB → Prop) : Prop :=
  ∃ a t t', Ends env tid c s.1 s.2 a t.1 t.2 ∧ Ends env tid c s'.1 s'.2 a t'.1 t'.2 ∧ Q a t t'

/-- From both states the code does the same. -/
def Follows (env : Env) (tid : Nat) (fl : Flags) (r : NetDiskRequest) {α : Type} (c : Code α) (s s' : FS × DB) : Prop :=
  Both env tid c s s' fun _ => Twin fl r s s'

section
variable {env : Env} {tid : Nat} {fl : Flags} {r : NetDiskRequest} {s s' t t' : FS × DB} {α β : Type} {c : Code α}
  {f : α → Code β}

theorem Both.bind {Q : α → FS × DB → FS × DB → Prop} {R : β → FS × DB → FS × DB → Prop} (hc : Both env tid c s s' Q)
    (hf : ∀ a t t', Q a t t' → Both env tid (f a) t t' R) : Both env tid (c >>= f) s s' R := by
  obtain ⟨a, t, t', hends, hends', hQ⟩ := hc
  obtain ⟨b, u, u', hends1, hends1', hR⟩ := hf a t t' hQ
  exact ⟨b, u, u', hends.bind hends1, hends'.bind hends1', hR⟩

theorem Both.weaken {Q R : α → FS × DB → FS × DB → Prop} (hc : Both env tid c s s' Q)
    (h : ∀ a t t', Q a t t' → R a t t') : Both env tid c s s' R := by
  obtain ⟨a, t, t', hends, hends', hQ⟩ := hc
  exact ⟨a, t, t', hends, hends', h a t t' hQ⟩

theorem Follows.pure (h : Alike fl r s s') (a : α) : Follows env tid fl r (.pure a) s s' :=
  ⟨a, s, s', Ends.pure a, Ends.pure a, .refl h⟩

theorem Follows.bind (hc : Follows env tid fl r c s s')
    (hf : ∀ a t t', Twin fl r s s' t t' → Follows env tid fl r (f a) t t') : Follows env tid fl r (c >>= f) s s' :=
  Both.bind hc fun a t t' h => (hf a t t' h).weaken fun _ _ _ h' => h.trans h'

theorem Follows.after (h : Twin fl r s s' t t') (hc : Follows env tid fl r c t t') :
    Both env tid c t t' fun _ => Twin fl r s s' := hc.weaken fun _ _ _ h' => h.trans h'

theorem Follows.ite {p : Prop} [Decidable p] {c d : Code α} (hc : p → Follows env tid fl r c s s')
    (hd : ¬ p → Follows env tid fl r d s s') : Follows env tid fl r (if p then c else d) s s' := by
  split
  · rename_i h
    exact hc h
  · rename_i h
    exact hd h

end

section
variable {env : Env} {tid : Nat} {fl : Flags} {r : NetDiskRequest} {s s' : FS × DB} (hu : Plain r.usr) (hsg : Plain r.fileSign)
  (h : Alike fl r s s')
include hu h

theorem mkdirFiles_both : Both env tid (mkdir (fl.usrDir ++ r.usr ++ ascii "/files")) s s' fun rt t t' =>
    (Twin fl r s s' t t' ∧ t.1.node (fl.usrRoot ++ [r.usr, FILES]) = t'.1.node (fl.usrRoot ++ [r.usr, FILES])) ∧
      (rt = 0 → s.1.node (fl.usrRoot ++ [r.usr]) = some .dir) := by
  have hplain := plain_snoc fl.usr_plain hu
  have hends := mkdir_clear env tid s.2 hplain plain_FILES (h.left.noLinks_short (q := [r.usr]) (by simp))
  have hends' := mkdir_clear env tid s'.2 hplain plain_FILES (h.right.noLinks_short (q := [r.usr]) (by simp))
  have hmade := Twin.made h (n := FILES) (by rw [List.append_assoc]; exact .files)
  rw [← h.user] at hends'
  rw [usrFiles_text]
  refine ⟨_, (_, _), (_, _), hends, hends', ⟨hmade.1, ?_⟩, fun hrt => ?_⟩
  · have happ : fl.usrRoot ++ [r.usr, FILES] = fl.usrRoot ++ [r.usr] ++ [FILES] := by simp
    rw [happ]
    exact hmade.2
  · by_contra hd
    rw [if_neg hd] at hrt
    cases hrt

theorem mkdirTmp_both : Both env tid (mkdir (usrUploadDir fl r)) s s' fun _ t t' =>
    Twin fl r s s' t t' ∧ t.1.node (fl.usrRoot ++ [r.usr, TMP]) = t'.1.node (fl.usrRoot ++ [r.usr, TMP]) := by
  have hplain := plain_snoc fl.usr_plain hu
  have hends := mkdir_slash_clear env tid s.2 hplain plain_TMP (h.left.noLinks_short (q := [r.usr]) (by simp))
  have hends' := mkdir_slash_clear env tid s'.2 hplain plain_TMP (h.right.noLinks_short (q := [r.usr]) (by simp))
  have hmade := Twin.made h (n := TMP) (by rw [List.append_assoc]; exact .tmp)
  rw [← h.user] at hends'
  rw [usrUploadDir_text]
  have happ : fl.usrRoot ++ [r.usr, TMP] = fl.usrRoot ++ [r.usr] ++ [TMP] := by simp
  refine ⟨_, (_, _), (_, _), hends, hends', hmade.1, ?_⟩
  rw [happ]
  exact hmade.2

theorem mkdirUsr_follows (huser : s.1.node (fl.usrRoot ++ [r.usr]) = some .dir) :
    Follows env tid fl r (mkdir (fl.usrDir ++ r.usr)) s s' := by
  have hends := mkdir_spec env tid s.2 fl.usr_plain hu h.left.usr_root
  have hends' := mkdir_spec env tid s'.2 fl.usr_plain hu h.right.usr_root
  rw [ensureDir, ensure_old (by simp [huser])] at hends
  rw [ensureDir, ensure_old (by simp [← h.user, huser])] at hends'
  exact ⟨0, s, s', hends, hends', .refl h⟩

include hsg

theorem mkdirSign_follows
    (htmp : s.1.node (fl.usrRoot ++ [r.usr, TMP]) = s'.1.node (fl.usrRoot ++ [r.usr, TMP])) :
    Follows env tid fl r (mkdir (usrUploadDir fl r ++ r.fileSign ++ ascii "/")) s s' := by
  have hends := mkdir_slash_clear env tid s.2 (plain_tmp fl hu) hsg (h.left.noLinks_tmp r.usr [])
  have hends' := mkdir_slash_clear env tid s'.2 (plain_tmp fl hu) hsg (h.right.noLinks_tmp r.usr [])
  rw [← htmp] at hends'
  rw [signDir_slash_text]
  refine ⟨_, (_, _), (_, _), hends, hends', .ensure h ?_ (fun target ht => by cases ht) ?_⟩
  · rw [List.append_assoc]
    exact .part []
  · rwa [List.dropLast_concat]

theorem makeTmpDirs_follows (huser : s.1.node (fl.usrRoot ++ [r.usr]) = some .dir) :
    Follows env tid fl r (makeTmpDirs fl r) s s' := by
  unfold makeTmpDirs
  refine Follows.bind (mkdirUsr_follows hu h huser) fun rt t t' ht => ?_
  refine Follows.ite (fun _ => .pure ht.alike _) fun _ => ?_
  refine Both.bind (mkdirTmp_both hu ht.alike) fun rt t1 t1' ht1 => ?_
  refine Follows.after ht1.1 (Follows.ite (fun _ => .pure ht1.1.alike _) fun _ => ?_)
  exact Follows.bind (mkdirSign_follows hu hsg ht1.1.alike ht1.2) fun rt t2 t2' ht2 => .pure ht2.alike _

/-! ### The part -/

omit hu hsg h in
theorem zone_part (q : Path) : Zone fl r (fl.usrRoot ++ [r.usr, TMP, r.fileSign] ++ [toString r.partIndex.toNat] ++ q) := by
  rw [List.append_assoc, List.append_assoc]
  exact .part _

omit hu hsg in
theorem node_part : s.1.node (fl.usrRoot ++ [r.usr, TMP, r.fileSign] ++ [toString r.partIndex.toNat]) =
    s'.1.node (fl.usrRoot ++ [r.usr, TMP, r.fileSign] ++ [toString r.partIndex.toNat]) := by
  have hzone := h.zone _ (zone_part [])
  rwa [List.append_nil] at hzone

omit hu hsg h in
theorem Ground.noLinks_part {fs : FS} (hg : Ground fl fs) :
    NoLinks fs (fl.usrRoot ++ [r.usr, TMP, r.fileSign] ++ [toString r.partIndex.toNat]) := by
  rw [List.append_assoc]
  exact hg.noLinks_tmp r.usr _

theorem existFile_follows : Follows env tid fl r (existFile (filePath fl r)) s s' := by
  have hends := existFile_clear env tid s.2 (plain_signDir fl hu hsg) (plain_toString _) h.left.noLinks_part
  have hends' := existFile_clear env tid s'.2 (plain_signDir fl hu hsg) (plain_toString _) h.right.noLinks_part
  rw [← node_part h] at hends'
  rw [filePath_text]
  exact ⟨_, s, s', hends, hends', .refl h⟩

theorem md5Sum_follows : Follows env tid fl r (md5Sum (filePath fl r)) s s' := by
  have hends := md5Sum_clear env tid s.2 (plain_signDir fl hu hsg) (plain_toString _) h.left.noLinks_part
  have hends' := md5Sum_clear env tid s'.2 (plain_signDir fl hu hsg) (plain_toString _) h.right.noLinks_part
  unfold bytesAt fileAt at hends hends'
  rw [← node_part h] at hends'
  rw [filePath_text]
  exact ⟨_, s, s', hends, hends', .refl h⟩

theorem deleteFile_follows : Follows env tid fl r (deleteFile (filePath fl r)) s s' := by
  have hl : NoLinks s.1 (fl.usrRoot ++ [r.usr, TMP, r.fileSign]) := h.left.noLinks_tmp r.usr _
  have hl' : NoLinks s'.1 (fl.usrRoot ++ [r.usr, TMP, r.fileSign]) := h.right.noLinks_tmp r.usr _
  have hends := deleteFile_clear env tid s.2 (plain_signDir fl hu hsg) (plain_toString r.partIndex.toNat) hl
  have hends' := deleteFile_clear env tid s'.2 (plain_signDir fl hu hsg) (plain_toString r.partIndex.toNat) hl'
  obtain ⟨hcan, htwin⟩ := Twin.eraseOld h (p := fl.usrRoot ++ [r.usr, TMP, r.fileSign] ++ [toString r.partIndex.toNat])
    zone_part
  rw [← if_congr hcan rfl rfl] at hends'
  rw [filePath_text]
  exact ⟨_, (_, _), (_, _), hends, hends', htwin⟩

theorem write_follows : Follows env tid fl r (FileSys.write r.body (filePath fl r)) s s' := by
  have hends := write_clear env tid s.2 (plain_signDir fl hu hsg) (plain_toString _) h.left.noLinks_part r.body
  have hends' := write_clear env tid s'.2 (plain_signDir fl hu hsg) (plain_toString _) h.right.noLinks_part r.body
  have hzone : Zone fl r (fl.usrRoot ++ [r.usr, TMP, r.fileSign] ++ [toString r.partIndex.toNat]) := by
    have hz : Zone fl r _ := zone_part []
    rwa [List.append_nil] at hz
  have hparent : s.1.node (fl.usrRoot ++ [r.usr, TMP, r.fileSign] ++ [toString r.partIndex.toNat]).dropLast =
      s'.1.node (fl.usrRoot ++ [r.usr, TMP, r.fileSign] ++ [toString r.partIndex.toNat]).dropLast := by
    rw [List.dropLast_concat]
    exact h.zone _ (.part [])
  simp only [← h.canPut_iff hzone hparent] at hends'
  rw [filePath_text]
  exact ⟨_, (_, _), (_, _), hends, hends', .writeOver h hzone _ hparent⟩

/-! ### The stored file -/

omit hu in
theorem existDir_follows : Follows env tid fl r (existDir (fileDir fl r)) s s' := by
  have hends := existDir_clear env tid s.2 fl.files_plain hsg (h.left.noLinks_files [r.fileSign])
  have hends' := existDir_clear env tid s'.2 fl.files_plain hsg (h.right.noLinks_files [r.fileSign])
  have hzone : s.1.node (fl.filesRoot ++ [r.fileSign]) = s'.1.node (fl.filesRoot ++ [r.fileSign]) :=
    h.zone _ (.stored [])
  rw [← hzone] at hends'
  exact ⟨_, s, s', hends, hends', .refl h⟩

theorem allPartArrived_follows :
    Follows env tid fl r (allPartArrived (usrUploadDir fl r ++ r.fileSign) r.shard) s s' := by
  have happ : fl.usrRoot ++ [r.usr, TMP] ++ [r.fileSign] = fl.usrRoot ++ ([r.usr, TMP, r.fileSign] ++ []) := by simp
  have hl : NoLinks s.1 (fl.usrRoot ++ [r.usr, TMP] ++ [r.fileSign]) := happ ▸ h.left.noLinks_tmp r.usr _
  have hl' : NoLinks s'.1 (fl.usrRoot ++ [r.usr, TMP] ++ [r.fileSign]) := happ ▸ h.right.noLinks_tmp r.usr _
  have hends := lsDir_clear env tid s.2 (plain_tmp fl hu) hsg hl
  have hends' := lsDir_clear env tid s'.2 (plain_tmp fl hu) hsg hl'
  have hzone : s.1.node (fl.usrRoot ++ [r.usr, TMP] ++ [r.fileSign]) =
      s'.1.node (fl.usrRoot ++ [r.usr, TMP] ++ [r.fileSign]) := happ ▸ h.zone _ (.part [])
  have hentries : s.1.entries (fl.usrRoot ++ [r.usr, TMP] ++ [r.fileSign]) =
      s'.1.entries (fl.usrRoot ++ [r.usr, TMP] ++ [r.fileSign]) := by
    ext i
    rw [FileTree.mem_entries, FileTree.mem_entries, happ, List.append_assoc, List.append_assoc,
      h.zone _ (.part ([] ++ [i]))]
  rw [← hzone, ← hentries] at hends'
  unfold allPartArrived
  rw [signDir_text]
  refine Follows.bind ⟨_, s, s', hends, hends', .refl h⟩ fun names t t' ht => .pure ht.alike _

theorem mv_follows : Follows env tid fl r (shellOut (mvCmd fl r)) s s' := by
  have hends : ∀ {fs : FS} (db : DB), Ground fl fs → Ends env tid (shellOut (mvCmd fl r)) fs db (some [])
      (moveOver fs (fl.usrRoot ++ [r.usr, TMP, r.fileSign]) (fl.filesRoot ++ [r.fileSign])) db := by
    intro fs db hg
    refine Ends.sys fun w hfs hdb => ?_
    subst hfs
    obtain ⟨hfs, hdb'⟩ := mv_clear env (plain_tmp fl hu) hsg (hg.noLinks_tmp r.usr []) fl.files_plain hg.files_root
    rw [List.append_assoc] at hfs
    rw [(mvCmd_words fl hu hsg).1]
    simp only [exec, Machine.shell, (mvCmd_words fl hu hsg).2, if_true]
    exact ⟨trivial, hfs, hdb'.trans hdb⟩
  exact ⟨_, (_, _), (_, _), hends s.2 h.left, hends s'.2 h.right, .moveOver h⟩

/-! ### The link -/

theorem link_follows
    (hfiles : s.1.node (fl.usrRoot ++ [r.usr, FILES]) = s'.1.node (fl.usrRoot ++ [r.usr, FILES])) :
    Follows env tid fl r (link (fileDir fl r) (linkPath fl r)) s s' := by
  have hends := link_clear env tid s.2 (plain_files fl hu) hsg (h.left.noLinks_short (by simp)) (fileDir_cStr fl hsg)
    (fileDir_ne_nil fl r)
  have hends' := link_clear env tid s'.2 (plain_files fl hu) hsg (h.right.noLinks_short (by simp)) (fileDir_cStr fl hsg)
    (fileDir_ne_nil fl r)
  rw [← hfiles] at hends'
  rw [linkPath_text]
  refine ⟨_, (_, _), (_, _), hends, hends', .ensure h ?_ (fun target _ => ⟨r.usr, r.fileSign, ?_⟩) ?_⟩
  · rw [List.append_assoc]
    exact .link
  · simp
  · rwa [List.dropLast_concat]

variable (hrow : Stmt.OneRow r.fileSign r.fileName)
include hrow

omit hu in
theorem countLink_follows : Follows env tid fl r (countLink r.fileSign r.fileName) s s' := by
  have hends : Ends env tid _ s.1 s.2 _ _ _ := countLink_spec r.fileSign r.fileName
  have hends' : Ends env tid _ s'.1 s'.2 _ _ _ := countLink_spec r.fileSign r.fileName
  rw [(linkQueries_counts hsg.litSafe hrow).1] at hends hends'
  exact ⟨_, (_, _), (_, _), hends, hends', .count env h hsg.litSafe hrow⟩

theorem linkToUsr_follows
    (hfiles : s.1.node (fl.usrRoot ++ [r.usr, FILES]) = s'.1.node (fl.usrRoot ++ [r.usr, FILES])) :
    Follows env tid fl r (linkToUsr (fileDir fl r) (linkPath fl r) r.fileSign r.fileName) s s' := by
  unfold linkToUsr
  refine Follows.bind (link_follows hu hsg h hfiles) fun rt t t' ht => ?_
  exact Follows.ite (fun _ => .pure ht.alike _) fun _ => countLink_follows hsg ht.alike hrow

/-! ### The call -/

section
variable (response : NetDiskResponse)
  (hfiles : s.1.node (fl.usrRoot ++ [r.usr, FILES]) = s'.1.node (fl.usrRoot ++ [r.usr, FILES]))
include hfiles

theorem speedUpload_follows : Follows env tid fl r (speedUpload fl r response) s s' := by
  unfold speedUpload
  refine Follows.bind (linkToUsr_follows hu hsg h hrow hfiles) fun rt t t' ht => ?_
  exact Follows.ite (fun _ => .pure ht.alike _) fun _ => .pure ht.alike _

theorem publish_follows : Follows env tid fl r (publish fl r response) s s' := by
  unfold publish
  refine Follows.bind (mv_follows hu hsg h) fun text t t' ht => ?_
  refine Follows.ite (fun _ => .pure ht.alike _) fun _ => ?_
  refine Follows.bind (linkToUsr_follows hu hsg ht.alike hrow (ht.same _ hfiles)) fun rt t1 t1' ht1 => ?_
  exact Follows.ite (fun _ => .pure ht1.alike _) fun _ => .pure ht1.alike _

theorem checkSign_follows : Follows env tid fl r (checkSign fl r response) s s' := by
  unfold checkSign
  refine Follows.bind (md5Sum_follows hu hsg h) fun md5 t t' ht => ?_
  cases md5 with
  | none => exact .pure ht.alike _
  | some md5 =>
    refine Follows.ite (fun _ => .pure ht.alike _) fun _ => ?_
    unfold checkArrived
    refine Follows.bind (allPartArrived_follows hu hsg ht.alike) fun arrived t1 t1' ht1 => ?_
    refine Follows.ite (fun _ => ?_) fun _ => .pure ht1.alike _
    exact publish_follows hu hsg ht1.alike hrow response (ht1.same _ (ht.same _ hfiles))

theorem writePart_follows : Follows env tid fl r (writePart fl r response) s s' := by
  unfold writePart
  refine Follows.bind (write_follows hu hsg h) fun rt t t' ht => ?_
  refine Follows.ite (fun _ => .pure ht.alike _) fun _ => ?_
  exact checkSign_follows hu hsg ht.alike hrow response (ht.same _ hfiles)

theorem storePart_follows : Follows env tid fl r (storePart fl r response) s s' := by
  unfold storePart
  refine Follows.bind (existFile_follows hu hsg h) fun exist t t' ht => ?_
  have hfiles1 := ht.same _ hfiles
  refine Follows.ite (fun _ => ?_) fun _ => writePart_follows hu hsg ht.alike hrow response hfiles1
  unfold existingPart
  refine Follows.bind (md5Sum_follows hu hsg ht.alike) fun md5 t1 t1' ht1 => ?_
  have hfiles2 := ht1.same _ hfiles1
  cases md5 with
  | none => exact .pure ht1.alike _
  | some md5 =>
    refine Follows.ite (fun _ => writePart_follows hu hsg ht1.alike hrow _ hfiles2) fun _ => ?_
    refine Follows.bind (deleteFile_follows hu hsg ht1.alike) fun rt t2 t2' ht2 => ?_
    exact writePart_follows hu hsg ht2.alike hrow response (ht2.same _ hfiles2)

end

/-- Two states that look alike to a request look alike after it, and it answers the same. -/
theorem Do_follows (response : NetDiskResponse) : Follows env tid fl r (Do fl r response) s s' := by
  unfold Do
  refine Both.bind (mkdirFiles_both hu h) fun rt t t' hmade => ?_
  obtain ⟨⟨ht, hfiles⟩, huser⟩ := hmade
  refine Follows.after ht (Follows.ite (fun _ => .pure ht.alike _) fun hrt => ?_)
  refine Follows.bind (existDir_follows hsg ht.alike) fun stored t1 t1' ht1 => ?_
  refine Follows.ite (fun _ => speedUpload_follows hu hsg ht1.alike hrow response (ht1.same _ hfiles)) fun _ => ?_
  have huser' := huser (not_not.mp hrt)
  have huser1 : t1.1.node (fl.usrRoot ++ [r.usr]) = some .dir := by
    rw [ht1.elsewhere.of_some (not_zone_short (by simp)), ht.elsewhere.of_some (not_zone_short (by simp)), huser']
    · rw [huser']
      simp
    · rw [ht.elsewhere.of_some (not_zone_short (by simp)), huser'] <;> simp [huser']
  unfold uploadPart
  refine Follows.bind (makeTmpDirs_follows hu hsg ht1.alike huser1) fun made t2 t2' ht2 => ?_
  refine Follows.ite (fun _ => ?_) fun _ => .pure ht2.alike _
  exact storePart_follows hu hsg ht2.alike hrow response (ht2.same _ (ht1.same _ hfiles))

end

/-! ## Two requests in either order -/

theorem Elsewhere.alike {fl : Flags} {r r' : NetDiskRequest} {s t : FS × DB} (hne : r.fileSign ≠ r'.fileSign)
    (h : Elsewhere fl r' s t) (hs : Ground fl s.1) (ht : Ground fl t.1) : Alike fl r s t := by
  refine ⟨hs, ht, ?_, fun p hp => ?_, fun p hp => ?_, (h.rows r.fileSign hne).symm⟩
  · rcases h.node (fl.usrRoot ++ [r.usr]) (not_zone_short (by simp)) with hsame | ⟨hc, -⟩
    · exact hsame.symm
    · generalize hp : fl.usrRoot ++ [r.usr] = p at hc
      cases hc <;> exact absurd (congrArg List.length (List.append_cancel_left hp)) (by simp)
  · rcases h.node p (hp.disjoint hne) with hsame | ⟨hc, -⟩
    · exact hsame.symm
    · exact absurd hp hc.not_zone
  · rcases h.node p hp.not_zone with hsame | ⟨-, hnone, hdir⟩
    · exact Or.inl hsame.symm
    · exact Or.inr (Or.inl ⟨hnone, hdir⟩)

def World.store (w : World) : FS × DB := (w.fs, w.db)

@[simp] theorem World.store_fst (w : World) : w.store.1 = w.fs := rfl

@[simp] theorem World.store_snd (w : World) : w.store.2 = w.db := rfl

theorem serve_two (env : Env) (fl : Flags) (w : World) (r r' : NetDiskRequest) :
    serve env fl w [r, r'] = (handle env fl (handle env fl w r).2 r').2 := rfl

theorem perm_of_rowsOf {db db' : DB} (h : ∀ sign, rowsOf db sign = rowsOf db' sign) : db.signMap.Perm db'.signMap := by
  refine List.perm_iff_count.mpr fun row => ?_
  have hcount : ∀ db : DB, List.count row (rowsOf db row.sign) = List.count row db.signMap :=
    fun db => List.count_filter (by simp)
  rw [← hcount db, ← hcount db', h]

theorem node_either {a b b' c c' : Option (Node Bytes Bytes)} (h1 : b = a ∨ a = none ∧ b = some .dir)
    (h2 : b' = a ∨ a = none ∧ b' = some .dir) (h12 : c = b ∨ b = none ∧ c = some .dir)
    (h21 : c' = b' ∨ b' = none ∧ c' = some .dir) (hsame : a = b → b' = c) (hsame' : a = b' → b = c') : c = c' := by
  rcases h1 with rfl | ⟨rfl, rfl⟩ <;> rcases h2 with rfl | ⟨h, rfl⟩ <;> grind

/-- Each request leaves the other's zone, and does in its own what it does without the other. -/
theorem commute {fl : Flags} {r r' : NetDiskRequest} {s s1 s2 s12 s21 : FS × DB} (hne : r.fileSign ≠ r'.fileSign)
    (h1 : Elsewhere fl r s s1) (h2 : Elsewhere fl r' s s2) (h12 : Elsewhere fl r' s1 s12) (h21 : Elsewhere fl r s2 s21)
    (ht : Twin fl r s s2 s1 s21) (ht' : Twin fl r' s s1 s2 s12) :
    s12.1 = s21.1 ∧ ∀ sign, rowsOf s12.2 sign = rowsOf s21.2 sign := by
  have hleft : ∀ {q : NetDiskRequest} {s t : FS × DB} {p : Path}, Elsewhere fl q s t → ¬ Zone fl q p →
      t.1.node p = s.1.node p ∨ s.1.node p = none ∧ t.1.node p = some .dir :=
    fun h hp => (h.node _ hp).imp_right And.right
  refine ⟨FileTree.ext_node (funext fun p => ?_), fun sign => ?_⟩
  · by_cases hz : Zone fl r p
    · have hkeep := (h12.node p (hz.disjoint hne)).resolve_right fun hmade => hmade.1.not_zone hz
      exact hkeep.trans (ht.alike.zone p hz)
    by_cases hz' : Zone fl r' p
    · have hkeep := (h21.node p hz).resolve_right fun hmade => hmade.1.not_zone hz'
      exact (ht'.alike.zone p hz').symm.trans hkeep.symm
    exact node_either (hleft h1 hz) (hleft h2 hz') (hleft h12 hz') (hleft h21 hz) (ht'.same p) (ht.same p)
  · by_cases hr : sign = r.fileSign
    · subst hr
      exact (h12.rows _ hne).trans ht.alike.rows
    by_cases hr' : sign = r'.fileSign
    · subst hr'
      exact ht'.alike.rows.symm.trans (h21.rows _ hr).symm
    · exact ((h12.rows _ hr').trans (h1.rows _ hr)).trans ((h21.rows _ hr).trans (h2.rows _ hr')).symm

section
variable {env : Env} {fl : Flags} {r r' : NetDiskRequest} {w w' : World}

variable (env)

theorem handle_follows (hr : PlainNames r) (hrow : Stmt.OneRow r.fileSign r.fileName)
    (h : Alike fl r w.store w'.store) : (handle env fl w r).1 = (handle env fl w' r).1 ∧
      Twin fl r w.store w'.store (handle env fl w r).2.store (handle env fl w' r).2.store := by
  have hfollows : Follows env 0 fl r (Do fl r .empty) w.store w'.store := Do_follows hr.1 hr.2 h hrow .empty
  obtain ⟨response, t, t', hends, hends', htwin⟩ := hfollows
  obtain ⟨hanswer, hfs, hdb⟩ := hends w rfl rfl
  obtain ⟨hanswer', hfs', hdb'⟩ := hends' w' rfl rfl
  have ht : (handle env fl w r).2.store = t := by simp only [World.store, handle, hfs, hdb]
  have ht' : (handle env fl w' r).2.store = t' := by simp only [World.store, handle, hfs', hdb']
  rw [ht, ht']
  exact ⟨hanswer.trans hanswer'.symm, htwin⟩

/-- The two orders end with the same files, the same rows and the same answers. -/
structure Independent (env : Env) (fl : Flags) (w : World) (r r' : NetDiskRequest) : Prop where
  first : (handle env fl w r).1 = (handle env fl (handle env fl w r').2 r).1
  second : (handle env fl (handle env fl w r).2 r').1 = (handle env fl w r').1
  files : (serve env fl w [r, r']).fs = (serve env fl w [r', r]).fs
  rows : (serve env fl w [r, r']).db.signMap.Perm (serve env fl w [r', r]).db.signMap

theorem handle_elsewhere (hr : PlainNames r) (hrow : Stmt.OneRow r.fileSign r.fileName) (hw : Ground fl w.fs) :
    Elsewhere fl r w.store (handle env fl w r).2.store ∧ Ground fl (handle env fl w r).2.fs := by
  obtain ⟨-, htwin⟩ := handle_follows env hr hrow (Alike.refl hw : Alike fl r w.store w.store)
  exact ⟨htwin.elsewhere, htwin.alike.left⟩

/-- Requests for different files give the same in either order. -/
theorem independent (hw : Ground fl w.fs) (hr : PlainNames r) (hr' : PlainNames r')
    (hrow : Stmt.OneRow r.fileSign r.fileName) (hrow' : Stmt.OneRow r'.fileSign r'.fileName)
    (hne : r.fileSign ≠ r'.fileSign) : Independent env fl w r r' := by
  obtain ⟨h1, hw1⟩ := handle_elsewhere env hr hrow hw
  obtain ⟨h2, hw2⟩ := handle_elsewhere env hr' hrow' hw
  obtain ⟨h12, -⟩ := handle_elsewhere env hr' hrow' hw1
  obtain ⟨h21, -⟩ := handle_elsewhere env hr hrow hw2
  obtain ⟨hfirst, ht⟩ := handle_follows env hr hrow (h2.alike hne hw hw2)
  obtain ⟨hsecond, ht'⟩ := handle_follows env hr' hrow' (h1.alike hne.symm hw hw1)
  obtain ⟨hfiles, hrows⟩ := commute hne h1 h2 h12 h21 ht ht'
  rw [World.store_fst, World.store_fst] at hfiles
  simp only [World.store_snd] at hrows
  refine ⟨hfirst, hsecond.symm, ?_, perm_of_rowsOf fun sign => ?_⟩
  · rw [serve_two, serve_two]
    exact hfiles
  · rw [serve_two, serve_two]
    exact hrows sign

end

/-! ### A name that is two rows -/

namespace Injected

/-- The other file. -/
def other : NetDiskRequest :=
  { OnePart.request with
    partSign := Md5.hexDigest (ascii "b")
    fileName := ascii "b.txt"
    fileSign := Md5.hexDigest (ascii "b")
    body := ascii "b" }

/-- The rest of the statement is a comment. -/
def fileName : Bytes :=
  ascii "x',1),('" ++ other.fileSign ++ ascii "','y',1) ON DUPLICATE KEY UPDATE reference=reference+1 -- "

def quoted : NetDiskRequest := { OnePart.request with fileName := fileName }

/-- A row is added, or counted up when its sign is there. -/
def upsert (db : DB) (row : SignRow) : DB :=
  match db.exec (.insertSigns [row]) with
  | some (db, _) => db
  | none => db.countUp row.sign

/-- MySQL, as far as the statement of `quoted` goes. -/
def env : Env where
  cwd := []
  shell _ fs := (fs, [])
  sql cmd db :=
    if cmd = insertSignCmd quoted.fileSign fileName then
      some ([⟨quoted.fileSign, ascii "x", 1⟩, ⟨other.fileSign, ascii "y", 1⟩].foldl upsert db, none)
    else none

theorem ground : Ground .short TwoParts.world.fs where
  usr_root := (EmptyDirs.start _ _).usr_root
  files_root := (EmptyDirs.start _ _).files_root
  links p target h := absurd h (start_noLinks _ _ p p List.prefix_rfl target)

theorem plainNames : PlainNames OnePart.request ∧ PlainNames other :=
  ⟨⟨by decide +kernel, by decide +kernel⟩, ⟨by decide +kernel, by decide +kernel⟩⟩

end Injected

theorem independent_two : Independent .bare .short TwoParts.world OnePart.request Injected.other :=
  independent .bare Injected.ground Injected.plainNames.1 Injected.plainNames.2
    (.of_litSafe (by decide +kernel) (by decide +kernel)) (.of_litSafe (by decide +kernel) (by decide +kernel))
    (by decide +kernel)

/-- All four answers are successes, and the row of the other file has another name when it comes second. -/
theorem quoted_name_first :
    ((handle Injected.env .short TwoParts.world Injected.quoted).1.res = some true ∧
      (handle Injected.env .short (handle Injected.env .short TwoParts.world Injected.quoted).2 Injected.other).1.res =
        some true ∧
      (handle Injected.env .short TwoParts.world Injected.other).1.res = some true ∧
      (handle Injected.env .short (handle Injected.env .short TwoParts.world Injected.other).2 Injected.quoted).1.res =
        some true) ∧
    ¬ Independent Injected.env .short TwoParts.world Injected.quoted Injected.other := by
  let row : SignRow := ⟨Injected.other.fileSign, ascii "y", 2⟩
  let quotedFirst := (serve Injected.env .short TwoParts.world [Injected.quoted, Injected.other]).db.signMap
  let otherFirst := (serve Injected.env .short TwoParts.world [Injected.other, Injected.quoted]).db.signMap
  -- one evaluation for all of it: the runs share their requests
  refine And.imp_right (a := row ∈ quotedFirst ∧ row ∉ otherFirst) (fun hrow h => ?_) (by decide +kernel)
  exact hrow.2 (h.rows.mem_iff.mp hrow.1)

end NetDisk
