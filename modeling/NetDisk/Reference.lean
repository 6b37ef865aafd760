import NetDisk.Publish

/-!
# Reference counts

Each link request counts one reference, also when the user has the link already.
-/

namespace NetDisk

open Machine UploadRpc Server

variable {env : Env} {fl : Flags}

namespace Disk

/-- The users that have a link to the file. -/
def linkers (disk : Disk) (s : Name) : Set Name := {u | disk.linked u s = true}

/-- The tables and the disk agree on which files there are. -/
structure Counts (disk : Disk) (refs : Name → Option Nat) : Prop where
  stored_of_linked : ∀ u s, disk.linked u s = true → disk.stored s = true
  user_of_linked : ∀ u s, disk.linked u s = true → disk.user u = true
  refs_none : ∀ s, refs s = none ↔ disk.stored s = false
  finite : ∀ s, (disk.linkers s).Finite

def Exact (disk : Disk) (refs : Name → Option Nat) : Prop :=
  ∀ s k, refs s = some k → k = (disk.linkers s).ncard

/-- The file is stored, and the user has a link to it already. -/
def Relinks (disk : Disk) (r : Part) : Prop := disk.stored r.sign = true ∧ disk.linked r.usr r.sign = true

variable {disk : Disk} {r : Part} {refs : Name → Option Nat}

theorem linkers_upload (s : Name) : (disk.upload r).linkers s =
    if (disk.outcome r).links = true ∧ s = r.sign then insert r.usr (disk.linkers s) else disk.linkers s := by
  ext u
  have h := linked_upload disk r u s
  split
  · rename_i hl
    rw [linkers, Set.mem_ofPred_eq, h, Set.mem_insert_iff, linkers, Set.mem_ofPred_eq, or_comm]
    simp [hl]
  · rename_i hl
    rw [linkers, Set.mem_ofPred_eq, h, linkers, Set.mem_ofPred_eq]
    exact ⟨fun h' => h'.resolve_right fun h2 => hl ⟨h2.1, h2.2.2⟩, Or.inl⟩

theorem counts_upload (h : Counts disk refs) : Counts (disk.upload r) (disk.refsAfter r refs) where
  stored_of_linked u s hl := by
    rcases (linked_upload disk r u s).mp hl with hold | ⟨hnew, _, rfl⟩
    · exact (stored_upload disk r s).mpr (Or.inl (h.stored_of_linked u s hold))
    · exact (of_links hnew).2
  user_of_linked u s hl := by
    rw [user_upload]
    rcases (linked_upload disk r u s).mp hl with hold | ⟨hnew, rfl, _⟩
    · exact h.user_of_linked u s hold
    · exact (of_links hnew).1
  refs_none := refsAfter_none disk r h.refs_none
  finite s := by
    rw [linkers_upload]
    split
    · exact (h.finite s).insert _
    · exact h.finite s

theorem exact_upload (h : Counts disk refs) (he : Exact disk refs) (hok : ¬ disk.Relinks r) :
    Exact (disk.upload r) (disk.refsAfter r refs) := by
  intro s k hk
  rw [linkers_upload]
  unfold refsAfter at hk
  split at hk
  · rename_i hl
    rw [if_pos hl]
    obtain ⟨hl, rfl⟩ := hl
    by_cases hst : disk.stored r.sign = true
    · have hnew : r.usr ∉ disk.linkers r.sign := fun hm => hok ⟨hst, hm⟩
      cases href : refs r.sign with
      | none =>
        have := (h.refs_none r.sign).mp href
        rw [hst] at this
        simp at this
      | some j =>
        rw [href] at hk
        rw [Set.ncard_insert_of_notMem hnew (h.finite _), ← he _ _ href]
        exact (Option.some.inj hk).symm
    · -- The first link to the file.
      have hnone : refs r.sign = none := (h.refs_none _).mpr (by simpa using hst)
      have hempty : disk.linkers r.sign = ∅ := by
        rw [Set.eq_empty_iff_forall_notMem]
        exact fun u hu => hst (h.stored_of_linked u _ hu)
      rw [hnone] at hk
      rw [hempty, ← Option.some.inj hk]
      simp
  · rename_i hl
    rw [if_neg hl]
    exact he s k hk

theorem not_exact_of_relinks (h : Counts disk refs) (he : Exact disk refs) (hbad : disk.Relinks r) :
    ¬ Exact (disk.upload r) (disk.refsAfter r refs) := by
  intro hafter
  obtain ⟨hst, hlinked⟩ := hbad
  have hmem : r.usr ∈ disk.linkers r.sign := hlinked
  have hout : disk.outcome r = .linked := outcome_linked.mpr ⟨h.user_of_linked _ _ hlinked, hst⟩
  have hl : (disk.outcome r).links = true ∧ r.sign = r.sign := ⟨by rw [hout]; rfl, rfl⟩
  cases href : refs r.sign with
  | none =>
    have := (h.refs_none r.sign).mp href
    rw [hst] at this
    simp at this
  | some k =>
    have hk := hafter r.sign (k + 1) (by rw [refsAfter, if_pos hl, href]; rfl)
    rw [linkers_upload, if_pos hl, Set.insert_eq_of_mem hmem, ← he _ _ href] at hk
    omega

end Disk

/-! ## Runs -/

/-- The users `u` that have a link `usr_dir/u/files/s`. -/
def linkUsers (fl : Flags) (fs : FS) (s : Name) : Set Name :=
  {u | ∃ target, fs.node (fl.usrRoot ++ [u, FILES, s]) = some (.link target)}

/-- Each row counts the users that have a link to the file. -/
def ReferencesExact (fl : Flags) (w : World) : Prop :=
  ∀ row ∈ w.db.signMap, row.reference = (linkUsers fl w.fs row.sign).ncard

theorem referencesExact_iff {w : World} (hs : Shape fl w.fs) :
    ReferencesExact fl w ↔ (disk fl w).Exact w.db.refs := by
  have hset : ∀ s, linkUsers fl w.fs s = (disk fl w).linkers s := by
    intro s
    ext u
    simp only [linkUsers, Disk.linkers, disk, Disk.of, Set.mem_ofPred_eq, decide_eq_true_eq]
    constructor
    · rintro ⟨target, h⟩
      simp [h]
    · intro h
      obtain ⟨n, hn⟩ := Option.ne_none_iff_exists'.mp h
      exact ⟨_, by rw [hn, (hs.usr_entry _ _ hn).1 rfl]⟩
  constructor
  · intro h s k hk
    obtain ⟨row, hrow, rfl, rfl⟩ := DB.refs_eq_some.mp hk
    rw [h row hrow, hset]
  · intro h row hrow
    rw [hset]
    exact h row.sign row.reference (DB.refs_eq_some.mpr ⟨row, hrow, rfl, rfl⟩)

section
variable {w : World} {requests : List NetDiskRequest} (hempty : EmptyDirs fl w.fs) (hrows : w.db.signMap = [])
  (hnames : ∀ r ∈ requests, PlainNames r ∧ Stmt.OneRow r.fileSign r.fileName)
include hempty hrows hnames

variable (env) in
theorem serve_counts : ∀ done, done <+: requests → Shape fl (serve env fl w done).fs ∧
    (disk fl (serve env fl w done)).Counts (serve env fl w done).db.refs := by
  refine serve_invariant (fun _ w => Shape fl w.fs ∧ (disk fl w).Counts w.db.refs) ?_ ?_
  · refine ⟨hempty.shape, ?_, ?_, ?_, ?_⟩
    · intro u s h
      rw [disk, hempty.linked_false] at h
      simp at h
    · intro u s h
      rw [disk, hempty.linked_false] at h
      simp at h
    · intro s
      rw [disk, hempty.stored_false]
      simp [DB.refs, hrows]
    · intro s
      have : (disk fl w).linkers s = ∅ := by
        ext u
        simp [Disk.linkers, disk, hempty.linked_false]
      rw [this]
      exact Set.finite_empty
  · rintro done r hpre ⟨hs, hcounts⟩
    obtain ⟨hplain, hrow⟩ := hnames r (hpre.subset (by simp))
    obtain ⟨hs', hdisk, _⟩ := handle_spec env hs hplain
    have hrefs := handle_refs env hs hplain hrow
    rw [hdisk, hrefs]
    exact ⟨hs', Disk.counts_upload hcounts⟩

/-- The references are exact all along a run exactly when no user uploads a stored file that it has a
link to. -/
theorem references_exact_iff :
    (∀ done, done <+: requests → ReferencesExact fl (serve env fl w done)) ↔
      ∀ done r, done ++ [r] <+: requests → ¬ (disk fl (serve env fl w done)).Relinks (Part.of r) := by
  have hinv := serve_counts env hempty hrows hnames
  have hstep : ∀ done r, done ++ [r] <+: requests →
      (ReferencesExact fl (serve env fl w (done ++ [r])) ↔
        ((disk fl (serve env fl w done)).upload (Part.of r)).Exact
          ((disk fl (serve env fl w done)).refsAfter (Part.of r) (serve env fl w done).db.refs)) := by
    intro done r hpre
    obtain ⟨hplain, hrow⟩ := hnames r (hpre.subset (by simp))
    obtain ⟨hs, _⟩ := hinv done ((List.prefix_append done [r]).trans hpre)
    obtain ⟨hs', hdisk, _⟩ := handle_spec env hs hplain
    have hrefs := handle_refs env hs hplain hrow
    rw [serve_append, referencesExact_iff hs', hdisk, hrefs]
  constructor
  · intro h done r hpre hbad
    have hdone := (List.prefix_append done [r]).trans hpre
    obtain ⟨hs, hcounts⟩ := hinv done hdone
    exact Disk.not_exact_of_relinks hcounts ((referencesExact_iff hs).mp (h done hdone)) hbad
      ((hstep done r hpre).mp (h _ hpre))
  · intro hok
    refine serve_invariant (fun _ w => ReferencesExact fl w) ?_ ?_
    · intro row hrow
      rw [hrows] at hrow
      simp at hrow
    · intro done r hpre h
      obtain ⟨hs, hcounts⟩ := hinv done ((List.prefix_append done [r]).trans hpre)
      rw [← serve_append, hstep done r hpre]
      exact Disk.exact_upload hcounts ((referencesExact_iff hs).mp h) (hok done r hpre)

end

/-! ### The same file twice -/

theorem ncard_le_one (fl : Flags) (fs : FS) (user s : Name)
    (h : ∀ p ∈ fs.paths, p.length = fl.usrRoot.length + 3 → p.getD fl.usrRoot.length [] = user) :
    (linkUsers fl fs s).ncard ≤ 1 := by
  rw [← Set.ncard_singleton user]
  refine Set.ncard_le_ncard ?_ (Set.finite_singleton _)
  rintro u ⟨target, hu⟩
  have := h _ ((fs.mem_paths _).mpr (by rw [hu]; simp)) (by simp)
  simpa using this

namespace OnePart

def sign : Bytes := Md5.hexDigest (ascii "a")

def request : NetDiskRequest where
  opType := 5
  shard := 1
  partIndex := 0
  partSign := sign
  fileName := ascii "a.txt"
  fileSign := sign
  usr := ascii "bob"
  body := ascii "a"

theorem names : ∀ r ∈ [request, request], PlainNames r ∧ Stmt.OneRow r.fileSign r.fileName := by
  intro r hr
  simp only [List.mem_cons, List.not_mem_nil, or_false, or_self] at hr
  rw [hr]
  exact ⟨⟨by decide +kernel, by decide +kernel⟩, .of_litSafe (by decide +kernel) (by decide +kernel)⟩

def after : World := serve .bare .short TwoParts.world [request, request]

end OnePart

theorem references_exact_twice :
    (∀ done, done <+: [OnePart.request, OnePart.request] →
        ReferencesExact .short (serve .bare .short TwoParts.world done)) ↔
      ∀ done r, done ++ [r] <+: [OnePart.request, OnePart.request] →
        ¬ (disk .short (serve .bare .short TwoParts.world done)).Relinks (Part.of r) :=
  references_exact_iff (EmptyDirs.start _ _) rfl OnePart.names

/-- One user uploads one file twice: one link, and two references. -/
theorem second_upload_counts : ¬ ReferencesExact .short OnePart.after := by
  intro h
  have hrow := h ⟨OnePart.sign, ascii "a.txt", 2⟩ (by decide +kernel)
  have hle := ncard_le_one .short OnePart.after.fs (ascii "bob") OnePart.sign
    (by decide +kernel)
  exact absurd (hrow.trans_le hle) (by decide)

end NetDisk
