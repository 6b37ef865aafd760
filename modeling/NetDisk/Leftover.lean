import NetDisk.Complete

/-!
# Parts of a file that is stored

A file that is published leaves no part in the directory it was moved from. Another user who was half way
through it is only linked, and the parts are never looked at again.
-/

namespace NetDisk

open Machine UploadRpc Server

variable {env : Env} {fl : Flags}

namespace Disk

/-- Links are to stored files. -/
def LinksStored (disk : Disk) : Prop := ∀ u s, disk.linked u s = true → disk.stored s = true

/-- Who has a link to a stored file has no part of it. -/
def Once (disk : Disk) : Prop :=
  ∀ u s, disk.stored s = true → disk.linked u s = true → ∀ i, disk.part u s i = none

/-- The upload links a stored file to a user who has parts of it. -/
def LinksOverParts (disk : Disk) (r : Part) : Prop :=
  disk.user r.usr = true ∧ disk.stored r.sign = true ∧ ∃ i, disk.part r.usr r.sign i ≠ none

variable {disk : Disk} {r : Part}

theorem linksStored_upload (h : disk.LinksStored) : (disk.upload r).LinksStored := by
  intro u s hl
  rw [stored_upload]
  rcases (linked_upload disk r u s).mp hl with hl | ⟨hlinks, rfl, rfl⟩
  · exact Or.inl (h u s hl)
  · exact (stored_upload disk r r.sign).mp (of_links hlinks).2

theorem once_upload (hl : disk.LinksStored) (h : disk.Once) (hr : ¬ disk.LinksOverParts r) : (disk.upload r).Once := by
  intro u s hst hlinked i
  rw [stored_upload] at hst
  rw [linked_upload] at hlinked
  rw [part_upload]
  by_cases hown : u = r.usr ∧ s = r.sign
  · obtain ⟨rfl, rfl⟩ := hown
    cases hout : disk.outcome r with
    | published => rw [if_pos ⟨rfl, rfl, rfl⟩]
    | linked =>
      obtain ⟨huser, hstored⟩ := outcome_linked.mp hout
      rw [if_neg (by simp), if_neg (by simp [Outcome.writes])]
      by_contra hpart
      exact hr ⟨huser, hstored, i, hpart⟩
    | noUser =>
      rw [if_neg (by simp), if_neg (by simp [Outcome.writes])]
      simp only [hout, Outcome.links, reduceCtorEq, false_and, or_false, Bool.false_eq_true] at hst hlinked
      exact h _ _ hst hlinked i
    | rejected =>
      -- The file is not stored, before or after.
      have hno := (outcome_rejected.mp hout).2.1
      simp [hout, hno] at hst
    | accepted =>
      have hno := (outcome_accepted.mp hout).2.1
      simp [hout, hno] at hst
  · have hlinked' : disk.linked u s = true := hlinked.resolve_right fun hown' => hown hown'.2
    rw [if_neg fun hown' => hown hown'.2, if_neg fun hown' => hown ⟨hown'.2.1, hown'.2.2.1⟩]
    exact h u s (hl u s hlinked') hlinked' i

theorem not_once_of_linksOverParts (hr : disk.LinksOverParts r) : ¬ (disk.upload r).Once := by
  obtain ⟨huser, hst, i, hpart⟩ := hr
  have hout : disk.outcome r = .linked := outcome_linked.mpr ⟨huser, hst⟩
  intro h
  have hnone := h r.usr r.sign ((stored_upload disk r r.sign).mpr (Or.inl hst))
    ((linked_upload disk r r.usr r.sign).mpr (Or.inr ⟨by rw [hout]; rfl, rfl, rfl⟩)) i
  rw [part_upload, if_neg (by simp [hout]), if_neg (by simp [hout, Outcome.writes])] at hnone
  exact hpart hnone

end Disk

/-! ## In the file system -/

/-- Who has a link to a stored file has nothing left in his directory of its parts. -/
def StoredOnce (fl : Flags) (fs : FS) : Prop :=
  ∀ v s target, fs.node (fl.filesRoot ++ [s]) ≠ none →
    fs.node (fl.usrRoot ++ [v, FILES, s]) = some (.link target) →
    ∀ f, fs.node (fl.usrRoot ++ [v, TMP, s, f]) = none

theorem storedOnce_iff {fs : FS} (hs : Shape fl fs) : StoredOnce fl fs ↔ (Disk.of fl fs).Once := by
  constructor
  · intro h v s hst hlinked i
    have hst' : fs.node (fl.filesRoot ++ [s]) = some .dir := by simpa [Disk.of] using hst
    have hlinked' : fs.node (fl.usrRoot ++ [v, FILES, s]) ≠ none := by simpa [Disk.of] using hlinked
    obtain ⟨m, hm⟩ := Option.ne_none_iff_exists'.mp hlinked'
    obtain rfl := (hs.usr_entry _ _ hm).1 rfl
    have hnone := h v s _ (by simp [hst']) hm (toString i)
    simp [Disk.of, fileAt, hnone]
  · intro h v s target hst hlink f
    obtain ⟨m, hm⟩ := Option.ne_none_iff_exists'.mp hst
    obtain rfl := hs.store_entry _ _ hm
    by_contra hne
    obtain ⟨k, hk⟩ := Option.ne_none_iff_exists'.mp hne
    obtain ⟨c, i, rfl, rfl⟩ := hs.usr_entry _ _ hk rfl
    have hnone := h v s (by simp [Disk.of, hm]) (by simp [Disk.of, hlink]) i
    simp [Disk.of, fileAt, hk] at hnone

/-! ## Runs -/

section
variable {w : World} {requests : List NetDiskRequest} (hempty : EmptyDirs fl w.fs)
  (hnames : ∀ r ∈ requests, PlainNames r)
include hempty hnames

variable (env) in
theorem serve_linksStored : ∀ done, done <+: requests → Shape fl (serve env fl w done).fs ∧
    (disk fl (serve env fl w done)).LinksStored := by
  refine serve_invariant (fun _ w => Shape fl w.fs ∧ (disk fl w).LinksStored) ?_ ?_
  · refine ⟨hempty.shape, fun u s hl => ?_⟩
    rw [disk, hempty.linked_false] at hl
    cases hl
  · rintro done r hpre ⟨hs, hl⟩
    obtain ⟨hs', hdisk, _⟩ := handle_spec env hs (hnames r (hpre.subset (by simp)))
    rw [hdisk]
    exact ⟨hs', Disk.linksStored_upload hl⟩

/-- All along a run each file is stored once, exactly when nobody asks for a stored file of which he has parts. -/
theorem stored_once_iff :
    (∀ done, done <+: requests → StoredOnce fl (serve env fl w done).fs) ↔
      ∀ done r, done ++ [r] <+: requests → ¬ (disk fl (serve env fl w done)).LinksOverParts (Part.of r) := by
  have hinv := serve_linksStored env hempty hnames
  constructor
  · intro honce done r hpre hbad
    obtain ⟨hs, -⟩ := hinv done ((List.prefix_append done [r]).trans hpre)
    obtain ⟨hs', hdisk, _⟩ := handle_spec env hs (hnames r (hpre.subset (by simp)))
    have hafter := honce (done ++ [r]) hpre
    rw [serve_append, storedOnce_iff hs', ← disk, hdisk] at hafter
    exact Disk.not_once_of_linksOverParts hbad hafter
  · intro hok
    refine serve_invariant (fun _ w => StoredOnce fl w.fs) ?_ ?_
    · intro v s target hst
      exact absurd (hempty.files_none (by simp)) hst
    · intro done r hpre honce
      obtain ⟨hs, hl⟩ := hinv done ((List.prefix_append done [r]).trans hpre)
      obtain ⟨hs', hdisk, _⟩ := handle_spec env hs (hnames r (hpre.subset (by simp)))
      rw [storedOnce_iff hs', ← disk, hdisk]
      exact Disk.once_upload hl ((storedOnce_iff hs).mp honce) (hok done r hpre)

end

/-! ### A file of two parts -/

namespace TwoParts

/-- Alice is half way through the file when Bob completes it. -/
def late : List NetDiskRequest :=
  [request "alice" 0 "a", request "bob" 0 "a", request "bob" 1 "b", request "alice" 1 "b"]

theorem late_undamaged : ∀ r ∈ late, Undamaged (fun _ => 2) body r := by
  have hsign : Hex32 sign := by decide +kernel
  have hrequest : ∀ usr i body', Alnum (ascii usr) → i.toNat < 2 → ascii body' = body sign i.toNat →
      Undamaged (fun _ => 2) body (request usr i body') := by
    intro usr i body' hu hi hb
    refine ⟨hu, hsign, rfl, hi, hb, ?_, one_row⟩
    unfold body request digest
    split <;> rfl
  intro r hr
  simp only [late, List.mem_cons, List.not_mem_nil, or_false] at hr
  rcases hr with rfl | rfl | rfl | rfl
  all_goals exact hrequest _ _ _ (by decide +kernel) (by decide) rfl

end TwoParts

theorem stored_once_late :
    (∀ done, done <+: TwoParts.late → StoredOnce .short (serve .bare .short TwoParts.world done).fs) ↔
      ∀ done r, done ++ [r] <+: TwoParts.late →
        ¬ (disk .short (serve .bare .short TwoParts.world done)).LinksOverParts (Part.of r) :=
  stored_once_iff (EmptyDirs.start _ _) fun r hr => (TwoParts.late_undamaged r hr).plainNames

/-- Her second part makes the link, and her first one stays. -/
theorem late_part_stays :
    (∀ r ∈ TwoParts.late, Undamaged (fun _ => 2) TwoParts.body r) ∧
    (∀ r ∈ TwoParts.late, TwoParts.world.fs.node (Flags.short.usrRoot ++ [r.usr]) = some .dir) ∧
    ¬ StoredOnce .short (serve .bare .short TwoParts.world TwoParts.late).fs := by
  refine ⟨TwoParts.late_undamaged, by decide, fun h => ?_⟩
  -- she has the link to the stored file, so none of her parts should be left
  have halice := fun hstored hlink =>
    h (ascii "alice") TwoParts.sign (Flags.short.filesDir ++ TwoParts.sign) hstored hlink (toString 0)
  exact absurd halice (by decide +kernel)

end NetDisk
