import NetDisk.Publish

/-!
# What the sign of a stored file says

Only the digests of single parts are checked, each against the request that brings the part. The
sign of the file is a name like any other: it says what the client who completes the parts wants.
-/

namespace NetDisk

open Machine UploadRpc Server

variable {env : Env} {fl : Flags}

/-! ## All parts together -/

/-- The bytes of all parts, by increasing number; `part_index` has 32 bits. -/
def whole (parts : Nat → Option Bytes) : Bytes := (List.range 4294967296).flatMap fun i => (parts i).getD []

theorem whole_eq {parts : Nat → Option Bytes} {k : Nat} (hk : k ≤ 4294967296) (h : ∀ i, k ≤ i → parts i = none) :
    whole parts = (List.range k).flatMap fun i => (parts i).getD [] := by
  obtain ⟨m, hm⟩ := Nat.exists_eq_add_of_le hk
  have htail : (List.map (k + ·) (List.range m)).flatMap (fun i => (parts i).getD []) = [] := by
    rw [List.flatMap_eq_nil_iff]
    intro i hi
    obtain ⟨j, _, rfl⟩ := List.mem_map.mp hi
    rw [h _ (by omega)]
    rfl
  rw [whole, hm, List.range_add, List.flatMap_append, htail, List.append_nil]

namespace Disk

variable {disk : Disk} {r : Part}

/-- Each file that was not stored `before` has the digest that its sign says. -/
def Addressed (before disk : Disk) : Prop :=
  ∀ s, before.stored s = false → disk.stored s = true → Md5.hexDigest (whole (disk.store s)) = s

/-- The part publishes a file whose parts together have another digest than the sign. -/
def CompletesOther (disk : Disk) (r : Part) : Prop :=
  disk.outcome r = .published ∧ Md5.hexDigest (whole ((disk.putPart r).part r.usr r.sign)) ≠ r.sign

theorem store_kept {s : Name} (h : disk.stored s = true) :
    (disk.upload r).stored s = true ∧ (disk.upload r).store s = disk.store s := by
  refine ⟨(stored_upload disk r s).mpr (Or.inl h), ?_⟩
  funext i
  rw [store_upload, if_neg]
  rintro ⟨hout, rfl⟩
  have := (outcome_published.mp hout).2.1
  rw [h] at this
  simp at this

theorem addressed_upload {before : Disk} (hkeep : ∀ s, before.stored s = true → disk.stored s = true)
    (h : Addressed before disk) : Addressed before (disk.upload r) ↔ ¬ disk.CompletesOther r := by
  constructor
  · rintro hafter ⟨hout, hother⟩
    have hst := (outcome_published.mp hout).2.1
    have hbefore : before.stored r.sign = false := by
      by_contra hb
      have := hkeep r.sign (by simpa using hb)
      rw [hst] at this
      simp at this
    have hdig := hafter r.sign hbefore ((stored_upload disk r r.sign).mpr (Or.inr ⟨hout, rfl⟩))
    have hstore : (disk.upload r).store r.sign = (disk.putPart r).part r.usr r.sign := by
      funext i
      rw [store_upload, if_pos ⟨hout, rfl⟩]
    rw [hstore] at hdig
    exact hother hdig
  · intro hok s hbefore hst
    by_cases hold : disk.stored s = true
    · rw [(store_kept hold).2]
      exact h s hbefore hold
    · rcases (stored_upload disk r s).mp hst with h' | ⟨hout, rfl⟩
      · exact absurd h' hold
      · have hstore : (disk.upload r).store r.sign = (disk.putPart r).part r.usr r.sign := by
          funext i
          rw [store_upload, if_pos ⟨hout, rfl⟩]
        rw [hstore]
        by_contra hother
        exact hok ⟨hout, hother⟩

end Disk

/-! ## Runs -/

section
variable {w : World} {requests : List NetDiskRequest} (hs : Shape fl w.fs) (hnames : ∀ r ∈ requests, PlainNames r)
include hs hnames

variable (env) in
theorem serve_kept {s : Name} (h : (disk fl w).stored s = true) : ∀ done, done <+: requests →
    (disk fl (serve env fl w done)).stored s = true ∧
      (disk fl (serve env fl w done)).store s = (disk fl w).store s := by
  refine serve_invariant (fun _ w' => (disk fl w').stored s = true ∧ (disk fl w').store s = (disk fl w).store s)
    ⟨h, rfl⟩ ?_
  rintro done r hpre ⟨hst, hstore⟩
  have hs' := serve_shape env hs hnames done ((List.prefix_append done [r]).trans hpre)
  obtain ⟨_, hdisk, _⟩ := handle_spec env hs' (hnames r (hpre.subset (by simp)))
  obtain ⟨h1, h2⟩ := Disk.store_kept (r := Part.of r) hst
  rw [hdisk]
  exact ⟨h1, h2.trans hstore⟩

/-- The files that get stored in a run have the digests that their signs say exactly when each request
that completes a file completes one with that digest; and whatever is stored first stays. -/
theorem addressed_iff :
    ((∀ done, done <+: requests → Disk.Addressed (disk fl w) (disk fl (serve env fl w done))) ↔
      ∀ done r, done ++ [r] <+: requests → ¬ (disk fl (serve env fl w done)).CompletesOther (Part.of r)) ∧
    ∀ done more, done ++ more <+: requests → ∀ s, (disk fl (serve env fl w done)).stored s = true →
      (disk fl (serve env fl w (done ++ more))).stored s = true ∧
        (disk fl (serve env fl w (done ++ more))).store s = (disk fl (serve env fl w done)).store s := by
  have hstep : ∀ done r, done ++ [r] <+: requests →
      disk fl (serve env fl w (done ++ [r])) = (disk fl (serve env fl w done)).upload (Part.of r) := by
    intro done r hpre
    have hs' := serve_shape env hs hnames done ((List.prefix_append done [r]).trans hpre)
    rw [serve_append]
    exact (handle_spec env hs' (hnames r (hpre.subset (by simp)))).2.1
  have hkeep : ∀ done r, done ++ [r] <+: requests → ∀ s, (disk fl w).stored s = true →
      (disk fl (serve env fl w done)).stored s = true := fun done r hpre s h =>
    (serve_kept env hs hnames h done ((List.prefix_append done [r]).trans hpre)).1
  refine ⟨⟨?_, ?_⟩, ?_⟩
  · intro h done r hpre
    have hafter := h (done ++ [r]) hpre
    rw [hstep done r hpre] at hafter
    exact (Disk.addressed_upload (hkeep done r hpre) (h done ((List.prefix_append done [r]).trans hpre))).mp hafter
  · intro hok
    refine serve_invariant (fun _ w' => Disk.Addressed (disk fl w) (disk fl w')) ?_ ?_
    · intro s h1 h2
      rw [h1] at h2
      simp at h2
    · intro done r hpre h
      rw [← serve_append, hstep done r hpre]
      exact (Disk.addressed_upload (hkeep done r hpre) h).mpr (hok done r hpre)
  · intro done more hpre s hst
    have hmore : ∀ r ∈ more, PlainNames r := fun r hr => hnames r (hpre.subset (by simp [hr]))
    have hs' := serve_shape env hs hnames done ((List.prefix_append done more).trans hpre)
    have h := serve_kept env hs' hmore hst more List.prefix_rfl
    simpa [serve] using h

end

/-! ### A file under another sign -/

theorem store_none (fl : Flags) (fs : FS) (s : Name) (k : Nat)
    (h : ∀ f ∈ fs.entries (fl.filesRoot ++ [s]), f ∈ (List.range k).map toString) (i : Nat) (hi : k ≤ i) :
    (Disk.of fl fs).store s i = none := by
  by_contra hne
  have hmem : toString i ∈ fs.entries (fl.filesRoot ++ [s]) := by
    rw [FileTree.mem_entries, List.append_assoc]
    intro hnode
    have hnode' : fs.node (fl.filesRoot ++ [s, toString i]) = none := hnode
    simp [Disk.of, fileAt, hnode'] at hne
  obtain ⟨j, hj, he⟩ := List.mem_map.mp (h _ hmem)
  rw [toString_inj.mp he, List.mem_range] at hj
  omega

namespace OtherSign

/-- The only part of a file: its digest is right, and the file's sign is that of `ab`. -/
def request : NetDiskRequest where
  opType := 5
  shard := 1
  partIndex := 0
  partSign := Md5.hexDigest (ascii "x")
  fileName := ascii "ab.txt"
  fileSign := TwoParts.sign
  usr := ascii "bob"
  body := ascii "x"

theorem plainNames : ∀ r ∈ [request], PlainNames r := by
  intro r hr
  rw [List.mem_singleton.mp hr]
  exact ⟨by decide +kernel, by decide +kernel⟩

def after : World := serve .bare .short TwoParts.world [request]

theorem whole_after : whole ((disk .short after).store TwoParts.sign) = ascii "x" := by
  have hnone := store_none .short after.fs TwoParts.sign 1 (by decide +kernel)
  rw [disk, whole_eq (by omega) hnone]
  decide +kernel

theorem digest_after : Md5.hexDigest (whole ((disk .short after).store TwoParts.sign)) ≠ TwoParts.sign := by
  rw [whole_after]
  decide +kernel

end OtherSign

theorem addressed_other :
    ((∀ done, done <+: [OtherSign.request] →
        Disk.Addressed (disk .short TwoParts.world) (disk .short (serve .bare .short TwoParts.world done))) ↔
      ∀ done r, done ++ [r] <+: [OtherSign.request] →
        ¬ (disk .short (serve .bare .short TwoParts.world done)).CompletesOther (Part.of r)) ∧
    ∀ done more, done ++ more <+: [OtherSign.request] → ∀ s,
      (disk .short (serve .bare .short TwoParts.world done)).stored s = true →
      (disk .short (serve .bare .short TwoParts.world (done ++ more))).stored s = true ∧
        (disk .short (serve .bare .short TwoParts.world (done ++ more))).store s =
          (disk .short (serve .bare .short TwoParts.world done)).store s :=
  addressed_iff (EmptyDirs.start _ _).shape OtherSign.plainNames

/-- One request stores `x` under the digest of `ab`. -/
theorem other_sign_published :
    ¬ Disk.Addressed (disk .short TwoParts.world) (disk .short OtherSign.after) :=
  fun h => OtherSign.digest_after (h TwoParts.sign (by decide +kernel) (by decide +kernel))

end NetDisk
