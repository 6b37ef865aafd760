import NetDisk.Server

/-!
# What gets published

The count of the parts decides when a file is published, and not their digests: a part that failed
its check is still there, and counts.
-/

namespace NetDisk

open Machine UploadRpc Server

variable {env : Env} {fl : Flags}

/-! ## Parts with fixed digests -/

namespace Disk

variable (n : Name → Nat) (d : Name → Nat → Bytes) {disk : Disk} {r : Part}

/-- Each part that has arrived has a number below the file's count. -/
def InRange (disk : Disk) : Prop := ∀ u s i, disk.part u s i ≠ none → i < n s

/-- A stored file has exactly its parts, each with its digest. -/
def Verified (disk : Disk) : Prop :=
  ∀ s, disk.stored s = true →
    ∀ i, (disk.store s i ≠ none ↔ i < n s) ∧ ∀ c, disk.store s i = some c → Md5.hexDigest c = d s i

/-- The part passes its check and is the last one missing, while another one has a wrong digest. -/
def CompletesDamaged (disk : Disk) (r : Part) : Prop :=
  disk.user r.usr = true ∧ disk.stored r.sign = false ∧ r.count = n r.sign ∧
    Md5.hexDigest (disk.content r) = r.digest ∧
    (∀ j < n r.sign, j ≠ r.index → disk.part r.usr r.sign j ≠ none) ∧
    ∃ j c, j ≠ r.index ∧ disk.part r.usr r.sign j = some c ∧ Md5.hexDigest c ≠ d r.sign j

/-- A part of a file with `n` parts, whatever its body is. -/
structure Fits (r : Part) : Prop where
  index_lt : r.index < n r.sign
  le_count : n r.sign ≤ r.count
  digest_eq : r.digest = d r.sign r.index

variable {n d}

theorem inRange_putPart (hr : r.index < n r.sign) (h : disk.InRange n) : (disk.putPart r).InRange n := by
  intro u s i hp
  rw [part_putPart] at hp
  split at hp
  · rename_i he
    rw [he.2.1, he.2.2]
    exact hr
  · exact h u s i hp

theorem inRange_upload (hr : r.index < n r.sign) (h : disk.InRange n) : (disk.upload r).InRange n := by
  intro u s i hp
  rw [part_upload] at hp
  split_ifs at hp with h1 h2
  · exact absurd rfl hp
  · rw [h2.2.2.1, h2.2.2.2]
    exact hr
  · exact h u s i hp

theorem parts_of_published (hr : Fits n d r) (h : disk.InRange n) (hout : disk.outcome r = .published) (i : Nat) :
    (disk.putPart r).part r.usr r.sign i ≠ none ↔ i < n r.sign := by
  obtain ⟨_, _, _, hcount⟩ := outcome_published.mp hout
  exact arrived_of_ncard _ (inRange_putPart hr.index_lt h r.usr r.sign) (hcount ▸ hr.le_count) i

theorem verified_upload (hr : Fits n d r) (h : disk.InRange n) (hv : disk.Verified n d)
    (hok : ¬ disk.CompletesDamaged n d r) : (disk.upload r).Verified n d := by
  intro s hs i
  rw [store_upload]
  split
  · rename_i hpub
    obtain ⟨hout, rfl⟩ := hpub
    have hparts := parts_of_published hr h hout
    refine ⟨hparts i, fun c hc => ?_⟩
    obtain ⟨huser, hstored, hgood, hcount⟩ := outcome_published.mp hout
    rw [part_putPart] at hc
    split at hc
    · rename_i he
      rw [he.2.2, ← hr.digest_eq, ← hgood, ← Option.some.inj hc]
    · rename_i hne
      by_contra hbad
      refine hok ⟨huser, hstored, ?_, hgood, ?_, i, c, fun he => hne ⟨rfl, rfl, he⟩, hc, hbad⟩
      · rw [← hcount, ncard_of_arrived _ hparts]
      · intro j hj hji
        have := (hparts j).mpr hj
        rwa [part_putPart, if_neg fun he => hji he.2.2] at this
  · rename_i hpub
    refine hv s ?_ i
    rcases (stored_upload disk r s).mp hs with h' | h'
    · exact h'
    · exact absurd h' hpub

theorem published_of_damaged (hr : Fits n d r) (h : disk.InRange n) (hbad : disk.CompletesDamaged n d r) :
    disk.outcome r = .published := by
  obtain ⟨huser, hstored, hcount, hgood, hall, _⟩ := hbad
  refine outcome_published.mpr ⟨huser, hstored, hgood, ?_⟩
  rw [hcount]
  apply ncard_of_arrived
  intro i
  constructor
  · exact inRange_putPart hr.index_lt h r.usr r.sign i
  · intro hi
    rw [part_putPart]
    by_cases he : i = r.index
    · simp [he]
    · rw [if_neg fun h' => he h'.2.2]
      exact hall i hi he

theorem not_verified_of_damaged (hr : Fits n d r) (h : disk.InRange n) (hbad : disk.CompletesDamaged n d r) :
    ¬ (disk.upload r).Verified n d := by
  intro hv
  have hout := published_of_damaged hr h hbad
  obtain ⟨_, _, _, _, _, j, c, hj, hc, hdig⟩ := hbad
  refine hdig ((hv r.sign ((stored_upload disk r r.sign).mpr (Or.inr ⟨hout, rfl⟩)) j).2 c ?_)
  rw [store_upload, if_pos ⟨hout, rfl⟩, part_putPart, if_neg fun he => hj he.2.2, hc]

end Disk

/-! ## The same below `files_dir` -/

/-- If `files_dir/s` exists, it has exactly the files `0` to `n s - 1`, and each has its digest. -/
def StoreVerified (fl : Flags) (n : Name → Nat) (d : Name → Nat → Bytes) (fs : FS) : Prop :=
  ∀ s, fs.node (fl.filesRoot ++ [s]) = some .dir →
    (∀ f, fs.node (fl.filesRoot ++ [s, f]) ≠ none ↔ ∃ i < n s, f = toString i) ∧
    ∀ i < n s, ∃ c, fs.node (fl.filesRoot ++ [s, toString i]) = some (.file c) ∧ Md5.hexDigest c = d s i

theorem storeVerified_iff {fs : FS} (hs : Shape fl fs) (n : Name → Nat) (d : Name → Nat → Bytes) :
    StoreVerified fl n d fs ↔ (Disk.of fl fs).Verified n d := by
  constructor
  · intro h s hst i
    obtain ⟨hnames, hdig⟩ := h s (by simpa [Disk.of] using hst)
    have hiff : (Disk.of fl fs).store s i ≠ none ↔ i < n s := by
      constructor
      · intro hne
        obtain ⟨j, hj, he⟩ := (hnames (toString i)).mp ((Disk.store_names hs s _).mpr ⟨i, hne, rfl⟩)
        rwa [toString_inj.mp he]
      · intro hi
        obtain ⟨c, hc, _⟩ := hdig i hi
        rw [Disk.store_eq_some.mpr hc]
        simp
    refine ⟨hiff, fun c hc => ?_⟩
    obtain ⟨c', hc', hd⟩ := hdig i (hiff.mp (by rw [hc]; simp))
    rw [Disk.store_eq_some.mp hc] at hc'
    obtain rfl : c = c' := by simpa using hc'
    exact hd
  · intro h s hst
    have hv := h s (by simpa [Disk.of] using hst)
    refine ⟨fun f => ?_, fun i hi => ?_⟩
    · rw [Disk.store_names hs]
      exact exists_congr fun i => and_congr_left fun _ => (hv i).1
    · obtain ⟨c, hc⟩ := Option.ne_none_iff_exists'.mp ((hv i).1.mpr hi)
      exact ⟨c, Disk.store_eq_some.mp hc, (hv i).2 c hc⟩

/-! ## Damaged bodies -/

/-- A request for a file with `n` parts of fixed digests, with any body. -/
structure Uploads (n : Name → Nat) (d : Name → Nat → Bytes) (r : NetDiskRequest) : Prop where
  usr_alnum : Alnum r.usr
  sign_hex : Hex32 r.fileSign
  shard_eq : r.shard.toNat = n r.fileSign
  index_lt : r.partIndex.toNat < n r.fileSign
  sign_eq : r.partSign = d r.fileSign r.partIndex.toNat

namespace Uploads

variable {n : Name → Nat} {d : Name → Nat → Bytes} {r : NetDiskRequest} (h : Uploads n d r)
include h

theorem plainNames : PlainNames r := ⟨h.usr_alnum.plain, h.sign_hex.plain⟩

theorem fits : Disk.Fits n d (Part.of r) where
  index_lt := h.index_lt
  le_count := h.shard_eq ▸ le_shardSize r.shard
  digest_eq := h.sign_eq

end Uploads

section
variable {n : Name → Nat} {d : Name → Nat → Bytes} {w : World} {requests : List NetDiskRequest}
  (hempty : EmptyDirs fl w.fs) (hreq : ∀ r ∈ requests, Uploads n d r)
include hempty hreq

variable (env) in
theorem serve_inRange : ∀ done, done <+: requests →
    Shape fl (serve env fl w done).fs ∧ (disk fl (serve env fl w done)).InRange n := by
  refine serve_invariant (fun _ w => Shape fl w.fs ∧ (disk fl w).InRange n) ?_ ?_
  · exact ⟨hempty.shape, fun u s i h => absurd (hempty.part_none u s i) h⟩
  · rintro done r hpre ⟨hs, hrange⟩
    have hr := hreq r (hpre.subset (by simp))
    obtain ⟨hs', hdisk, _⟩ := handle_spec env hs hr.plainNames
    rw [hdisk]
    exact ⟨hs', Disk.inRange_upload hr.fits.index_lt hrange⟩

/-- The store is verified all along a run exactly when no part that passes its check completes a set of
parts with a damaged one in it. -/
theorem store_verified_iff :
    (∀ done, done <+: requests → StoreVerified fl n d (serve env fl w done).fs) ↔
      ∀ done r, done ++ [r] <+: requests →
        ¬ (disk fl (serve env fl w done)).CompletesDamaged n d (Part.of r) := by
  have hinv := serve_inRange env hempty hreq
  constructor
  · intro hv done r hpre hbad
    have hr := hreq r (hpre.subset (by simp))
    obtain ⟨hs, hrange⟩ := hinv done ((List.prefix_append done [r]).trans hpre)
    obtain ⟨hs', hdisk, _⟩ := handle_spec env hs hr.plainNames
    have hafter := hv (done ++ [r]) hpre
    rw [serve_append, storeVerified_iff hs', ← disk, hdisk] at hafter
    exact Disk.not_verified_of_damaged hr.fits hrange hbad hafter
  · intro hok
    refine serve_invariant (fun _ w => StoreVerified fl n d w.fs) ?_ ?_
    · intro s hs
      exact absurd hs (by simp [hempty.files_none])
    · intro done r hpre hv
      have hr := hreq r (hpre.subset (by simp))
      obtain ⟨hs, hrange⟩ := hinv done ((List.prefix_append done [r]).trans hpre)
      obtain ⟨hs', hdisk, _⟩ := handle_spec env hs hr.plainNames
      rw [storeVerified_iff hs', ← disk, hdisk]
      exact Disk.verified_upload hr.fits hrange ((storeVerified_iff hs n d).mp hv) (hok done r hpre)

end

/-! ### A file of two parts -/

namespace TwoParts

def sign : Bytes := Md5.hexDigest (ascii "ab")

def digest : Name → Nat → Bytes := fun _ i => Md5.hexDigest (if i = 0 then ascii "a" else ascii "b")

/-- Part `i`, with any body. -/
def request (usr : String) (i : UInt32) (body : String) : NetDiskRequest where
  opType := 5
  shard := 2
  partIndex := i
  partSign := digest sign i.toNat
  fileName := ascii "ab.txt"
  fileSign := sign
  usr := ascii usr
  body := ascii body

theorem one_row : Stmt.OneRow sign (ascii "ab.txt") := .of_litSafe (by decide +kernel) (by decide +kernel)

def world : World := start .short [ascii "alice", ascii "bob"]

/-- Two calls at once. -/
def first : Fin 2 := 0
def second : Fin 2 := 1

theorem uploads {usr : String} {i : UInt32} (hu : Alnum (ascii usr)) (hi : i.toNat < 2) (body : String) :
    Uploads (fun _ => 2) digest (request usr i body) :=
  ⟨hu, (by decide +kernel : Hex32 sign), rfl, hi, rfl⟩

/-- The first part is damaged. -/
def damaged : List NetDiskRequest := [request "bob" 0 "x", request "bob" 1 "b"]

theorem damaged_uploads : ∀ r ∈ damaged, Uploads (fun _ => 2) digest r := by
  intro r hr
  simp only [damaged, List.mem_cons, List.not_mem_nil, or_false] at hr
  rcases hr with rfl | rfl
  · exact uploads (by decide +kernel) (by decide) "x"
  · exact uploads (by decide +kernel) (by decide) "b"

end TwoParts

theorem store_verified_two :
    (∀ done, done <+: TwoParts.damaged →
      StoreVerified .short (fun _ => 2) TwoParts.digest (serve .bare .short TwoParts.world done).fs) ↔
    ∀ done r, done ++ [r] <+: TwoParts.damaged →
      ¬ (disk .short (serve .bare .short TwoParts.world done)).CompletesDamaged (fun _ => 2) TwoParts.digest
        (Part.of r) :=
  store_verified_iff (EmptyDirs.start _ _) TwoParts.damaged_uploads

/-- The damaged part is rejected, but its file stays; the second part is good, and publishes both. -/
theorem damaged_part_published :
    (∀ r ∈ TwoParts.damaged, Uploads (fun _ => 2) TwoParts.digest r) ∧
    ¬ StoreVerified .short (fun _ => 2) TwoParts.digest
      (serve .bare .short TwoParts.world TwoParts.damaged).fs := by
  refine ⟨TwoParts.damaged_uploads, fun h => ?_⟩
  obtain ⟨c, hc, hdig⟩ := (h TwoParts.sign (by decide +kernel)).2 0 (by decide)
  have hx : some (Node.file c) = some (Node.file (ascii "x")) := hc.symm.trans (by decide +kernel)
  obtain rfl : c = ascii "x" := by simpa using hx
  exact absurd hdig (by decide +kernel)

end NetDisk
