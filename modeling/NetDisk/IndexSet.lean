import NetDisk.Publish

/-!
# Which parts are published

A file is published when it has as many parts as the request's `shard`. Nothing compares their numbers
with it.
-/

namespace NetDisk

open Machine UploadRpc Server

variable {env : Env} {fl : Flags}

namespace Disk

variable {disk : Disk} {r : Part} {n : Nat}

/-- The part passes its check and makes as many parts as it says, one of them with a number from `n` on. -/
def CompletesForeign (disk : Disk) (r : Part) (n : Nat) : Prop :=
  disk.user r.usr = true ∧ disk.stored r.sign = false ∧ Md5.hexDigest (disk.content r) = r.digest ∧
    ((disk.putPart r).arrived r.usr r.sign).ncard = r.count ∧
    ∃ i, n ≤ i ∧ (i = r.index ∨ disk.part r.usr r.sign i ≠ none)

theorem completesForeign_iff : disk.CompletesForeign r n ↔
    disk.outcome r = .published ∧ ∃ i, n ≤ i ∧ (disk.putPart r).part r.usr r.sign i ≠ none := by
  simp only [CompletesForeign, outcome_published, putPart_arrived, and_assoc]

/-- A published file has exactly the numbers below `n`, unless a part completes it that has, or finds, a number
from `n` on. -/
theorem published_numbers (hn : n ≤ r.count) (hout : disk.outcome r = .published) :
    (∀ i, (disk.upload r).store r.sign i ≠ none ↔ i < n) ↔ ¬ disk.CompletesForeign r n := by
  have hstore : ∀ i, (disk.upload r).store r.sign i = (disk.putPart r).part r.usr r.sign i := by
    intro i
    rw [store_upload, if_pos ⟨hout, rfl⟩]
  simp only [hstore, completesForeign_iff, hout, true_and]
  constructor
  · rintro h ⟨i, hi, hpart⟩
    have := (h i).mp hpart
    omega
  · intro h
    obtain ⟨_, _, _, hcount⟩ := outcome_published.mp hout
    refine arrived_of_ncard _ (fun i hi => ?_) (hcount ▸ hn)
    by_contra hge
    exact h ⟨i, by omega, hi⟩

end Disk

/-- If the request moves the parts to the stored files, they are the files `0` to `shard - 1`. -/
def FullSet (env : Env) (fl : Flags) (w : World) (r : NetDiskRequest) : Prop :=
  w.fs.node (fl.filesRoot ++ [r.fileSign]) ≠ some .dir →
  (handle env fl w r).2.fs.node (fl.filesRoot ++ [r.fileSign]) = some .dir →
  ∀ f, (handle env fl w r).2.fs.node (fl.filesRoot ++ [r.fileSign, f]) ≠ none ↔ ∃ i < r.shard.toNat, f = toString i

theorem fullSet_iff {w : World} {r : NetDiskRequest} (hs : Shape fl w.fs) (hr : PlainNames r) :
    FullSet env fl w r ↔ ¬ (disk fl w).CompletesForeign (Part.of r) r.shard.toNat := by
  obtain ⟨hs', hdisk, _⟩ := handle_spec env hs hr
  have hbefore : w.fs.node (fl.filesRoot ++ [r.fileSign]) = some .dir ↔ (disk fl w).stored r.fileSign = true := by
    simp [disk, Disk.of]
  have hafter : (handle env fl w r).2.fs.node (fl.filesRoot ++ [r.fileSign]) = some .dir ↔
      ((disk fl w).upload (Part.of r)).stored r.fileSign = true := by
    rw [← hdisk]
    simp [disk, Disk.of]
  have hfiles : ∀ f, (handle env fl w r).2.fs.node (fl.filesRoot ++ [r.fileSign, f]) ≠ none ↔
      ∃ i, ((disk fl w).upload (Part.of r)).store r.fileSign i ≠ none ∧ f = toString i := by
    intro f
    rw [← hdisk]
    exact Disk.store_names hs' r.fileSign f
  unfold FullSet
  rw [Ne, hbefore, hafter, Disk.stored_upload]
  by_cases hout : (disk fl w).outcome (Part.of r) = .published
  · obtain ⟨_, hstored, _⟩ := Disk.outcome_published.mp hout
    have hstored' : ¬ (disk fl w).stored r.fileSign = true := by
      rw [show (disk fl w).stored r.fileSign = false from hstored]
      exact Bool.false_ne_true
    rw [← Disk.published_numbers (le_shardSize r.shard) hout]
    constructor
    · intro h i
      have hnames := h hstored' (Or.inr ⟨hout, rfl⟩)
      constructor
      · intro hi
        obtain ⟨j, hj, he⟩ := (hnames (toString i)).mp ((hfiles _).mpr ⟨i, hi, rfl⟩)
        rwa [toString_inj.mp he]
      · intro hi
        obtain ⟨j, hj, he⟩ := (hfiles _).mp ((hnames (toString i)).mpr ⟨i, hi, rfl⟩)
        rwa [toString_inj.mp he]
    · intro h _ _ f
      rw [hfiles]
      exact exists_congr fun i => and_congr_left fun _ => h i
  · refine iff_of_true ?_ fun h => hout (Disk.completesForeign_iff.mp h).1
    intro hnot h
    exact absurd (h.resolve_left hnot).1 hout

/-- All along a run the files that are published are the right numbers exactly when no part completes a file that
has, or gets, a number that is not below its `shard`. -/
theorem full_set_iff {w : World} {requests : List NetDiskRequest} (hs : Shape fl w.fs)
    (hnames : ∀ r ∈ requests, PlainNames r) :
    (∀ done r, done ++ [r] <+: requests → FullSet env fl (serve env fl w done) r) ↔
      ∀ done r, done ++ [r] <+: requests →
        ¬ (disk fl (serve env fl w done)).CompletesForeign (Part.of r) r.shard.toNat := by
  refine forall₃_congr fun done r hpre => fullSet_iff ?_ (hnames r (hpre.subset (by simp)))
  exact serve_shape env hs hnames done ((List.prefix_append done [r]).trans hpre)

namespace Foreign

/-- The only part of a file, with the number 5. -/
def request : NetDiskRequest where
  opType := 5
  shard := 1
  partIndex := 5
  partSign := Md5.hexDigest (ascii "x")
  fileName := ascii "x.txt"
  fileSign := Md5.hexDigest (ascii "x")
  usr := ascii "bob"
  body := ascii "x"

theorem plainNames : ∀ r ∈ [request], PlainNames r := by
  intro r hr
  rw [List.mem_singleton.mp hr]
  exact ⟨by decide +kernel, by decide +kernel⟩

end Foreign

theorem full_set_foreign :
    (∀ done r, done ++ [r] <+: [Foreign.request] → FullSet .bare .short (serve .bare .short TwoParts.world done) r) ↔
      ∀ done r, done ++ [r] <+: [Foreign.request] →
        ¬ (disk .short (serve .bare .short TwoParts.world done)).CompletesForeign (Part.of r) r.shard.toNat :=
  full_set_iff (EmptyDirs.start _ _).shape Foreign.plainNames

/-- One part is all of the file, whatever its number is. -/
theorem foreign_published : ¬ FullSet .bare .short TwoParts.world Foreign.request := by
  intro h
  have hnames := (h (by decide +kernel) (by decide +kernel) (ascii "5")).mp (by decide +kernel)
  obtain ⟨i, hi, he⟩ := hnames
  have hzero : i = 0 := by
    have : i < 1 := hi
    omega
  rw [hzero] at he
  exact absurd he (by decide)

end NetDisk
