import NetDisk.Client

/-!
# The number of parts

`doUploadFile` puts the length of the file, a `long`, into an `int` before it divides.
-/

namespace NetDisk

namespace BrpcClient

/-- `shard` -/
def shardCount (content : Bytes) : Int := (toInt (getFileSize ⟨content, 0⟩)).tdiv maxSizePerShard + 1

theorem doUploadFile_shardCount {m : Local} {fileMd5 content : Bytes} (file usr : Bytes) (hmd5 : m.md5Sum = some fileMd5)
    (hcontent : m.content = some content) : doUploadFile m file usr =
      uploadParts m file usr fileMd5 (shardCount content) (shardCount content).toNat 0 ⟨content, 0⟩ := by
  unfold doUploadFile
  rw [hmd5, hcontent]
  rfl

/-! ## The length as an `int` -/

theorem toInt_spec (n : Int) : -2147483648 ≤ toInt n ∧ toInt n < 2147483648 ∧ ∃ k, n = toInt n + 4294967296 * k := by
  unfold toInt
  rw [Int.bmod_def]
  split
  · refine ⟨by omega, by omega, n / 4294967296, by omega⟩
  · refine ⟨by omega, by omega, n / 4294967296 + 1, by omega⟩

theorem shardCount_le_one {content : Bytes} (h : toInt (getFileSize ⟨content, 0⟩) < 0) : shardCount content ≤ 1 := by
  have hneg : (toInt (getFileSize ⟨content, 0⟩)).tdiv maxSizePerShard ≤ 0 := by
    rw [← Int.neg_neg (toInt _), Int.neg_tdiv]
    exact Int.neg_nonpos_of_nonneg (Int.tdiv_nonneg (by omega) (by decide))
  unfold shardCount
  omega

theorem shardCount_of_nonneg {content : Bytes} (h : 0 ≤ toInt (getFileSize ⟨content, 0⟩)) :
    shardCount content = toInt (getFileSize ⟨content, 0⟩) / 2 + 1 := by
  unfold shardCount
  rw [Int.tdiv_eq_ediv_of_nonneg h]
  rfl

/-- The numbers fit together only for a length that an `int` holds. -/
theorem shardCount_iff (content : Bytes) : (1 ≤ shardCount content ∧
    (shardCount content - 1) * maxSizePerShard ≤ content.length ∧
    (content.length : Int) ≤ shardCount content * maxSizePerShard) ↔ content.length < 2147483648 := by
  have hsize : getFileSize ⟨content, 0⟩ = content.length := rfl
  obtain ⟨hlow, hhigh, k, hk⟩ := toInt_spec (getFileSize ⟨content, 0⟩)
  have htwo : (maxSizePerShard : Int) = 2 := rfl
  rw [htwo]
  by_cases hneg : toInt (getFileSize ⟨content, 0⟩) < 0
  · have hle := shardCount_le_one hneg
    refine iff_of_false (fun h => ?_) (by omega)
    omega
  · have heq := shardCount_of_nonneg (not_lt.mp hneg)
    constructor
    · intro h
      omega
    · intro h
      refine ⟨by omega, by omega, by omega⟩

/-! ## What the loop reads -/

/-- What so many rounds read, and the file behind it. -/
def readParts : Nat → File → List Bytes × File
  | 0, fp => ([], fp)
  | count + 1, fp =>
    let r := fread maxSizePerShard fp
    let rest := readParts count r.2
    (r.1 :: rest.1, rest.2)

theorem readParts_spec (content : Bytes) (count pos : Nat) :
    (readParts count ⟨content, pos⟩).1.flatten = (content.drop pos).take (maxSizePerShard * count) ∧
      (readParts count ⟨content, pos⟩).2.pos = pos + ((content.drop pos).take (maxSizePerShard * count)).length := by
  induction count generalizing pos with
  | zero => simp [readParts]
  | succ count ih =>
    have hnext := ih (pos + ((content.drop pos).take maxSizePerShard).length)
    have hdrop : content.drop (pos + ((content.drop pos).take maxSizePerShard).length) =
        (content.drop pos).drop maxSizePerShard := by
      rw [List.drop_drop, List.length_take, List.length_drop]
      by_cases hle : maxSizePerShard ≤ content.length - pos
      · rw [Nat.min_eq_left hle]
      · rw [List.drop_eq_nil_of_le (by omega), List.drop_eq_nil_of_le (by omega)]
    rw [hdrop] at hnext
    unfold readParts fread
    dsimp only
    rw [List.flatten_cons, hnext.1, hnext.2, Nat.mul_succ, Nat.add_comm (maxSizePerShard * count), List.take_add,
      List.length_append]
    exact ⟨rfl, Nat.add_assoc _ _ _⟩

theorem uploadParts_length {m : Local} {file usr fileMd5 : Bytes} {shard : Int} {count k : Nat} {fp : File}
    {sent : List NetDiskRequest} (h : uploadParts m file usr fileMd5 shard count k fp = some sent) :
    sent.length = count := by
  induction count generalizing k fp sent with
  | zero =>
    unfold uploadParts at h
    rw [← Option.some.inj h]
    rfl
  | succ count ih =>
    unfold uploadParts at h
    split at h
    · cases h
    · obtain ⟨rest, hrest, rfl⟩ := Option.map_eq_some_iff.mp h
      rw [List.length_cons, ih hrest]

/-- The parts begin in the file and go up to its end, the loop reads all of it, and an upload that does not fail sends
every part. -/
structure Covers (content : Bytes) : Prop where
  one_le : 1 ≤ shardCount content
  starts : (shardCount content - 1) * maxSizePerShard ≤ content.length
  ends : (content.length : Int) ≤ shardCount content * maxSizePerShard
  reads : (readParts (shardCount content).toNat ⟨content, 0⟩).1.flatten = content
  reaches : (readParts (shardCount content).toNat ⟨content, 0⟩).2.pos = content.length
  inside : ∀ k < (shardCount content).toNat, maxSizePerShard * k ≤ content.length
  sends : ∀ m : Local, m.md5Sum ≠ none → m.content = some content → ∀ file usr sent,
    doUploadFile m file usr = some sent → sent ≠ [] ∧ sent.length = shardCount content

theorem covers_iff (content : Bytes) : Covers content ↔ content.length < 2147483648 := by
  constructor
  · exact fun h => (shardCount_iff content).mp ⟨h.one_le, h.starts, h.ends⟩
  · intro hlen
    obtain ⟨hone, hstarts, hends⟩ := (shardCount_iff content).mpr hlen
    have htwo : maxSizePerShard = 2 := rfl
    have hall : content.length ≤ maxSizePerShard * (shardCount content).toNat := by
      rw [htwo] at hends ⊢
      omega
    have hread := readParts_spec content (shardCount content).toNat 0
    rw [List.drop_zero, List.take_of_length_le hall, Nat.zero_add] at hread
    refine ⟨hone, hstarts, hends, hread.1, hread.2, fun k hk => ?_, fun m hmd5 hcontent file usr sent hsent => ?_⟩
    · rw [htwo] at hstarts ⊢
      omega
    · obtain ⟨fileMd5, hfileMd5⟩ := Option.ne_none_iff_exists'.mp hmd5
      rw [doUploadFile_shardCount file usr hfileMd5 hcontent] at hsent
      have hcount := uploadParts_length hsent
      refine ⟨fun hnil => ?_, by omega⟩
      rw [hnil, List.length_nil] at hcount
      omega

/-! ### Two long files -/

namespace Long

def file (n : Nat) : Bytes := List.replicate n (ch 'a')

def disk (n : Nat) : Local where
  md5Sum := some (Md5.hexDigest (file n))
  content := some (file n)
  malloc _ := ⟨[0, 0, 0], by decide⟩

theorem shardCount_file (n : Nat) : shardCount (file n) = (toInt n).tdiv maxSizePerShard + 1 := by
  unfold shardCount getFileSize file
  rw [List.length_replicate]

end Long

/-- Of 2 GiB nothing is sent, and of 4 GiB and a byte one part. -/
theorem long_not_covered :
    ¬ Covers (Long.file 2147483648) ∧ shardCount (Long.file 2147483648) = -1073741823 ∧
    doUploadFile (Long.disk 2147483648) (ascii "a") (ascii "bob") = some [] ∧
    ¬ Covers (Long.file 4294967297) ∧ shardCount (Long.file 4294967297) = 1 := by
  have hcount : shardCount (Long.file 2147483648) = -1073741823 := by
    rw [Long.shardCount_file]
    decide
  refine ⟨?_, hcount, ?_, ?_, ?_⟩
  · rw [covers_iff, Long.file, List.length_replicate]
    omega
  · rw [doUploadFile_shardCount (m := Long.disk 2147483648) (ascii "a") (ascii "bob") rfl rfl, hcount]
    rfl
  · rw [covers_iff, Long.file, List.length_replicate]
    omega
  · rw [Long.shardCount_file]
    decide

end BrpcClient

end NetDisk
