import NetDisk.Code.BrpcClient
import NetDisk.Md5Spec

/-!
# What the client splits

The client reads a slice of the file into memory that it has not cleared, and sends the text that starts
there: the slice up to a NUL in it, or with what is left in the memory behind it.
-/

namespace NetDisk

/-! ## Lists of pieces -/

section
variable {α : Type} {as bs : List (List α)}

theorem forall_right {β : Type} {R : β → α → Prop} {p : α → Prop} (hp : ∀ a b, R a b → p b) {l : List β} {l' : List α}
    (h : List.Forall₂ R l l') : ∀ b ∈ l', p b := by
  induction h with
  | nil => simp
  | cons hab _ ih => exact List.forall_mem_cons.mpr ⟨hp _ _ hab, ih⟩

theorem length_flatten_le (h : List.Forall₂ (· <+: ·) as bs) : as.flatten.length ≤ bs.flatten.length := by
  induction h with
  | nil => rfl
  | cons hab _ ih =>
    simp only [List.flatten_cons, List.length_append]
    exact Nat.add_le_add hab.length_le ih

theorem eq_of_flatten_eq (h : List.Forall₂ (· <+: ·) as bs) (heq : as.flatten = bs.flatten) : as = bs := by
  induction h with
  | nil => rfl
  | cons hab htail ih =>
    obtain ⟨r, rfl⟩ := hab
    have hle := length_flatten_le htail
    rw [List.flatten_cons, List.flatten_cons, List.append_assoc, List.append_cancel_left_eq] at heq
    have hr : r = [] := by
      rw [heq, List.length_append] at hle
      exact List.eq_nil_of_length_eq_zero (by omega)
    subst hr
    rw [List.append_nil, ih heq]

end

namespace BrpcClient

/-- The part of the file that belongs to a number. -/
def slice (content : Bytes) (k : Nat) : Bytes := (content.drop (maxSizePerShard * k)).take maxSizePerShard

theorem flatten_slices (content : Bytes) (k count : Nat) :
    ((List.range' k count).map (slice content)).flatten =
      (content.drop (maxSizePerShard * k)).take (maxSizePerShard * count) := by
  induction count generalizing k with
  | zero => simp
  | succ count ih =>
    rw [List.range'_succ, List.map_cons, List.flatten_cons, ih, slice, Nat.mul_succ maxSizePerShard count,
      Nat.add_comm (maxSizePerShard * count), List.take_add, List.drop_drop, Nat.mul_succ]

/-- The parts of a file: numbered from 0 on, with one count, each with the digest of its slice, and together the
file. -/
structure Lossless (content : Bytes) (sent : List NetDiskRequest) : Prop where
  index_eq : sent.map (·.partIndex.toNat) = List.range sent.length
  shard_eq : ∀ r ∈ sent, r.shard.toNat = sent.length
  body_eq : (sent.map (·.body)).flatten = content
  sign_eq : ∀ k r, sent[k]? = some r → r.partSign = Md5.hexDigest (slice content k)

/-! ## One part -/

theorem cStr_append {piece : Bytes} (h : (0 : Byte) ∉ piece) (rest : Bytes) :
    cStr (piece ++ rest) = piece ++ cStr rest := by
  rw [cStr, List.takeWhile_append_of_pos]
  · rfl
  · intro b hb
    have hne : b ≠ 0 := fun h0 => h (h0 ▸ hb)
    simpa using hne

theorem ofCharPtr_eq {piece rest : Bytes} (h : (0 : Byte) ∉ piece) :
    ofCharPtr (piece ++ rest) = some piece ↔ rest.head? = some 0 := by
  unfold ofCharPtr
  rw [cStr_append h]
  cases rest with
  | nil => simp [h]
  | cons b rest =>
    by_cases hb : b = 0
    · subst hb
      simp [cStr]
    · simp [cStr, hb]

theorem eq_cStr_of_ofCharPtr {mem str : Bytes} (h : ofCharPtr mem = some str) : str = cStr mem := by
  unfold ofCharPtr at h
  split at h
  · exact (Option.some.inj h).symm
  · cases h

section
variable (m : Local) (file usr fileMd5 : Bytes) (shard : Int) (content : Bytes)

/-- The memory of a part when its slice has been read into it. -/
def buffer (k : Nat) : Bytes := overlay (m.malloc k).bytes (slice content k)

/-- What is sent for a number. -/
def Sends (k : Nat) (request : NetDiskRequest) : Prop :=
  ∃ str, ofCharPtr (buffer m content k) = some str ∧
    request = partRequest file usr fileMd5 shard k (md5 str) str

theorem uploadParts_spec (count k pos : Nat) (sent : List NetDiskRequest)
    (hpos : pos = min (maxSizePerShard * k) content.length) :
    uploadParts m file usr fileMd5 shard count k ⟨content, pos⟩ = some sent ↔
      List.Forall₂ (Sends m file usr fileMd5 shard content) (List.range' k count) sent := by
  induction count generalizing k pos sent with
  | zero =>
    unfold uploadParts
    rw [List.range'_zero, List.forall₂_nil_left_iff, Option.some_inj, eq_comm]
  | succ count ih =>
    have hread : (content.drop pos).take maxSizePerShard = slice content k := by
      unfold slice
      by_cases hk : maxSizePerShard * k ≤ content.length
      · rw [hpos, Nat.min_eq_left hk]
      · rw [hpos, Nat.min_eq_right (by omega), List.drop_length, List.drop_eq_nil_of_le (by omega)]
    have hnext : pos + (slice content k).length = min (maxSizePerShard * (k + 1)) content.length := by
      unfold slice maxSizePerShard at *
      rw [List.length_take, List.length_drop]
      omega
    unfold uploadParts uploadPart fread
    simp only [hread]
    rw [List.range'_succ, List.forall₂_cons_left_iff]
    cases hstr : ofCharPtr (buffer m content k) with
    | none =>
      unfold buffer at hstr
      simp only [hstr]
      refine iff_of_false (by simp) ?_
      rintro ⟨request, rest, ⟨str, hsome, _⟩, _⟩
      rw [buffer, hstr] at hsome
      cases hsome
    | some str =>
      have hmine : Sends m file usr fileMd5 shard content k (partRequest file usr fileMd5 shard k (md5 str) str) :=
        ⟨str, hstr, rfl⟩
      unfold buffer at hstr
      simp only [hstr]
      rw [Option.map_eq_some_iff]
      constructor
      · rintro ⟨rest, hrest, rfl⟩
        exact ⟨_, rest, hmine, (ih (k + 1) _ rest hnext).mp hrest, rfl⟩
      · rintro ⟨request, rest, ⟨str', hsome, rfl⟩, hrest, rfl⟩
        rw [buffer, hstr] at hsome
        obtain rfl := Option.some.inj hsome
        exact ⟨rest, (ih (k + 1) _ rest hnext).mpr hrest, rfl⟩

end

/-! ## All parts -/

theorem shard_eq {content : Bytes} (hlen : content.length < 2147483648) :
    (toInt (getFileSize ⟨content, 0⟩)).tdiv maxSizePerShard + 1 = ((content.length / maxSizePerShard + 1 : Nat) : Int) := by
  have hint : toInt (getFileSize ⟨content, 0⟩) = content.length := by
    unfold toInt getFileSize
    rw [Int.bmod_def]
    dsimp only
    omega
  rw [hint, Int.tdiv_eq_ediv_of_nonneg (by omega)]
  push_cast
  rfl

section
variable {m : Local} {fileMd5 content : Bytes} (file usr : Bytes) (hmd5 : m.md5Sum = some fileMd5)
  (hcontent : m.content = some content) (hlen : content.length < 2147483648)
include hmd5 hcontent hlen

theorem doUploadFile_spec (sent : List NetDiskRequest) : doUploadFile m file usr = some sent ↔
    List.Forall₂ (Sends m file usr fileMd5 ((content.length / maxSizePerShard + 1 : Nat) : Int) content)
      (List.range' 0 (content.length / maxSizePerShard + 1)) sent := by
  unfold doUploadFile
  rw [hmd5, hcontent]
  dsimp only
  rw [shard_eq hlen, Int.toNat_natCast]
  exact uploadParts_spec m file usr fileMd5 _ content _ 0 0 sent (by simp)

omit hmd5 hcontent hlen in
theorem flatten_all : ((List.range' 0 (content.length / maxSizePerShard + 1)).map (slice content)).flatten = content := by
  rw [flatten_slices, Nat.mul_zero, List.drop_zero, List.take_of_length_le]
  unfold maxSizePerShard
  omega

omit hmd5 hcontent hlen in
theorem slice_no_nul (h : (0 : Byte) ∉ content) (k : Nat) : (0 : Byte) ∉ slice content k :=
  fun hmem => h (List.mem_of_mem_drop (List.mem_of_mem_take hmem))

theorem sent_slices {sent : List NetDiskRequest} (hsent : doUploadFile m file usr = some sent)
    (hbody : (sent.map (·.body)).flatten = content) : (0 : Byte) ∉ content ∧
      ∀ k ∈ List.range' 0 (content.length / maxSizePerShard + 1),
        ofCharPtr (buffer m content k) = some (slice content k) := by
  have hbodies := ((doUploadFile_spec file usr hmd5 hcontent hlen sent).mp hsent).imp
    (S := fun k r => ofCharPtr (buffer m content k) = some r.body) fun k r ⟨str, hstr, hr⟩ => by rw [hr]; exact hstr
  -- No text that is sent has a NUL, and so neither has the file.
  have hnul : (0 : Byte) ∉ content := by
    have hstrs : ∀ r ∈ sent, (0 : Byte) ∉ r.body := forall_right (fun k r hstr => by
      rw [eq_cStr_of_ofCharPtr hstr]
      exact zero_not_mem_cStr _) hbodies
    rw [← hbody, List.mem_flatten]
    rintro ⟨body, hmem, h0⟩
    obtain ⟨r, hr, rfl⟩ := List.mem_map.mp hmem
    exact hstrs r hr h0
  refine ⟨hnul, ?_⟩
  -- So each text starts with its slice, and is no longer than it.
  have hprefix : List.Forall₂ (· <+: ·)
      ((List.range' 0 (content.length / maxSizePerShard + 1)).map (slice content)) (sent.map (·.body)) := by
    rw [List.forall₂_map_left_iff, List.forall₂_map_right_iff]
    refine hbodies.imp fun k r hstr => ?_
    rw [eq_cStr_of_ofCharPtr hstr, buffer, overlay, cStr_append (slice_no_nul hnul k)]
    exact List.prefix_append _ _
  have heq := eq_of_flatten_eq hprefix ((flatten_all).trans hbody.symm)
  have hmap : (List.range' 0 (content.length / maxSizePerShard + 1)).map (fun k => ofCharPtr (buffer m content k)) =
      (sent.map (·.body)).map some := by
    rw [List.map_map, ← List.forall₂_eq_eq_eq, List.forall₂_map_left_iff, List.forall₂_map_right_iff]
    exact hbodies
  rw [← heq, List.map_map] at hmap
  exact List.map_inj_left.mp hmap

omit hmd5 hcontent in
theorem lossless_slices (fileMd5 : Bytes) : Lossless content
    ((List.range' 0 (content.length / maxSizePerShard + 1)).map fun k =>
      partRequest file usr fileMd5 ((content.length / maxSizePerShard + 1 : Nat) : Int) k (md5 (slice content k))
        (slice content k)) := by
  have hcount : content.length / maxSizePerShard + 1 < 2 ^ 32 := by
    unfold maxSizePerShard
    omega
  refine ⟨?_, ?_, ?_, ?_⟩
  · rw [List.map_map, List.length_map, List.length_range', List.range_eq_range']
    conv_rhs => rw [← List.map_id (List.range' 0 _)]
    refine List.map_congr_left fun k hk => ?_
    rw [List.mem_range'_1] at hk
    change (UInt32.ofNat k).toNat = k
    rw [UInt32.toNat_ofNat', Nat.mod_eq_of_lt (by omega)]
  · intro r hr
    obtain ⟨k, _, rfl⟩ := List.mem_map.mp hr
    rw [List.length_map, List.length_range']
    change (UInt32.ofInt ((content.length / maxSizePerShard + 1 : Nat) : Int)).toNat = _
    generalize content.length / maxSizePerShard + 1 = count at hcount
    rw [UInt32.ofInt, UInt32.toNat_ofNat']
    omega
  · rw [List.map_map]
    exact flatten_all
  · intro k r hk
    rw [List.getElem?_map, Option.map_eq_some_iff] at hk
    obtain ⟨k', hk', rfl⟩ := hk
    have hlt := (List.getElem?_eq_some_iff.mp hk').1
    rw [List.length_range'] at hlt
    rw [List.getElem?_range' hlt, Nat.zero_add, Nat.one_mul] at hk'
    obtain rfl := Option.some.inj hk'
    have hpiece : (slice content k).length < 2 ^ 32 := by
      unfold slice maxSizePerShard
      rw [List.length_take]
      omega
    exact md5_eq _ hpiece

/-- The split is lossless exactly when the file has no NUL, and there is one in memory behind each slice. -/
theorem split_lossless_iff : (∃ sent, doUploadFile m file usr = some sent ∧ Lossless content sent) ↔
    (0 : Byte) ∉ content ∧ ∀ k < content.length / maxSizePerShard + 1,
      (m.malloc k).bytes[(slice content k).length]? = some 0 := by
  have hnext : ∀ k, (0 : Byte) ∉ content → (ofCharPtr (buffer m content k) = some (slice content k) ↔
      (m.malloc k).bytes[(slice content k).length]? = some 0) := by
    intro k h0
    rw [buffer, overlay, ofCharPtr_eq (slice_no_nul h0 k), List.head?_drop]
  constructor
  · rintro ⟨sent, hsent, hlossless⟩
    obtain ⟨h0, hall⟩ := sent_slices file usr hmd5 hcontent hlen hsent hlossless.body_eq
    exact ⟨h0, fun k hk => (hnext k h0).mp (hall k (by simpa using hk))⟩
  · rintro ⟨h0, hall⟩
    have hsends : ∀ k ∈ List.range' 0 (content.length / maxSizePerShard + 1),
        ofCharPtr (buffer m content k) = some (slice content k) :=
      fun k hk => (hnext k h0).mpr (hall k (by simpa using hk))
    refine ⟨(List.range' 0 (content.length / maxSizePerShard + 1)).map fun k =>
      partRequest file usr fileMd5 ((content.length / maxSizePerShard + 1 : Nat) : Int) k (md5 (slice content k))
        (slice content k), ?_, ?_⟩
    · rw [doUploadFile_spec file usr hmd5 hcontent hlen, List.forall₂_map_right_iff, List.forall₂_same]
      exact fun k hk => ⟨_, hsends k hk, rfl⟩
    · exact lossless_slices file usr hlen fileMd5

end

/-! ### Two small files -/

namespace Small

/-- Three bytes, with a NUL behind each slice. -/
def cleared : Local where
  md5Sum := some (Md5.hexDigest (ascii "abc"))
  content := some (ascii "abc")
  malloc k := if k = 0 then ⟨[1, 2, 0], by decide⟩ else ⟨[3, 0], by decide⟩

/-- Two bytes, and a letter behind them in memory. -/
def leftover : Local where
  md5Sum := some (Md5.hexDigest (ascii "ab"))
  content := some (ascii "ab")
  malloc k := if k = 0 then ⟨[1, 2, ch 'c', 0], by decide⟩ else ⟨[0, 0], by decide⟩

end Small

theorem split_lossless_cleared : ∃ sent, doUploadFile Small.cleared (ascii "abc.txt") (ascii "bob") = some sent ∧
    Lossless (ascii "abc") sent :=
  (split_lossless_iff (ascii "abc.txt") (ascii "bob") rfl rfl (by decide)).mpr (by decide)

/-- What is left in memory is sent with the slice. -/
theorem leftover_sent : ¬ ∃ sent, doUploadFile Small.leftover (ascii "ab.txt") (ascii "bob") = some sent ∧
    Lossless (ascii "ab") sent := by
  rintro ⟨sent, hsent, hlossless⟩
  have hbody : (doUploadFile Small.leftover (ascii "ab.txt") (ascii "bob")).map (fun sent =>
      (sent.map (·.body)).flatten) = some (ascii "abc") := by decide
  rw [hsent, Option.map_some, hlossless.body_eq] at hbody
  exact absurd hbody (by decide)

end BrpcClient

end NetDisk
