import NetDisk.Shards

/-!
# What the client reports

`DoRequest` against what has come of the parts.
-/

namespace NetDisk

namespace BrpcClient

/-! ## The loop -/

section
variable (s : Session) (file usr fileMd5 : Bytes) (shard : Int)

theorem sendParts_some {count k : Nat} {fp : File} {sent : List NetDiskRequest}
    (h : uploadParts s.toLocal file usr fileMd5 shard count k fp = some sent) :
    sendParts s file usr fileMd5 shard count k fp = (true, sent.zip ((List.range' k count).map s.rpc)) := by
  induction count generalizing k fp sent with
  | zero =>
    unfold uploadParts at h
    rw [← Option.some.inj h]
    rfl
  | succ count ih =>
    unfold uploadParts at h
    unfold sendParts
    cases hpart : uploadPart s.toLocal file usr fileMd5 shard k fp with
    | none =>
      rw [hpart] at h
      cases h
    | some r =>
      obtain ⟨request, fp'⟩ := r
      rw [hpart] at h
      obtain ⟨rest, hrest, rfl⟩ := Option.map_eq_some_iff.mp h
      dsimp only
      rw [ih hrest, List.range'_succ, List.map_cons, List.zip_cons_cons]

theorem sendParts_none {count k : Nat} {fp : File} (h : uploadParts s.toLocal file usr fileMd5 shard count k fp = none) :
    (sendParts s file usr fileMd5 shard count k fp).1 = false ∧
      (sendParts s file usr fileMd5 shard count k fp).2.length < count := by
  induction count generalizing k fp with
  | zero =>
    unfold uploadParts at h
    cases h
  | succ count ih =>
    unfold uploadParts at h
    unfold sendParts
    cases hpart : uploadPart s.toLocal file usr fileMd5 shard k fp with
    | none => exact ⟨rfl, Nat.succ_pos _⟩
    | some r =>
      obtain ⟨request, fp'⟩ := r
      rw [hpart] at h
      obtain ⟨hfalse, hlt⟩ := ih (Option.map_eq_none_iff.mp h)
      exact ⟨hfalse, Nat.succ_lt_succ hlt⟩

end

theorem exists_forall₂ {α β : Type} {R : β → α → Prop} {l : List β} :
    (∃ l', List.Forall₂ R l l') ↔ ∀ b ∈ l, ∃ a, R b a := by
  induction l with
  | nil => simp
  | cons b l ih =>
    rw [List.forall_mem_cons, ← ih]
    constructor
    · rintro ⟨l', h⟩
      obtain ⟨a, rest, ha, hrest, -⟩ := List.forall₂_cons_left_iff.mp h
      exact ⟨⟨a, ha⟩, rest, hrest⟩
    · rintro ⟨⟨a, ha⟩, rest, hrest⟩
      exact ⟨a :: rest, .cons ha hrest⟩

theorem uploadParts_isSome (m : Local) (file usr fileMd5 content : Bytes) (shard : Int) (count : Nat) :
    (∃ sent, uploadParts m file usr fileMd5 shard count 0 ⟨content, 0⟩ = some sent) ↔
      ∀ k < count, ofCharPtr (buffer m content k) ≠ none := by
  have hspec := fun sent => uploadParts_spec m file usr fileMd5 shard content count 0 0 sent (by simp)
  rw [exists_congr hspec, exists_forall₂]
  constructor
  · intro h k hk
    obtain ⟨_, str, hstr, -⟩ := h k (by simpa using hk)
    rw [hstr]
    simp
  · intro h k hk
    obtain ⟨str, hstr⟩ := Option.ne_none_iff_exists'.mp (h k (by simpa using hk))
    exact ⟨_, str, hstr, rfl⟩

/-! ## The call -/

/-- The file could be opened, both times. -/
def Session.Readable (s : Session) : Prop := s.content ≠ none ∧ s.reopens = true

section
variable {s : Session} (file usr : Bytes)

theorem DoRequest_noInit (h : s.init = false) : DoRequest s UPLOAD file usr = ⟨some (-1), false, false, 0, []⟩ := by
  unfold DoRequest
  rw [if_pos h]

theorem upload_noMd5 (hmd5 : s.md5Sum = none) : upload s file usr = ⟨some 0, false, false, 0, []⟩ := by
  unfold upload
  rw [hmd5]

theorem upload_unreadable {fileMd5 : Bytes} (hmd5 : s.md5Sum = some fileMd5) (hread : ¬ s.Readable) :
    upload s file usr = ⟨none, false, true, 0, []⟩ := by
  unfold upload
  rw [hmd5]
  unfold Session.Readable at hread
  cases hc : s.content with
  | none => rfl
  | some content =>
    cases hr : s.reopens with
    | false => rfl
    | true => exact absurd ⟨by simp [hc], hr⟩ hread

theorem upload_readable {fileMd5 content : Bytes} (hmd5 : s.md5Sum = some fileMd5) (hcontent : s.content = some content)
    (hreopens : s.reopens = true) {ends : Bool} {sent : List (NetDiskRequest × Option NetDiskResponse)}
    (hrun : sendParts s file usr fileMd5 (shardCount content) (shardCount content).toNat 0 ⟨content, 0⟩ = (ends, sent)) :
    upload s file usr = ⟨if ends then some 0 else none, true, false, (shardCount content).toNat, sent⟩ := by
  unfold upload
  unfold shardCount at hrun ⊢
  simp only [hmd5, hcontent, hreopens, hrun]

theorem upload_rt : (upload s file usr).rt = none ∨ (upload s file usr).rt = some 0 := by
  unfold upload
  split
  · exact Or.inr rfl
  split
  · dsimp only
    split
    · exact Or.inr rfl
    · exact Or.inl rfl
  · exact Or.inl rfl

theorem DoRequest_upload (hinit : s.init = true) : DoRequest s UPLOAD file usr = upload s file usr := by
  have hsame : ∀ u : Upload, u.rt = none ∨ u.rt = some 0 → { u with rt := u.rt.map fun _ => 0 } = u := by
    rintro ⟨rt, opened, closesNull, parts, sent⟩ (rfl | rfl) <;> rfl
  unfold DoRequest
  rw [if_neg (by simp [hinit]), if_pos rfl]
  exact hsame _ (upload_rt file usr)

theorem upload_sent {sent : List NetDiskRequest} (hcontent : s.content ≠ none) (hreopens : s.reopens = true)
    (h : doUploadFile s.toLocal file usr = some sent) : (upload s file usr).sent.map Prod.fst = sent := by
  obtain ⟨content, hcontent⟩ := Option.ne_none_iff_exists'.mp hcontent
  cases hmd5 : s.md5Sum with
  | none =>
    unfold doUploadFile at h
    rw [hmd5] at h
    rw [upload_noMd5 file usr hmd5, ← Option.some.inj h]
    rfl
  | some fileMd5 =>
    rw [doUploadFile_shardCount file usr hmd5 hcontent] at h
    rw [upload_readable file usr hmd5 hcontent hreopens (sendParts_some s file usr fileMd5 _ h)]
    refine List.map_fst_zip ?_
    rw [uploadParts_length h, List.length_map, List.length_range']

/-! ## The return code against the parts -/

/-- The RPC has come through, and the server has accepted the part. -/
def Succeeded (outcome : Option NetDiskResponse) : Prop := ∃ response, outcome = some response ∧ response.res = some true

/-- A success is told exactly of a file that was opened and of which every part was accepted, and of a file that cannot
be read a failure. -/
structure Truthful (s : Session) (u : Upload) : Prop where
  success_iff : u.rt = some 0 ↔ u.opened = true ∧ u.sent.length = u.parts ∧ ∀ part ∈ u.sent, Succeeded part.2
  unreadable : ¬ s.Readable → (∃ rt, u.rt = some rt ∧ rt ≠ 0) ∧ u.closesNull = false

/-- Every part is accepted, or the call does not come back from a text that does not end. -/
def NoLoss (s : Session) (content : Bytes) : Prop :=
  (∀ k < (shardCount content).toNat, Succeeded (s.rpc k)) ∨
    ∃ k < (shardCount content).toNat, ofCharPtr (buffer s.toLocal content k) = none

theorem truthful_readable {fileMd5 content : Bytes} (hmd5 : s.md5Sum = some fileMd5) (hcontent : s.content = some content)
    (hreopens : s.reopens = true) : Truthful s (upload s file usr) ↔ NoLoss s content := by
  have hread : s.Readable := ⟨by simp [hcontent], hreopens⟩
  have hends := uploadParts_isSome s.toLocal file usr fileMd5 content (shardCount content) (shardCount content).toNat
  cases hup : uploadParts s.toLocal file usr fileMd5 (shardCount content) (shardCount content).toNat 0 ⟨content, 0⟩ with
  | none =>
    have hrun := sendParts_none s file usr fileMd5 _ hup
    generalize hloop : sendParts s file usr fileMd5 (shardCount content) (shardCount content).toNat 0 ⟨content, 0⟩ = run
      at hrun
    obtain ⟨ends, sent⟩ := run
    obtain ⟨rfl, hlt⟩ := hrun
    rw [hup] at hends
    rw [upload_readable file usr hmd5 hcontent hreopens hloop]
    refine iff_of_true ⟨?_, fun h => absurd hread h⟩ (Or.inr ?_)
    · exact iff_of_false (by simp) fun h => absurd h.2.1 (by simpa using hlt.ne)
    · by_contra hall
      obtain ⟨sent, hsent⟩ := hends.mpr fun k hk hnone => hall ⟨k, hk, hnone⟩
      cases hsent
  | some sent =>
    have hlen := uploadParts_length hup
    have hall : ¬ ∃ k < (shardCount content).toNat, ofCharPtr (buffer s.toLocal content k) = none := by
      rintro ⟨k, hk, hnone⟩
      exact hends.mp ⟨sent, hup⟩ k hk hnone
    -- The outcomes are those of the rounds, one after the other.
    have houtcomes : (sent.zip ((List.range' 0 (shardCount content).toNat).map s.rpc)).map Prod.snd =
        (List.range' 0 (shardCount content).toNat).map s.rpc := by
      rw [List.map_snd_zip]
      rw [hlen, List.length_map, List.length_range']
    have hforall : (∀ part ∈ sent.zip ((List.range' 0 (shardCount content).toNat).map s.rpc), Succeeded part.2) ↔
        ∀ k < (shardCount content).toNat, Succeeded (s.rpc k) := by
      rw [← List.forall_mem_map (f := Prod.snd) (P := Succeeded), houtcomes, List.forall_mem_map]
      simp
    rw [upload_readable file usr hmd5 hcontent hreopens (sendParts_some s file usr fileMd5 _ hup)]
    unfold NoLoss
    rw [or_iff_left hall, ← hforall]
    constructor
    · intro h
      exact (h.success_iff.mp rfl).2.2
    · intro h
      refine ⟨iff_of_true rfl ⟨rfl, ?_, h⟩, fun hno => absurd hread hno⟩
      simp [hlen]

/-- What the client reports is true exactly if it has not even got a channel, or the digest and the file can be read and
no part is lost. -/
theorem report_truthful_iff : Truthful s (DoRequest s UPLOAD file usr) ↔
    s.init = false ∨ s.md5Sum ≠ none ∧ s.reopens = true ∧ ∃ content, s.content = some content ∧ NoLoss s content := by
  cases hinit : s.init with
  | false =>
    rw [DoRequest_noInit file usr hinit]
    refine iff_of_true ⟨by simp, fun _ => ⟨⟨-1, rfl, by decide⟩, rfl⟩⟩ (Or.inl rfl)
  | true =>
    rw [DoRequest_upload file usr hinit]
    simp only [Bool.true_eq_false, false_or]
    cases hmd5 : s.md5Sum with
    | none =>
      rw [upload_noMd5 file usr hmd5]
      exact iff_of_false (fun h => by simpa using h.success_iff.mp rfl) (by simp)
    | some fileMd5 =>
      by_cases hread : s.Readable
      · obtain ⟨content, hcontent⟩ := Option.ne_none_iff_exists'.mp hread.1
        rw [truthful_readable file usr hmd5 hcontent hread.2]
        simp [hread.2, hcontent]
      · rw [upload_unreadable file usr hmd5 hread]
        refine iff_of_false (fun h => Bool.noConfusion (h.unreadable hread).2) ?_
        rintro ⟨-, hreopens, content, hcontent, -⟩
        exact hread ⟨by simp [hcontent], hreopens⟩

end

/-! ### A part that is lost -/

namespace Lost

/-- Three bytes in two parts; the RPC of the second one fails. -/
def session : Session where
  toLocal := Small.cleared
  init := true
  reopens := true
  rpc k := if k = 0 then some (NetDiskResponse.empty.answer true "success") else none

/-- There is no such file; `md5sum` says so on stderr only. -/
def missing : Session where
  md5Sum := some []
  content := none
  malloc := Small.cleared.malloc
  init := true
  reopens := true
  rpc _ := none

end Lost

/-- The call returns 0 without the second part, and closes a null pointer for a file that is not there. -/
theorem lost_part_success :
    (DoRequest Lost.session UPLOAD (ascii "abc.txt") (ascii "bob")).rt = some 0 ∧
    (DoRequest Lost.session UPLOAD (ascii "abc.txt") (ascii "bob")).sent.map Prod.snd =
      [some (NetDiskResponse.empty.answer true "success"), none] ∧
    ¬ Truthful Lost.session (DoRequest Lost.session UPLOAD (ascii "abc.txt") (ascii "bob")) ∧
    (DoRequest Lost.missing UPLOAD (ascii "abc.txt") (ascii "bob")).closesNull = true ∧
    ¬ Truthful Lost.missing (DoRequest Lost.missing UPLOAD (ascii "abc.txt") (ascii "bob")) := by
  have hrt : (DoRequest Lost.session UPLOAD (ascii "abc.txt") (ascii "bob")).rt = some 0 := by decide
  have houtcomes : (DoRequest Lost.session UPLOAD (ascii "abc.txt") (ascii "bob")).sent.map Prod.snd =
      [some (NetDiskResponse.empty.answer true "success"), none] := by decide
  have hnull : (DoRequest Lost.missing UPLOAD (ascii "abc.txt") (ascii "bob")).closesNull = true := by decide
  refine ⟨hrt, houtcomes, fun h => ?_, hnull, fun h => ?_⟩
  · have hall := (h.success_iff.mp hrt).2.2
    rw [← List.forall_mem_map (f := Prod.snd) (P := Succeeded), houtcomes] at hall
    obtain ⟨_, hsome, -⟩ := hall none (by simp)
    cases hsome
  · have hfalse := (h.unreadable (by simp [Session.Readable, Lost.missing])).2
    rw [hnull] at hfalse
    cases hfalse

end BrpcClient

end NetDisk
