import NetDisk.Code.NetDiskPb
import NetDisk.Lib.Base128

/-!
# Messages on the wire

A request or a response that is written is read again as it was, whatever the order of its fields, and with fields
between them that it does not have. What is accepted can be written again.
-/

namespace NetDisk

open Wire

variable {υ : Type} {F : Format υ}

/-! ## Requests -/

namespace PartialRequest

theorem complete_eq_some {m : PartialRequest} {request : NetDiskRequest} :
    m.complete = some request ↔ m = request.toPartial := by
  constructor
  · intro h
    simp only [complete, Option.bind_eq_bind, Option.bind_eq_some_iff, Option.pure_def, Option.some.injEq] at h
    obtain ⟨v1, h1, v2, h2, v3, h3, v4, h4, v5, h5, v6, h6, v7, h7, v8, h8, rfl⟩ := h
    exact schema.ext _ _ (forall_fields.mpr ⟨h1, h2, h3, h4, h5, h6, h7, h8⟩)
  · rintro rfl
    rfl

theorem IsInitialized_iff {m : Msg υ} : IsInitialized m = true ↔ ∃ request, m.fields.complete = some request := by
  unfold IsInitialized
  rw [Schema.isInitialized_iff]
  constructor
  · intro h
    obtain ⟨⟨v1, h1⟩, ⟨v2, h2⟩, ⟨v3, h3⟩, ⟨v4, h4⟩, ⟨v5, h5⟩, ⟨v6, h6⟩, ⟨v7, h7⟩, ⟨v8, h8⟩⟩ := forall_fields.mp h
    refine ⟨⟨v1, v2, v3, v4, v5, v6, v7, v8⟩, complete_eq_some.mpr (schema.ext _ _ ?_)⟩
    exact forall_fields.mpr ⟨h1, h2, h3, h4, h5, h6, h7, h8⟩
  · rintro ⟨request, h⟩
    rw [complete_eq_some.mp h]
    exact forall_fields.mpr ⟨⟨_, rfl⟩, ⟨_, rfl⟩, ⟨_, rfl⟩, ⟨_, rfl⟩, ⟨_, rfl⟩, ⟨_, rfl⟩, ⟨_, rfl⟩, ⟨_, rfl⟩⟩

end PartialRequest

namespace NetDiskRequest

open PartialRequest

/-- The request of a text: all fields are required. -/
def ofText (F : Format υ) (text : Bytes) : Option NetDiskRequest :=
  (InternalParse F text Clear).bind fun m => if IsInitialized m then m.fields.complete else none

theorem ofText_eq_some {text : Bytes} {request : NetDiskRequest} : ofText F text = some request ↔
    ∃ unknown, InternalParse F text Clear = some ⟨request.toPartial, unknown⟩ := by
  unfold ofText
  constructor
  · intro h
    obtain ⟨m, hm, h⟩ := Option.bind_eq_some_iff.mp h
    split at h
    · exact ⟨m.unknown, hm.trans (congrArg (fun m' => some (Message.mk m' m.unknown)) (complete_eq_some.mp h))⟩
    · cases h
  · rintro ⟨unknown, h⟩
    rw [h, Option.bind_some, if_pos (IsInitialized_iff.mpr ⟨request, rfl⟩)]
    rfl

/-- No string is too long to be read. -/
structure Fits (F : Format υ) (request : NetDiskRequest) : Prop where
  partSign : request.partSign.length ≤ F.maxSize
  fileName : request.fileName.length ≤ F.maxSize
  fileSign : request.fileSign.length ≤ F.maxSize
  usr : request.usr.length ≤ F.maxSize
  body : request.body.length ≤ F.maxSize

theorem Fits.readable {request : NetDiskRequest} (h : request.Fits F) {unknown : List υ}
    (hunknown : ∀ u ∈ unknown, schema.Foreign F u) : schema.Readable F ⟨request.toPartial, unknown⟩ where
  fits := by
    refine forall_fields.mpr ⟨?_, ?_, ?_, ?_, ?_, ?_, ?_, ?_⟩ <;> rintro v hv <;> cases hv
    · trivial
    · trivial
    · trivial
    · exact h.partSign
    · exact h.fileName
    · exact h.fileSign
    · exact h.usr
    · exact h.body
  unknown := hunknown

/-- The fields of a request may come in any order, with any fields between them that it does not have. -/
theorem ofText_shuffled {request : NetDiskRequest} (hfits : request.Fits F) {unknown : List υ}
    (hunknown : ∀ u ∈ unknown, schema.Foreign F u) {text : List (schema.Item υ)}
    (htext : text.Perm (schema.items ⟨request.toPartial, unknown⟩)) :
    ofText F (text.flatMap (·.bytes F)) = some request := by
  obtain ⟨unknown', -, h⟩ := Schema.parse_shuffled (hfits.readable hunknown) htext
  exact ofText_eq_some.mpr ⟨unknown', h⟩

/-- The fields from the last to the first, and one behind them that a request does not have. -/
theorem ofText_reversed :
    ∃ text, ofText Base128.format text = some ⟨2, 1, 0, ascii "s", ascii "f", ascii "d", ascii "u", []⟩ := by
  have hfits : Fits Base128.format ⟨2, 1, 0, ascii "s", ascii "f", ascii "d", ascii "u", []⟩ := by
    refine ⟨?_, ?_, ?_, ?_, ?_⟩ <;> decide
  have hforeign : ∀ u ∈ [(⟨72, by decide, .varint 5, rfl⟩ : Base128.Unknown)], schema.Foreign Base128.format u := by
    intro u hu
    cases List.mem_singleton.mp hu
    exact ⟨rfl, by decide⟩
  exact ⟨_, ofText_shuffled hfits hforeign (List.reverse_perm _)⟩

theorem ofText_serialize {request : NetDiskRequest} (hfits : request.Fits F) :
    ofText F (InternalSerialize F ⟨request.toPartial, []⟩) = some request :=
  ofText_eq_some.mpr ⟨[], Schema.parse_serialize (hfits.readable fun _ hu => absurd hu List.not_mem_nil)⟩

end NetDiskRequest

/-! ## Responses -/

namespace NetDiskResponse

/-- The response of a text: all fields are required. -/
def ofText (F : Format υ) (text : Bytes) : Option NetDiskResponse :=
  (InternalParse F text Clear).bind fun m => if schema.isInitialized m then some m.fields else none

theorem isInitialized_eq (m : Msg υ) : schema.isInitialized m = m.fields.IsInitialized := by
  simp [Schema.isInitialized, schema, scalars, strings, resField, shardField, part_index, file_name, bodyField,
    IsInitialized, Bool.and_assoc]

theorem ofText_eq_some {text : Bytes} {response : NetDiskResponse} : ofText F text = some response ↔
    response.IsInitialized = true ∧ ∃ unknown, InternalParse F text Clear = some ⟨response, unknown⟩ := by
  unfold ofText
  constructor
  · intro h
    obtain ⟨m, hm, h⟩ := Option.bind_eq_some_iff.mp h
    rw [isInitialized_eq] at h
    split at h
    · cases h
      exact ⟨‹_›, m.unknown, hm⟩
    · cases h
  · rintro ⟨hinit, unknown, h⟩
    rw [h, Option.bind_some, if_pos ((isInitialized_eq _).trans hinit)]

structure Fits (F : Format υ) (response : NetDiskResponse) : Prop where
  fileName : ∀ name, response.fileName = some name → name.length ≤ F.maxSize
  body : ∀ body, response.body = some body → body.length ≤ F.maxSize

theorem Fits.readable {response : NetDiskResponse} (h : response.Fits F) : schema.Readable F ⟨response, []⟩ where
  fits := forall_fields.mpr ⟨fun _ _ => trivial, fun _ _ => trivial, fun _ _ => trivial, h.fileName, h.body⟩
  unknown := fun _ hu => absurd hu List.not_mem_nil

theorem ofText_serialize {response : NetDiskResponse} (hfits : response.Fits F) (hinit : response.IsInitialized = true) :
    ofText F (InternalSerialize F ⟨response, []⟩) = some response :=
  ofText_eq_some.mpr ⟨hinit, [], Schema.parse_serialize hfits.readable⟩

end NetDiskResponse

/-! ## Texts that are accepted -/

/-- The size that is computed is that of the text, and what is accepted can be written and read again. -/
theorem InternalParse_normal (text : Bytes) :
    (∀ m, PartialRequest.InternalParse F text PartialRequest.Clear = some m →
      PartialRequest.InternalParse F (PartialRequest.InternalSerialize F m) PartialRequest.Clear = some m ∧
      PartialRequest.ByteSizeLong F m = (PartialRequest.InternalSerialize F m).length) ∧
    (∀ m, NetDiskResponse.InternalParse F text NetDiskResponse.Clear = some m →
      NetDiskResponse.InternalParse F (NetDiskResponse.InternalSerialize F m) NetDiskResponse.Clear = some m ∧
      NetDiskResponse.ByteSizeLong F m = (NetDiskResponse.InternalSerialize F m).length) := by
  constructor
  · intro m h
    have hm := Schema.readable_of_parse Schema.readable_blank h
    exact ⟨Schema.parse_serialize hm, Schema.byteSize_eq List.perm_append_comm m⟩
  · intro m h
    have hm := Schema.readable_of_parse Schema.readable_blank h
    exact ⟨Schema.parse_serialize hm, Schema.byteSize_eq List.perm_append_comm m⟩

/-- A text in which a number has a byte more than it needs. -/
theorem InternalParse_normal_long :
    ∃ m, PartialRequest.InternalParse Base128.format [8, 133, 0] PartialRequest.Clear = some m ∧
      PartialRequest.ByteSizeLong Base128.format m = (PartialRequest.InternalSerialize Base128.format m).length :=
  ⟨_, rfl, ((InternalParse_normal [8, 133, 0]).1 _ rfl).2⟩

/-- One text behind another is the second message merged into the first. -/
theorem InternalParse_merges (text later : Bytes) :
    (∀ m source, PartialRequest.InternalParse F text PartialRequest.Clear = some m →
      PartialRequest.InternalParse F later PartialRequest.Clear = some source →
      PartialRequest.InternalParse F (text ++ later) PartialRequest.Clear = some (PartialRequest.MergeFrom m source)) ∧
    (∀ m source, NetDiskResponse.InternalParse F text NetDiskResponse.Clear = some m →
      NetDiskResponse.InternalParse F later NetDiskResponse.Clear = some source →
      NetDiskResponse.InternalParse F (text ++ later) NetDiskResponse.Clear =
        some (NetDiskResponse.MergeFrom m source)) :=
  ⟨fun _ _ => Schema.parse_append_eq_mergeFrom, fun _ _ => Schema.parse_append_eq_mergeFrom⟩

/-- The operation is in both texts, and the later one is kept. -/
theorem InternalParse_merges_twice :
    (PartialRequest.InternalParse Base128.format ([8, 5, 16, 1] ++ [8, 2]) PartialRequest.Clear).map (·.fields.opType) =
      some (some 2) := by
  rw [(InternalParse_merges [8, 5, 16, 1] [8, 2]).1 _ _ rfl rfl]
  rfl

end NetDisk
