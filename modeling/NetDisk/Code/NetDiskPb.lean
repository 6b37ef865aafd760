import NetDisk.Code.LongConnection
import NetDisk.Lib.Wire

/-!
# `NetDisk.pb.cc`

The two messages as they are on the wire. A field with its bit of `_has_bits_` is an option. How tags, numbers and
strings are read and written is not in this file, and is the parameter `F`.
-/

namespace NetDisk

open Wire

/-- `NetDiskRequest` before it is known which of its fields are set. -/
structure PartialRequest where
  opType : Option UInt32
  shard : Option UInt32
  partIndex : Option UInt32
  partSign : Option Bytes
  fileName : Option Bytes
  fileSign : Option Bytes
  usr : Option Bytes
  body : Option Bytes

namespace PartialRequest

def empty : PartialRequest := ⟨none, none, none, none, none, none, none, none⟩

/-! ## The fields -/

def op_type : FieldOf PartialRequest := ⟨1, .uint32, opType, fun v m => { m with opType := some v }⟩

def shardField : FieldOf PartialRequest := ⟨2, .uint32, shard, fun v m => { m with shard := some v }⟩

def part_index : FieldOf PartialRequest := ⟨3, .uint32, partIndex, fun v m => { m with partIndex := some v }⟩

def part_sign : FieldOf PartialRequest := ⟨4, .string, partSign, fun v m => { m with partSign := some v }⟩

def file_name : FieldOf PartialRequest := ⟨5, .string, fileName, fun v m => { m with fileName := some v }⟩

def file_sign : FieldOf PartialRequest := ⟨6, .string, fileSign, fun v m => { m with fileSign := some v }⟩

def usrField : FieldOf PartialRequest := ⟨7, .string, usr, fun v m => { m with usr := some v }⟩

def bodyField : FieldOf PartialRequest := ⟨8, .string, body, fun v m => { m with body := some v }⟩

/-- The numbers. -/
def scalars : List (FieldOf PartialRequest) := [op_type, shardField, part_index]

def strings : List (FieldOf PartialRequest) := [part_sign, file_name, file_sign, usrField, bodyField]

theorem forall_fields {P : FieldOf PartialRequest → Prop} : (∀ f ∈ scalars ++ strings, P f) ↔
    P op_type ∧ P shardField ∧ P part_index ∧ P part_sign ∧ P file_name ∧ P file_sign ∧ P usrField ∧ P bodyField := by
  simp [scalars, strings]

def schema : Schema PartialRequest where
  fields := scalars ++ strings
  empty := empty
  number_pos := by
    rw [forall_fields]
    decide
  number_lt := by
    rw [forall_fields]
    decide
  apart := by
    rw [forall_fields]
    refine ⟨?_, ?_, ?_, ?_, ?_, ?_, ?_, ?_⟩ <;> rw [forall_fields] <;>
      refine ⟨?_, ?_, ?_, ?_, ?_, ?_, ?_, ?_⟩ <;> intro h <;> first | rfl | exact absurd h (by decide)
  get_empty := by
    rw [forall_fields]
    exact ⟨rfl, rfl, rfl, rfl, rfl, rfl, rfl, rfl⟩
  get_set := by
    rw [forall_fields]
    exact ⟨fun _ _ => rfl, fun _ _ => rfl, fun _ _ => rfl, fun _ _ => rfl, fun _ _ => rfl, fun _ _ => rfl, fun _ _ => rfl,
      fun _ _ => rfl⟩
  get_set_ne := by
    rw [forall_fields]
    refine ⟨?_, ?_, ?_, ?_, ?_, ?_, ?_, ?_⟩ <;> rw [forall_fields] <;>
      refine ⟨?_, ?_, ?_, ?_, ?_, ?_, ?_, ?_⟩ <;> intro hne v m <;> first | rfl | exact absurd rfl hne
  ext m m' h := by
    obtain ⟨h1, h2, h3, h4, h5, h6, h7, h8⟩ := forall_fields.mp h
    cases m
    cases m'
    cases h1
    cases h2
    cases h3
    cases h4
    cases h5
    cases h6
    cases h7
    cases h8
    rfl

/-! ## The functions -/

variable {υ : Type} (F : Format υ)

abbrev Msg (υ : Type) := Message PartialRequest υ

def InternalParse (ptr : Bytes) (m : Msg υ) : Option (Msg υ) := schema.parse F ptr m

def InternalSerialize (m : Msg υ) : Bytes := schema.serialize F m

/-- The strings are counted first. -/
def ByteSizeLong (m : Msg υ) : Nat := schema.byteSize F (strings ++ scalars) m

def MergeFrom (m source : Msg υ) : Msg υ := schema.mergeFrom m source

def IsInitialized (m : Msg υ) : Bool := schema.isInitialized m

def Clear : Msg υ := schema.blank

/-- `request->op_type()` and so on, where all are set. -/
def complete (m : PartialRequest) : Option NetDiskRequest := do
  return {
    opType := ← m.opType
    shard := ← m.shard
    partIndex := ← m.partIndex
    partSign := ← m.partSign
    fileName := ← m.fileName
    fileSign := ← m.fileSign
    usr := ← m.usr
    body := ← m.body }

end PartialRequest

namespace NetDiskRequest

/-- The request after all its setters. -/
def toPartial (request : NetDiskRequest) : PartialRequest where
  opType := some request.opType
  shard := some request.shard
  partIndex := some request.partIndex
  partSign := some request.partSign
  fileName := some request.fileName
  fileSign := some request.fileSign
  usr := some request.usr
  body := some request.body

end NetDiskRequest

namespace NetDiskResponse

/-! ## The response -/

def resField : FieldOf NetDiskResponse := ⟨1, .bool, res, fun v m => { m with res := some v }⟩

def shardField : FieldOf NetDiskResponse := ⟨2, .uint32, shard, fun v m => { m with shard := some v }⟩

def part_index : FieldOf NetDiskResponse := ⟨3, .uint32, partIndex, fun v m => { m with partIndex := some v }⟩

def file_name : FieldOf NetDiskResponse := ⟨4, .string, fileName, fun v m => { m with fileName := some v }⟩

def bodyField : FieldOf NetDiskResponse := ⟨6, .string, body, fun v m => { m with body := some v }⟩

def scalars : List (FieldOf NetDiskResponse) := [resField, shardField, part_index]

def strings : List (FieldOf NetDiskResponse) := [file_name, bodyField]

theorem forall_fields {P : FieldOf NetDiskResponse → Prop} : (∀ f ∈ scalars ++ strings, P f) ↔
    P resField ∧ P shardField ∧ P part_index ∧ P file_name ∧ P bodyField := by
  simp [scalars, strings]

def schema : Schema NetDiskResponse where
  fields := scalars ++ strings
  empty := .empty
  number_pos := by
    rw [forall_fields]
    decide
  number_lt := by
    rw [forall_fields]
    decide
  apart := by
    rw [forall_fields]
    refine ⟨?_, ?_, ?_, ?_, ?_⟩ <;> rw [forall_fields] <;> refine ⟨?_, ?_, ?_, ?_, ?_⟩ <;> intro h <;>
      first | rfl | exact absurd h (by decide)
  get_empty := by
    rw [forall_fields]
    exact ⟨rfl, rfl, rfl, rfl, rfl⟩
  get_set := by
    rw [forall_fields]
    exact ⟨fun _ _ => rfl, fun _ _ => rfl, fun _ _ => rfl, fun _ _ => rfl, fun _ _ => rfl⟩
  get_set_ne := by
    rw [forall_fields]
    refine ⟨?_, ?_, ?_, ?_, ?_⟩ <;> rw [forall_fields] <;> refine ⟨?_, ?_, ?_, ?_, ?_⟩ <;> intro hne v m <;>
      first | rfl | exact absurd rfl hne
  ext m m' h := by
    obtain ⟨h1, h2, h3, h4, h5⟩ := forall_fields.mp h
    cases m
    cases m'
    cases h1
    cases h2
    cases h3
    cases h4
    cases h5
    rfl

variable {υ : Type} (F : Format υ)

abbrev Msg (υ : Type) := Message NetDiskResponse υ

def InternalParse (ptr : Bytes) (m : Msg υ) : Option (Msg υ) := schema.parse F ptr m

def InternalSerialize (m : Msg υ) : Bytes := schema.serialize F m

def ByteSizeLong (m : Msg υ) : Nat := schema.byteSize F (strings ++ scalars) m

def MergeFrom (m source : Msg υ) : Msg υ := schema.mergeFrom m source

def Clear : Msg υ := schema.blank

end NetDiskResponse

end NetDisk
