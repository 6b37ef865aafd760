import Mathlib.Data.List.Basic
import Mathlib.Algebra.BigOperators.Group.List.Basic
import Mathlib.Algebra.Ring.Nat

/-!
# Messages of tagged fields

A message on the wire is one field after another, each with a tag in front: the number of the field and
how its value is written. Fields may come in any order and more than once, and a reader keeps those that
it does not know. How tags and values are written is a parameter, and so is what a message is in memory.
-/

namespace Wire

/-! ## Tags and values -/

inductive Kind where
  | uint32
  | bool
  | string
deriving DecidableEq

abbrev Kind.Val : Kind → Type
  | .uint32 => UInt32
  | .bool => Bool
  | .string => List UInt8

/-- The value of a field that is not set. -/
def Kind.unset : (k : Kind) → k.Val
  | .uint32 => 0
  | .bool => false
  | .string => []

/-- A number of any length, or a length and then the bytes. -/
def Kind.wireType : Kind → UInt32
  | .uint32 | .bool => 0
  | .string => 2

/-- How tags and values are read and written. `υ` is the type of the fields that a message does not know; what a reader
leaves is the rest of the text. -/
structure Format (υ : Type) where
  readTag : List UInt8 → Option (UInt32 × List UInt8)
  read : (k : Kind) → List UInt8 → Option (k.Val × List UInt8)
  readUnknown : UInt32 → List UInt8 → Option (υ × List UInt8)
  writeTag : UInt32 → List UInt8
  write : (k : Kind) → k.Val → List UInt8
  unknownTag : υ → UInt32
  /-- What comes behind the tag. -/
  writeUnknown : υ → List UInt8
  uint32Size : UInt32 → Nat
  stringSize : List UInt8 → Nat
  unknownSize : υ → Nat
  /-- The longest string that can be read. -/
  maxSize : Nat
  readTag_lt : ∀ {s t r}, readTag s = some (t, r) → r.length < s.length
  read_le : ∀ {k s v r}, read k s = some (v, r) → r.length ≤ s.length
  readUnknown_le : ∀ {t s u r}, readUnknown t s = some (u, r) → r.length ≤ s.length
  readTag_append : ∀ {s t r} (later), readTag s = some (t, r) → readTag (s ++ later) = some (t, r ++ later)
  read_append : ∀ {k s v r} (later), read k s = some (v, r) → read k (s ++ later) = some (v, r ++ later)
  readUnknown_append : ∀ {t s u r} (later), readUnknown t s = some (u, r) → readUnknown t (s ++ later) = some (u, r ++ later)
  readTag_writeTag : ∀ t r, readTag (writeTag t ++ r) = some (t, r)
  read_uint32 : ∀ n r, read .uint32 (write .uint32 n ++ r) = some (n, r)
  read_bool : ∀ b r, read .bool (write .bool b ++ r) = some (b, r)
  read_string : ∀ s r, s.length ≤ maxSize → read .string (write .string s ++ r) = some (s, r)
  string_le : ∀ {s v r}, read .string s = some (v, r) → v.length ≤ maxSize
  readUnknown_write : ∀ u r, readUnknown (unknownTag u) (writeUnknown u ++ r) = some (u, r)
  unknownTag_eq : ∀ {t s u r}, readUnknown t s = some (u, r) → unknownTag u = t
  length_writeTag : ∀ t, t < 128 → (writeTag t).length = 1
  uint32Size_eq : ∀ n, uint32Size n = (write .uint32 n).length
  stringSize_eq : ∀ s, stringSize s = (write .string s).length
  length_bool : ∀ b, (write .bool b).length = 1
  unknownSize_eq : ∀ u, unknownSize u = (writeTag (unknownTag u)).length + (writeUnknown u).length

namespace Format

variable {υ : Type} (F : Format υ)

/-- The value is not too long to be read. -/
def Fits : (k : Kind) → k.Val → Prop
  | .string, s => s.length ≤ F.maxSize
  | .uint32, _ | .bool, _ => True

/-- The bytes that a value is counted with: a boolean is always one. -/
def size : (k : Kind) → k.Val → Nat
  | .uint32, n => F.uint32Size n
  | .bool, _ => 1
  | .string, s => F.stringSize s

variable {F}

theorem size_eq (k : Kind) (v : k.Val) : F.size k v = (F.write k v).length := by
  cases k with
  | uint32 => exact F.uint32Size_eq v
  | bool => exact (F.length_bool v).symm
  | string => exact F.stringSize_eq v

theorem read_write {k : Kind} {v : k.Val} (h : F.Fits k v) (r : List UInt8) : F.read k (F.write k v ++ r) = some (v, r) := by
  cases k with
  | uint32 => exact F.read_uint32 v r
  | bool => exact F.read_bool v r
  | string => exact F.read_string v r h

theorem fits_of_read {k : Kind} {s r : List UInt8} {v : k.Val} (h : F.read k s = some (v, r)) : F.Fits k v := by
  cases k with
  | uint32 => trivial
  | bool => trivial
  | string => exact F.string_le h

end Format

/-! ## Messages -/

/-- A field of the messages in `μ`, which may be set or not. -/
structure FieldOf (μ : Type) where
  number : UInt32
  kind : Kind
  get : μ → Option kind.Val
  set : kind.Val → μ → μ

def FieldOf.tag {μ : Type} (f : FieldOf μ) : UInt32 := f.number <<< 3 ||| f.kind.wireType

/-- The fields that a message has, in the order of their numbers. -/
structure Schema (μ : Type) where
  fields : List (FieldOf μ)
  empty : μ
  number_pos : ∀ f ∈ fields, 0 < f.number
  number_lt : ∀ f ∈ fields, f.number < 16
  apart : ∀ f ∈ fields, ∀ g ∈ fields, f.number = g.number → f = g
  get_empty : ∀ f ∈ fields, f.get empty = none
  get_set : ∀ f ∈ fields, ∀ v m, f.get (f.set v m) = some v
  get_set_ne : ∀ f ∈ fields, ∀ g ∈ fields, f ≠ g → ∀ v m, g.get (f.set v m) = g.get m
  ext : ∀ m m', (∀ f ∈ fields, f.get m = f.get m') → m = m'

/-- A message, and the fields that it does not know. -/
structure Message (μ υ : Type) where
  fields : μ
  unknown : List υ

namespace Schema

variable {μ υ : Type} (S : Schema μ) (F : Format υ)

def blank : Message μ υ := ⟨S.empty, []⟩

/-- The field with this tag: by its number first, and then by the low byte of the tag. -/
def known (tag : UInt32) : Option (FieldOf μ) :=
  match S.fields.find? fun f => f.number = tag >>> 3 with
  | some f => if tag.toUInt8 = f.tag.toUInt8 then some f else none
  | none => none

/-- One field of any kind, and what is left of the text. The end of a group, and the tag 0, end a message that stands in
another one; here they are errors. -/
def readField (s : List UInt8) (m : Message μ υ) : Option (Message μ υ × List UInt8) :=
  match F.readTag s with
  | none => none
  | some (tag, s) =>
    match S.known tag with
    | some f => (F.read f.kind s).map fun r => ({ m with fields := f.set r.1 m.fields }, r.2)
    | none =>
      if tag &&& 7 = 4 ∨ tag = 0 then none
      else (F.readUnknown tag s).map fun r => ({ m with unknown := m.unknown ++ [r.1] }, r.2)

def parseFrom : Nat → List UInt8 → Message μ υ → Option (Message μ υ)
  | _, [], m => some m
  | 0, _ :: _, _ => none
  | fuel + 1, b :: s, m => (S.readField F (b :: s) m).bind fun r => parseFrom fuel r.2 r.1

/-- All fields of a text, over what is in the message. A field takes a byte at least. -/
def parse (s : List UInt8) (m : Message μ υ) : Option (Message μ υ) := S.parseFrom F s.length s m

/-- What a field adds to the text, if it is set. -/
def writeField (m : μ) (f : FieldOf μ) : List UInt8 :=
  match f.get m with
  | none => []
  | some v => F.writeTag f.tag ++ F.write f.kind v

def serialize (m : Message μ υ) : List UInt8 :=
  S.fields.flatMap (writeField F m.fields) ++ m.unknown.flatMap fun u => F.writeTag (F.unknownTag u) ++ F.writeUnknown u

def mergeField (src m : μ) (f : FieldOf μ) : μ :=
  match f.get src with
  | none => m
  | some v => f.set v m

/-- What is set in `src`, over what is in `m`. -/
def mergeFrom (m src : Message μ υ) : Message μ υ where
  fields := S.fields.foldl (mergeField src.fields) m.fields
  unknown := m.unknown ++ src.unknown

/-- Every field is set. -/
def isInitialized (m : Message μ υ) : Bool := S.fields.all fun f => (f.get m.fields).isSome

/-- The bytes that all fields take, where every field is set. -/
def requiredSize (order : List (FieldOf μ)) (m : μ) : Nat :=
  (order.map fun f => 1 + F.size f.kind ((f.get m).getD f.kind.unset)).sum

/-- The bytes that the fields take which are set. -/
def requiredSizeFallback (order : List (FieldOf μ)) (m : μ) : Nat :=
  (order.map fun f => match f.get m with
    | none => 0
    | some v => 1 + F.size f.kind v).sum

/-- The bytes of a message, with its fields counted in any order. -/
def byteSize (order : List (FieldOf μ)) (m : Message μ υ) : Nat :=
  (if S.isInitialized m then requiredSize F order m.fields else requiredSizeFallback F order m.fields) +
    (m.unknown.map F.unknownSize).sum

/-- A field that no message has. -/
def Foreign (u : υ) : Prop := S.known (F.unknownTag u) = none ∧ ¬ (F.unknownTag u &&& 7 = 4 ∨ F.unknownTag u = 0)

/-- The values can be read again, and no unknown field is one of the message. -/
structure Readable (m : Message μ υ) : Prop where
  fits : ∀ f ∈ S.fields, ∀ v, f.get m.fields = some v → F.Fits f.kind v
  unknown : ∀ u ∈ m.unknown, S.Foreign F u

variable {S F}

/-! ### The tag of a field -/

theorem shift_or_wire : ∀ n < 16, ∀ w ∈ [0, 2], (n <<< 3 ||| w) < 128 ∧ (n <<< 3 ||| w) >>> 3 = n := by
  decide

theorem toNat_tag {f : FieldOf μ} (h : f.number < 16) :
    f.tag.toNat = f.number.toNat <<< 3 ||| f.kind.wireType.toNat := by
  have hn : f.number.toNat < 16 := h
  have hlt : f.number.toNat <<< 3 < 2 ^ 32 := by
    rw [Nat.shiftLeft_eq]
    omega
  unfold FieldOf.tag
  rw [UInt32.toNat_or, UInt32.toNat_shiftLeft]
  change f.number.toNat <<< 3 % 2 ^ 32 ||| _ = _
  rw [Nat.mod_eq_of_lt hlt]

theorem tag_lt {f : FieldOf μ} (hf : f ∈ S.fields) : f.tag < 128 ∧ f.tag >>> 3 = f.number := by
  have hn := S.number_lt f hf
  have hwire : f.kind.wireType.toNat ∈ [0, 2] := by cases f.kind <;> decide
  obtain ⟨hlt, hback⟩ := shift_or_wire f.number.toNat hn f.kind.wireType.toNat hwire
  rw [← toNat_tag hn] at hlt hback
  exact ⟨hlt, UInt32.toNat_inj.mp (by rw [UInt32.toNat_shiftRight]; exact hback)⟩

theorem known_eq_some {tag : UInt32} {f : FieldOf μ} : S.known tag = some f ↔ f ∈ S.fields ∧ tag = f.tag := by
  unfold known
  constructor
  · intro h
    cases hfind : S.fields.find? fun f => f.number = tag >>> 3 with
    | none =>
      rw [hfind] at h
      cases h
    | some g =>
      rw [hfind] at h
      dsimp only at h
      split at h
      · rename_i hbyte
        obtain rfl := Option.some.inj h
        have hg := List.mem_of_find?_eq_some hfind
        have hnumber : g.number = tag >>> 3 := by simpa using List.find?_some hfind
        refine ⟨hg, ?_⟩
        obtain ⟨hlt, hshift⟩ := tag_lt hg
        have hnum := S.number_lt g hg
        -- The number leaves only the low byte.
        apply UInt32.toNat_inj.mp
        have h3 : tag.toNat / 8 = g.number.toNat := by
          rw [hnumber, UInt32.toNat_shiftRight, Nat.shiftRight_eq_div_pow]
          rfl
        have hbyte' : tag.toNat % 256 = g.tag.toNat % 256 := by
          have := congrArg UInt8.toNat hbyte
          simpa using this
        have hlt' : g.tag.toNat < 128 := hlt
        have hnum' : g.number.toNat < 16 := hnum
        omega
      · cases h
  · rintro ⟨hf, rfl⟩
    obtain ⟨hlt, hshift⟩ := tag_lt hf
    have hfind : S.fields.find? (fun g => g.number = f.tag >>> 3) = some f := by
      rw [hshift]
      cases hg : S.fields.find? fun g => g.number = f.number with
      | none => exact absurd (decide_eq_true rfl) (List.find?_eq_none.mp hg f hf)
      | some g =>
        have hnumber : g.number = f.number := by simpa using List.find?_some hg
        rw [S.apart g (List.mem_of_find?_eq_some hg) f hf hnumber]
    rw [hfind]
    exact if_pos rfl

/-! ### One field -/

theorem readField_lt {s r : List UInt8} {m m' : Message μ υ} (h : S.readField F s m = some (m', r)) :
    r.length < s.length := by
  unfold readField at h
  cases htag : F.readTag s with
  | none =>
    rw [htag] at h
    cases h
  | some t =>
    obtain ⟨tag, s'⟩ := t
    have hlt := F.readTag_lt htag
    rw [htag] at h
    dsimp only at h
    split at h
    · obtain ⟨⟨v, r'⟩, hread, heq⟩ := Option.map_eq_some_iff.mp h
      obtain ⟨-, rfl⟩ := Prod.mk.inj heq
      exact Nat.lt_of_le_of_lt (F.read_le hread) hlt
    · split at h
      · cases h
      · obtain ⟨⟨u, r'⟩, hread, heq⟩ := Option.map_eq_some_iff.mp h
        obtain ⟨-, rfl⟩ := Prod.mk.inj heq
        exact Nat.lt_of_le_of_lt (F.readUnknown_le hread) hlt

theorem readField_append {s r : List UInt8} {m m' : Message μ υ} (h : S.readField F s m = some (m', r))
    (later : List UInt8) : S.readField F (s ++ later) m = some (m', r ++ later) := by
  unfold readField at h ⊢
  cases htag : F.readTag s with
  | none =>
    rw [htag] at h
    cases h
  | some t =>
    obtain ⟨tag, s'⟩ := t
    rw [htag] at h
    rw [F.readTag_append later htag]
    dsimp only at h ⊢
    split at h
    · obtain ⟨⟨v, r'⟩, hread, heq⟩ := Option.map_eq_some_iff.mp h
      obtain ⟨rfl, rfl⟩ := Prod.mk.inj heq
      rw [F.read_append later hread]
      rfl
    · split at h
      · cases h
      · rename_i hend
        obtain ⟨⟨u, r'⟩, hread, heq⟩ := Option.map_eq_some_iff.mp h
        obtain ⟨rfl, rfl⟩ := Prod.mk.inj heq
        rw [if_neg hend, F.readUnknown_append later hread]
        rfl

theorem readField_known {f : FieldOf μ} (hf : f ∈ S.fields) {v : f.kind.Val} (hv : F.Fits f.kind v) (r : List UInt8)
    (m : Message μ υ) : S.readField F (F.writeTag f.tag ++ F.write f.kind v ++ r) m =
      some ({ m with fields := f.set v m.fields }, r) := by
  unfold readField
  rw [List.append_assoc, F.readTag_writeTag]
  dsimp only
  rw [known_eq_some.mpr ⟨hf, rfl⟩]
  dsimp only
  rw [Format.read_write hv]
  rfl

theorem readField_unknown {u : υ} (hu : S.Foreign F u) (r : List UInt8) (m : Message μ υ) :
    S.readField F (F.writeTag (F.unknownTag u) ++ F.writeUnknown u ++ r) m =
      some ({ m with unknown := m.unknown ++ [u] }, r) := by
  unfold readField
  rw [List.append_assoc, F.readTag_writeTag]
  dsimp only
  rw [hu.1]
  dsimp only
  rw [if_neg hu.2, F.readUnknown_write]
  rfl

/-! ### A whole text -/

theorem parseFrom_fuel (n n' : Nat) {s : List UInt8} (hn : s.length ≤ n) (hn' : s.length ≤ n') (m : Message μ υ) :
    S.parseFrom F n s m = S.parseFrom F n' s m := by
  induction n generalizing n' s m with
  | zero =>
    rw [List.eq_nil_of_length_eq_zero (Nat.le_zero.mp hn)]
    cases n' <;> rfl
  | succ n ih =>
    cases s with
    | nil => cases n' <;> rfl
    | cons b s =>
      cases n' with
      | zero => exact absurd hn' (by simp)
      | succ n' =>
        unfold parseFrom
        cases h : S.readField F (b :: s) m with
        | none => rfl
        | some r =>
          have hlt := readField_lt h
          rw [Option.bind_some, Option.bind_some]
          exact ih n' (by omega) (by omega) r.1

theorem parse_nil (m : Message μ υ) : S.parse F [] m = some m := rfl

theorem parse_step {s : List UInt8} (hs : s ≠ []) (m : Message μ υ) :
    S.parse F s m = (S.readField F s m).bind fun r => S.parse F r.2 r.1 := by
  obtain ⟨b, s, rfl⟩ := List.exists_cons_of_ne_nil hs
  unfold parse
  rw [List.length_cons, parseFrom]
  cases h : S.readField F (b :: s) m with
  | none => rfl
  | some r =>
    have hlt := readField_lt h
    rw [List.length_cons] at hlt
    rw [Option.bind_some, Option.bind_some]
    exact parseFrom_fuel _ _ (by omega) (Nat.le_refl _) r.1

theorem parse_of_readField {s r : List UInt8} {m m' : Message μ υ} (h : S.readField F s m = some (m', r)) :
    S.parse F s m = S.parse F r m' := by
  have hs : s ≠ [] := by
    rintro rfl
    exact absurd (readField_lt h) (Nat.not_lt_zero _)
  rw [parse_step hs, h, Option.bind_some]

/-- A rule for texts that are accepted: nothing, or a field and then such a text. -/
theorem parse_induction {s : List UInt8} {m m' : Message μ υ} (h : S.parse F s m = some m')
    {P : List UInt8 → Message μ υ → Prop} (hnil : P [] m')
    (hstep : ∀ s r m m1, S.readField F s m = some (m1, r) → P r m1 → P s m) : P s m := by
  generalize hn : s.length = n
  induction n using Nat.strongRecOn generalizing s m with
  | _ n ih =>
    by_cases hs : s = []
    · subst hs
      rw [parse_nil] at h
      rw [Option.some.inj h]
      exact hnil
    · rw [parse_step hs] at h
      obtain ⟨⟨m1, r⟩, hfield, hrest⟩ := Option.bind_eq_some_iff.mp h
      exact hstep s r m m1 hfield (ih r.length (hn ▸ readField_lt hfield) hrest rfl)

theorem parse_append {s : List UInt8} {m m' : Message μ υ} (h : S.parse F s m = some m') (later : List UInt8) :
    S.parse F (s ++ later) m = S.parse F later m' := by
  refine parse_induction h (P := fun s m => S.parse F (s ++ later) m = S.parse F later m') rfl ?_
  intro s r m m1 hfield ih
  rw [parse_of_readField (readField_append hfield later)]
  exact ih

/-! ### What is written -/

/-- One field of a text, as it is meant. -/
inductive Item (S : Schema μ) (υ : Type) where
  | known (f : FieldOf μ) (hf : f ∈ S.fields) (v : f.kind.Val)
  | unknown (u : υ)

namespace Item

def bytes (F : Format υ) : Item S υ → List UInt8
  | .known f _ v => F.writeTag f.tag ++ F.write f.kind v
  | .unknown u => F.writeTag (F.unknownTag u) ++ F.writeUnknown u

def apply (m : Message μ υ) : Item S υ → Message μ υ
  | .known f _ v => { m with fields := f.set v m.fields }
  | .unknown u => { m with unknown := m.unknown ++ [u] }

def setIn (m : μ) : Item S υ → μ
  | .known f _ v => f.set v m
  | .unknown _ => m

def unknown? : Item S υ → Option υ
  | .known _ _ _ => none
  | .unknown u => some u

def Valid (F : Format υ) : Item S υ → Prop
  | .known f _ v => F.Fits f.kind v
  | .unknown u => S.Foreign F u

end Item

theorem readField_item {i : Item S υ} (hi : i.Valid F) (r : List UInt8) (m : Message μ υ) :
    S.readField F (i.bytes F ++ r) m = some (i.apply m, r) := by
  cases i with
  | known f hf v => exact readField_known hf hi r m
  | unknown u => exact readField_unknown hi r m

theorem parse_items {items : List (Item S υ)} (hitems : ∀ i ∈ items, i.Valid F) (r : List UInt8) (m : Message μ υ) :
    S.parse F (items.flatMap (·.bytes F) ++ r) m = S.parse F r (items.foldl Item.apply m) := by
  induction items generalizing m with
  | nil => rfl
  | cons i items ih =>
    rw [List.flatMap_cons, List.append_assoc, parse_of_readField (readField_item (hitems i List.mem_cons_self) _ m)]
    exact ih (fun j hj => hitems j (List.mem_cons_of_mem _ hj)) _

theorem item_of_readField {s r : List UInt8} {m m' : Message μ υ} (h : S.readField F s m = some (m', r)) :
    ∃ i : Item S υ, i.Valid F ∧ ∀ a, S.readField F s a = some (i.apply a, r) := by
  unfold readField at h ⊢
  cases htag : F.readTag s with
  | none =>
    rw [htag] at h
    cases h
  | some t =>
    obtain ⟨tag, s'⟩ := t
    rw [htag] at h
    dsimp only at h ⊢
    cases hknown : S.known tag with
    | some f =>
      rw [hknown] at h
      have hf := (known_eq_some.mp hknown).1
      obtain ⟨⟨v, r'⟩, hread, heq⟩ := Option.map_eq_some_iff.mp h
      obtain ⟨-, rfl⟩ := Prod.mk.inj heq
      refine ⟨.known f hf v, Format.fits_of_read hread, fun a => ?_⟩
      dsimp only
      rw [hread]
      rfl
    | none =>
      rw [hknown] at h
      dsimp only at h
      split at h
      · cases h
      · rename_i hend
        obtain ⟨⟨u, r'⟩, hread, heq⟩ := Option.map_eq_some_iff.mp h
        obtain ⟨-, rfl⟩ := Prod.mk.inj heq
        have hu := F.unknownTag_eq hread
        refine ⟨.unknown u, ?_, fun a => ?_⟩
        · change S.known (F.unknownTag u) = none ∧ _
          rw [hu]
          exact ⟨hknown, hend⟩
        · dsimp only
          rw [if_neg hend, hread]
          rfl

theorem items_of_parse {s : List UInt8} {m m' : Message μ υ} (h : S.parse F s m = some m') :
    ∃ items : List (Item S υ), (∀ i ∈ items, i.Valid F) ∧ ∀ a, S.parse F s a = some (items.foldl Item.apply a) := by
  refine parse_induction h (P := fun s _ => ∃ items : List (Item S υ), (∀ i ∈ items, i.Valid F) ∧
    ∀ a, S.parse F s a = some (items.foldl Item.apply a)) ⟨[], fun i hi => absurd hi List.not_mem_nil, parse_nil⟩ ?_
  rintro s r m m1 hfield ⟨items, hitems, hparse⟩
  obtain ⟨i, hi, hread⟩ := item_of_readField hfield
  refine ⟨i :: items, List.forall_mem_cons.mpr ⟨hi, hitems⟩, fun a => ?_⟩
  rw [parse_of_readField (hread a)]
  exact hparse (i.apply a)

/-! ### Messages and texts -/

def setItems (S : Schema μ) (υ : Type) (m : μ) : List (Item S υ) :=
  S.fields.attach.filterMap fun f => (f.1.get m).map (.known f.1 f.2)

/-- The fields of a message, as they are written. -/
def items (S : Schema μ) (m : Message μ υ) : List (Item S υ) :=
  S.setItems υ m.fields ++ m.unknown.map (.unknown)

theorem items_valid {m : Message μ υ} (hm : S.Readable F m) {i : Item S υ} (hi : i ∈ S.items m) : i.Valid F := by
  rcases List.mem_append.mp hi with h | h
  · obtain ⟨f, -, h⟩ := List.mem_filterMap.mp h
    obtain ⟨v, hv, rfl⟩ := Option.map_eq_some_iff.mp h
    exact hm.fits f.1 f.2 v hv
  · obtain ⟨u, hu, rfl⟩ := List.mem_map.mp h
    exact hm.unknown u hu

theorem flatMap_setItems (m : μ) : (S.setItems υ m).flatMap (·.bytes F) = S.fields.flatMap (writeField F m) := by
  have hattach : ∀ fs : List { f // f ∈ S.fields },
      (fs.filterMap fun f => (f.1.get m).map (Item.known (υ := υ) f.1 f.2)).flatMap (·.bytes F) =
        fs.flatMap fun f => writeField F m f.1 := by
    intro fs
    induction fs with
    | nil => rfl
    | cons f fs ih =>
      rw [List.flatMap_cons, ← ih, List.filterMap_cons]
      unfold writeField
      cases f.1.get m <;> rfl
  unfold setItems
  rw [hattach, List.flatMap_subtype (g := writeField F m) (fun _ _ => rfl), List.unattach_attach]

theorem serialize_eq (m : Message μ υ) : S.serialize F m = (S.items m).flatMap (·.bytes F) := by
  unfold serialize items
  rw [List.flatMap_append, flatMap_setItems, List.flatMap_map]
  rfl

theorem foldl_fields (items : List (Item S υ)) (m : Message μ υ) :
    (items.foldl Item.apply m).fields = items.foldl Item.setIn m.fields := by
  induction items generalizing m with
  | nil => rfl
  | cons i items ih =>
    rw [List.foldl_cons, List.foldl_cons, ih]
    cases i <;> rfl

theorem foldl_unknown (items : List (Item S υ)) (m : Message μ υ) :
    (items.foldl Item.apply m).unknown = m.unknown ++ items.filterMap Item.unknown? := by
  induction items generalizing m with
  | nil => exact (List.append_nil _).symm
  | cons i items ih =>
    rw [List.foldl_cons, ih]
    cases i with
    | known f hf v => rfl
    | unknown u => exact List.append_assoc ..

theorem message_ext {m m' : Message μ υ} (hfields : m.fields = m'.fields) (hunknown : m.unknown = m'.unknown) : m = m' := by
  cases m
  cases m'
  cases hfields
  cases hunknown
  rfl

theorem unknown?_items (m : Message μ υ) : (S.items m).filterMap Item.unknown? = m.unknown := by
  have hset : ∀ us : List υ, (us.map (Item.unknown (S := S))).filterMap Item.unknown? = us := by
    intro us
    induction us with
    | nil => rfl
    | cons u us ih => exact congrArg (u :: ·) ih
  have hknown : (S.setItems υ m.fields).filterMap Item.unknown? = [] := by
    apply List.filterMap_eq_nil_iff.mpr
    intro i hi
    obtain ⟨f, -, hf⟩ := List.mem_filterMap.mp hi
    obtain ⟨v, -, rfl⟩ := Option.map_eq_some_iff.mp hf
    rfl
  unfold items
  rw [List.filterMap_append, hknown, hset]
  rfl

theorem foldl_items (m src : Message μ υ) : (S.items src).foldl Item.apply m = S.mergeFrom m src := by
  have hunknown : ∀ (us : List υ) (m : μ), (us.map (Item.unknown (S := S))).foldl Item.setIn m = m := by
    intro us m
    induction us with
    | nil => rfl
    | cons u us ih => exact ih
  have hfields : ((S.items src).foldl Item.apply m).fields = (S.mergeFrom m src).fields := by
    rw [foldl_fields]
    unfold items mergeFrom setItems
    rw [List.foldl_append, hunknown, List.foldl_filterMap]
    rw [← List.foldl_attach (l := S.fields)]
    congr 1
    funext m f
    unfold mergeField
    cases f.1.get src.fields <;> rfl
  have hunk : ((S.items src).foldl Item.apply m).unknown = (S.mergeFrom m src).unknown := by
    rw [foldl_unknown, unknown?_items]
    rfl
  exact message_ext hfields hunk

/-- A message that is written is merged into what is read before it. -/
theorem parse_serialize_append {src : Message μ υ} (hsrc : S.Readable F src) (r : List UInt8) (m : Message μ υ) :
    S.parse F (S.serialize F src ++ r) m = S.parse F r (S.mergeFrom m src) := by
  rw [serialize_eq, parse_items (fun _ hi => items_valid hsrc hi), foldl_items]

/-! ### What is merged -/

theorem get_mergeField_self {f : FieldOf μ} (hf : f ∈ S.fields) (src m : μ) :
    f.get (mergeField src m f) = (f.get src).or (f.get m) := by
  unfold mergeField
  cases h : f.get src with
  | none => rfl
  | some v => exact S.get_set f hf v m

theorem get_mergeField_ne {f g : FieldOf μ} (hf : f ∈ S.fields) (hg : g ∈ S.fields) (hne : f ≠ g) (src m : μ) :
    g.get (mergeField src m f) = g.get m := by
  unfold mergeField
  cases f.get src with
  | none => rfl
  | some v => exact S.get_set_ne f hf g hg hne v m

theorem get_foldl {fs : List (FieldOf μ)} (hfs : ∀ f ∈ fs, f ∈ S.fields) {g : FieldOf μ} (hg : g ∈ S.fields) (src m : μ) :
    (g ∈ fs → g.get (fs.foldl (mergeField src) m) = (g.get src).or (g.get m)) ∧
    (g ∉ fs → g.get (fs.foldl (mergeField src) m) = g.get m) := by
  induction fs generalizing m with
  | nil => exact ⟨fun h => absurd h List.not_mem_nil, fun _ => rfl⟩
  | cons f fs ih =>
    have hf := hfs f List.mem_cons_self
    obtain ⟨ihmem, ihnot⟩ := ih (fun f' hf' => hfs f' (List.mem_cons_of_mem _ hf')) (mergeField src m f)
    rw [List.foldl_cons]
    constructor
    · intro hmem
      by_cases hrest : g ∈ fs
      · rw [ihmem hrest]
        by_cases hfg : f = g
        · subst hfg
          rw [get_mergeField_self hf]
          cases f.get src <;> rfl
        · rw [get_mergeField_ne hf hg hfg]
      · rw [ihnot hrest]
        obtain rfl : g = f := (List.mem_cons.mp hmem).resolve_right hrest
        exact get_mergeField_self hf src m
    · intro hnot
      rw [ihnot fun h => hnot (List.mem_cons_of_mem _ h)]
      exact get_mergeField_ne hf hg (fun h => hnot (h ▸ List.mem_cons_self)) src m

theorem get_mergeFrom {g : FieldOf μ} (hg : g ∈ S.fields) (m src : Message μ υ) :
    g.get (S.mergeFrom m src).fields = (g.get src.fields).or (g.get m.fields) :=
  (get_foldl (fun _ h => h) hg src.fields m.fields).1 hg

theorem mergeFrom_blank (m : Message μ υ) : S.mergeFrom S.blank m = m := by
  have hfields : (S.mergeFrom S.blank m).fields = m.fields := by
    apply S.ext
    intro g hg
    rw [get_mergeFrom hg]
    change (g.get m.fields).or (g.get S.empty) = _
    rw [S.get_empty g hg, Option.or_none]
  exact message_ext hfields rfl

theorem mergeFrom_apply (a b : Message μ υ) (i : Item S υ) : S.mergeFrom a (i.apply b) = i.apply (S.mergeFrom a b) := by
  cases i with
  | known f hf v =>
    refine message_ext (S.ext _ _ fun g hg => ?_) rfl
    rw [get_mergeFrom hg]
    change (g.get (f.set v b.fields)).or _ = g.get (f.set v (S.mergeFrom a b).fields)
    by_cases hfg : f = g
    · subst hfg
      rw [S.get_set f hf, S.get_set f hf, Option.some_or]
    · rw [S.get_set_ne f hf g hg hfg, S.get_set_ne f hf g hg hfg, get_mergeFrom hg]
  | unknown u => exact message_ext rfl (List.append_assoc ..).symm

theorem mergeFrom_foldl (a b : Message μ υ) (items : List (Item S υ)) :
    S.mergeFrom a (items.foldl Item.apply b) = items.foldl Item.apply (S.mergeFrom a b) := by
  induction items generalizing b with
  | nil => rfl
  | cons i items ih => rw [List.foldl_cons, List.foldl_cons, ih, mergeFrom_apply]

theorem mergeFrom_blank_right (m : Message μ υ) : S.mergeFrom m S.blank = m := by
  refine message_ext (S.ext _ _ fun g hg => ?_) (List.append_nil _)
  rw [get_mergeFrom hg, show g.get S.blank.fields = none from S.get_empty g hg, Option.none_or]

/-- One text behind another gives the messages of both, merged. -/
theorem parse_append_eq_mergeFrom {s t : List UInt8} {a b : Message μ υ} (hs : S.parse F s S.blank = some a)
    (ht : S.parse F t S.blank = some b) : S.parse F (s ++ t) S.blank = some (S.mergeFrom a b) := by
  rw [parse_append hs]
  obtain ⟨items, hitems, hparse⟩ := items_of_parse ht
  rw [Option.some.inj (ht.symm.trans (hparse S.blank)), mergeFrom_foldl, mergeFrom_blank_right]
  exact hparse a

theorem isInitialized_iff {m : Message μ υ} : S.isInitialized m = true ↔ ∀ f ∈ S.fields, ∃ v, f.get m.fields = some v := by
  simp [isInitialized, Option.isSome_iff_exists]

/-! ### Reading again what was written -/

theorem get_of_mem {m : Message μ υ} {f : FieldOf μ} {hf : f ∈ S.fields} {v : f.kind.Val}
    (h : Item.known f hf v ∈ S.items m) : f.get m.fields = some v := by
  rcases List.mem_append.mp h with h | h
  · obtain ⟨g, -, hg⟩ := List.mem_filterMap.mp h
    obtain ⟨w, hw, heq⟩ := Option.map_eq_some_iff.mp hg
    cases heq
    exact hw
  · obtain ⟨u, -, heq⟩ := List.mem_map.mp h
    cases heq

theorem setIn_comm {m : Message μ υ} {i j : Item S υ} (hi : i ∈ S.items m) (hj : j ∈ S.items m) (z : μ) :
    Item.setIn (Item.setIn z i) j = Item.setIn (Item.setIn z j) i := by
  cases i with
  | unknown u => rfl
  | known f hf v =>
    cases j with
    | unknown u => rfl
    | known g hg w =>
      by_cases hfg : f = g
      · -- One field of one message has one value.
        subst hfg
        rw [Option.some.inj ((get_of_mem hi).symm.trans (get_of_mem hj))]
      · apply S.ext
        intro k hk
        change k.get (g.set w (f.set v z)) = k.get (f.set v (g.set w z))
        by_cases hgk : g = k
        · subst hgk
          rw [S.get_set g hg, S.get_set_ne f hf g hg hfg, S.get_set g hg]
        · rw [S.get_set_ne g hg k hk hgk]
          by_cases hfk : f = k
          · subst hfk
            rw [S.get_set f hf, S.get_set f hf]
          · rw [S.get_set_ne f hf k hk hfk, S.get_set_ne f hf k hk hfk, S.get_set_ne g hg k hk hgk]

/-- The fields of a message may come in any order, with any unknown ones between them. -/
theorem parse_shuffled {m : Message μ υ} (hm : S.Readable F m) {text : List (Item S υ)} (htext : text.Perm (S.items m)) :
    ∃ unknown, unknown.Perm m.unknown ∧ S.parse F (text.flatMap (·.bytes F)) S.blank = some ⟨m.fields, unknown⟩ := by
  have hfields : text.foldl Item.setIn S.empty = m.fields := by
    rw [← htext.symm.foldl_eq' (fun i hi j hj z => setIn_comm hi hj z) S.empty]
    have := congrArg Message.fields (foldl_items (S := S) S.blank m)
    rwa [mergeFrom_blank, foldl_fields] at this
  refine ⟨text.filterMap Item.unknown?, ?_, ?_⟩
  · have hperm := htext.filterMap Item.unknown?
    rwa [unknown?_items] at hperm
  · have hparse := parse_items (fun i hi => items_valid hm (htext.mem_iff.mp hi)) [] S.blank
    rw [List.append_nil, parse_nil] at hparse
    rw [hparse]
    refine congrArg some (message_ext ?_ ?_)
    · rw [foldl_fields]
      exact hfields
    · rw [foldl_unknown]
      rfl

theorem parse_serialize {m : Message μ υ} (hm : S.Readable F m) : S.parse F (S.serialize F m) S.blank = some m := by
  have h := parse_serialize_append hm [] S.blank
  rwa [List.append_nil, mergeFrom_blank] at h

theorem readable_apply {m : Message μ υ} (hm : S.Readable F m) {i : Item S υ} (hi : i.Valid F) :
    S.Readable F (i.apply m) := by
  cases i with
  | known f hf v =>
    refine ⟨fun g hg w hw => ?_, hm.unknown⟩
    by_cases hfg : f = g
    · subst hfg
      have hw : f.get (f.set v m.fields) = some w := hw
      rw [S.get_set f hf] at hw
      exact Option.some.inj hw ▸ hi
    · have hw : g.get (f.set v m.fields) = some w := hw
      rw [S.get_set_ne f hf g hg hfg] at hw
      exact hm.fits g hg w hw
  | unknown u =>
    refine ⟨hm.fits, fun u' hu' => ?_⟩
    rcases List.mem_append.mp hu' with hu' | hu'
    · exact hm.unknown u' hu'
    · rw [List.mem_singleton.mp hu']
      exact hi

theorem readable_blank : S.Readable F S.blank where
  fits := by
    intro f hf v hv
    rw [show f.get S.blank.fields = none from S.get_empty f hf] at hv
    cases hv
  unknown := by
    intro u hu
    cases hu

theorem readable_of_parse {s : List UInt8} {m m' : Message μ υ} (hm : S.Readable F m) (h : S.parse F s m = some m') :
    S.Readable F m' := by
  obtain ⟨items, hitems, hparse⟩ := items_of_parse h
  obtain rfl := Option.some.inj (h.symm.trans (hparse m))
  clear h hparse
  induction items generalizing m with
  | nil => exact hm
  | cons i items ih =>
    rw [List.foldl_cons]
    exact ih (readable_apply hm (hitems i List.mem_cons_self)) fun j hj => hitems j (List.mem_cons_of_mem _ hj)

/-! ### The size of a message -/

theorem length_writeField {f : FieldOf μ} (hf : f ∈ S.fields) (m : μ) : (writeField F m f).length =
    match f.get m with
    | none => 0
    | some v => 1 + F.size f.kind v := by
  unfold writeField
  cases f.get m with
  | none => rfl
  | some v =>
    dsimp only
    rw [List.length_append, F.length_writeTag _ (tag_lt hf).1, F.size_eq]

theorem requiredSize_eq {order : List (FieldOf μ)} (horder : ∀ f ∈ order, f ∈ S.fields) {m : Message μ υ}
    (hm : S.isInitialized m = true) : requiredSize F order m.fields = requiredSizeFallback F order m.fields := by
  unfold requiredSize requiredSizeFallback
  refine congrArg List.sum (List.map_congr_left fun f hf => ?_)
  obtain ⟨v, hv⟩ := isInitialized_iff.mp hm f (horder f hf)
  rw [hv]
  rfl

theorem byteSize_eq {order : List (FieldOf μ)} (horder : order.Perm S.fields) (m : Message μ υ) :
    S.byteSize F order m = (S.serialize F m).length := by
  have hfallback : requiredSizeFallback F order m.fields = (S.fields.flatMap (writeField F m.fields)).length := by
    unfold requiredSizeFallback
    rw [(horder.map _).sum_eq, List.length_flatMap]
    exact congrArg List.sum (List.map_congr_left fun f hf => (length_writeField hf m.fields).symm)
  have hunknown : (m.unknown.map F.unknownSize).sum =
      (m.unknown.flatMap fun u => F.writeTag (F.unknownTag u) ++ F.writeUnknown u).length := by
    rw [List.length_flatMap]
    refine congrArg List.sum (List.map_congr_left fun u _ => ?_)
    rw [List.length_append, F.unknownSize_eq]
  unfold byteSize serialize
  rw [List.length_append, ← hunknown, ← hfallback]
  split
  · rename_i hm
    rw [requiredSize_eq (fun f hf => horder.mem_iff.mp hf) hm]
  · rfl

end Schema

end Wire
