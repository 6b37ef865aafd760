import NetDisk.Lib.Wire

/-!
# Numbers in base 128

The bytes of a message as they usually are: a number has seven bits in a byte, the lowest first, and the high bit
is set in all bytes but the last. What comes out is cut down to the bits of its type.
-/

namespace Wire.Base128

/-! ## Numbers -/

def writeVarint (n : Nat) : List UInt8 :=
  if n < 128 then [UInt8.ofNat n] else UInt8.ofNat (n % 128 + 128) :: writeVarint (n / 128)

/-- A number of `max` bytes at most. -/
def readVarint : (max : Nat) → List UInt8 → Option (Nat × List UInt8)
  | 0, _ => none
  | _ + 1, [] => none
  | max + 1, b :: s =>
    if b < 128 then some (b.toNat, s) else (readVarint max s).map fun r => (b.toNat - 128 + 128 * r.1, r.2)

theorem length_writeVarint {n : Nat} (h : n < 128) : (writeVarint n).length = 1 := by
  rw [writeVarint, if_pos h]
  rfl

theorem readVarint_writeVarint (max n : Nat) (h : n < 128 ^ (max + 1)) (r : List UInt8) :
    readVarint (max + 1) (writeVarint n ++ r) = some (n, r) := by
  induction max generalizing n with
  | zero =>
    have hn : (UInt8.ofNat n).toNat = n := Nat.mod_eq_of_lt (by omega)
    have hlt : UInt8.ofNat n < 128 := show (UInt8.ofNat n).toNat < 128 by omega
    rw [writeVarint, if_pos (by omega), List.singleton_append, readVarint, if_pos hlt, hn]
  | succ max ih =>
    rw [writeVarint]
    split
    · rename_i hlt
      have hn : (UInt8.ofNat n).toNat = n := Nat.mod_eq_of_lt (by omega)
      have hlt : UInt8.ofNat n < 128 := show (UInt8.ofNat n).toNat < 128 by omega
      rw [List.singleton_append, readVarint, if_pos hlt, hn]
    · have hn : (UInt8.ofNat (n % 128 + 128)).toNat = n % 128 + 128 := Nat.mod_eq_of_lt (by omega)
      have hge : ¬ UInt8.ofNat (n % 128 + 128) < 128 := show ¬ (UInt8.ofNat (n % 128 + 128)).toNat < 128 by omega
      rw [List.cons_append, readVarint, if_neg hge, ih (n / 128) (by rw [Nat.pow_succ] at h; omega), hn,
        Option.map_some]
      refine congrArg (fun n => some (n, r)) ?_
      change n % 128 + 128 - 128 + 128 * (n / 128) = n
      omega

theorem readVarint_lt {max n : Nat} {s r : List UInt8} (h : readVarint max s = some (n, r)) : r.length < s.length := by
  induction max generalizing n s with
  | zero => cases h
  | succ max ih =>
    cases s with
    | nil => cases h
    | cons b s =>
      rw [readVarint] at h
      split at h
      · cases h
        exact Nat.lt_succ_self _
      · obtain ⟨⟨n', r'⟩, hread, heq⟩ := Option.map_eq_some_iff.mp h
        cases heq
        exact Nat.lt_succ_of_lt (ih hread)

theorem readVarint_append {max n : Nat} {s r : List UInt8} (later : List UInt8) (h : readVarint max s = some (n, r)) :
    readVarint max (s ++ later) = some (n, r ++ later) := by
  induction max generalizing n s with
  | zero => cases h
  | succ max ih =>
    cases s with
    | nil => cases h
    | cons b s =>
      rw [readVarint] at h
      rw [List.cons_append, readVarint]
      split at h
      · rename_i hb
        cases h
        rw [if_pos hb]
      · rename_i hb
        obtain ⟨⟨n', r'⟩, hread, heq⟩ := Option.map_eq_some_iff.mp h
        cases heq
        rw [if_neg hb, ih hread]
        rfl

/-! ## Bytes -/

def readBytes (n : Nat) (s : List UInt8) : Option ({ b : List UInt8 // b.length = n } × List UInt8) :=
  if h : n ≤ s.length then some (⟨s.take n, List.length_take_of_le h⟩, s.drop n) else none

theorem readBytes_append {n : Nat} (b : List UInt8) (hb : b.length = n) (r : List UInt8) :
    readBytes n (b ++ r) = some (⟨b, hb⟩, r) := by
  subst hb
  unfold readBytes
  rw [dif_pos (by rw [List.length_append]; omega)]
  simp

theorem readBytes_eq {n : Nat} {s r : List UInt8} {b : { b : List UInt8 // b.length = n }}
    (h : readBytes n s = some (b, r)) : s = b.1 ++ r := by
  unfold readBytes at h
  split at h
  · cases h
    exact (List.take_append_drop ..).symm
  · cases h

theorem readBytes_later {n : Nat} {s r : List UInt8} {b : { b : List UInt8 // b.length = n }} (later : List UInt8)
    (h : readBytes n s = some (b, r)) : readBytes n (s ++ later) = some (b, r ++ later) := by
  rw [readBytes_eq h, List.append_assoc]
  exact readBytes_append b.1 b.2 _

/-- A length that is not negative as a signed number, with some bytes of it left free. -/
def maxSize : Nat := 2 ^ 31 - 1 - 16

def readString (s : List UInt8) : Option ({ b : List UInt8 // b.length ≤ maxSize } × List UInt8) :=
  match readVarint 5 s with
  | none => none
  | some (n, s) =>
    if h : n ≤ maxSize then (readBytes n s).map fun r => (⟨r.1.1, Nat.le_trans (Nat.le_of_eq r.1.2) h⟩, r.2) else none

def writeString (b : List UInt8) : List UInt8 := writeVarint b.length ++ b

theorem readString_writeString (b : List UInt8) (h : b.length ≤ maxSize) (r : List UInt8) :
    readString (writeString b ++ r) = some (⟨b, h⟩, r) := by
  have hlt : b.length < 128 ^ (4 + 1) := Nat.lt_of_le_of_lt h (by decide)
  unfold readString writeString
  rw [List.append_assoc, readVarint_writeVarint 4 _ hlt]
  dsimp only
  rw [dif_pos h, readBytes_append b rfl]
  rfl

theorem readString_le {s r : List UInt8} {b : { b : List UInt8 // b.length ≤ maxSize }}
    (h : readString s = some (b, r)) : r.length ≤ s.length := by
  unfold readString at h
  cases hn : readVarint 5 s with
  | none =>
    rw [hn] at h
    cases h
  | some t =>
    have hlt := readVarint_lt hn
    rw [hn] at h
    dsimp only at h
    split at h
    · obtain ⟨⟨b', r'⟩, hread, heq⟩ := Option.map_eq_some_iff.mp h
      cases heq
      have hlen := congrArg List.length (readBytes_eq hread)
      rw [List.length_append] at hlen
      change r'.length ≤ s.length
      omega
    · cases h

theorem readString_append {s r : List UInt8} {b : { b : List UInt8 // b.length ≤ maxSize }} (later : List UInt8)
    (h : readString s = some (b, r)) : readString (s ++ later) = some (b, r ++ later) := by
  unfold readString at h ⊢
  cases hn : readVarint 5 s with
  | none =>
    rw [hn] at h
    cases h
  | some t =>
    rw [hn] at h
    rw [readVarint_append later hn]
    dsimp only at h ⊢
    split at h
    · rename_i hle
      obtain ⟨⟨b', r'⟩, hread, heq⟩ := Option.map_eq_some_iff.mp h
      cases heq
      rw [dif_pos hle, readBytes_later later hread]
      rfl
    · cases h

/-! ## Fields that a message does not know -/

/-- What stands behind a tag, as far as its low bits say it: groups are not read. -/
inductive Content where
  | varint (n : UInt64)
  | fixed64 (b : { b : List UInt8 // b.length = 8 })
  | bytes (b : { b : List UInt8 // b.length ≤ maxSize })
  | fixed32 (b : { b : List UInt8 // b.length = 4 })

namespace Content

def wireType : Content → UInt32
  | varint _ => 0
  | fixed64 _ => 1
  | bytes _ => 2
  | fixed32 _ => 5

def write : Content → List UInt8
  | varint n => writeVarint n.toNat
  | fixed64 b => b.1
  | bytes b => writeString b.1
  | fixed32 b => b.1

def read (wireType : UInt32) (s : List UInt8) : Option (Content × List UInt8) :=
  if wireType = 0 then (readVarint 10 s).map fun r => (varint (UInt64.ofNat r.1), r.2)
  else if wireType = 1 then (readBytes 8 s).map fun r => (fixed64 r.1, r.2)
  else if wireType = 2 then (readString s).map fun r => (bytes r.1, r.2)
  else if wireType = 5 then (readBytes 4 s).map fun r => (fixed32 r.1, r.2)
  else none

theorem readVarint_uint64 (n : UInt64) (r : List UInt8) : readVarint 10 (writeVarint n.toNat ++ r) = some (n.toNat, r) :=
  readVarint_writeVarint 9 _ (Nat.lt_trans n.toNat_lt (by decide)) r

theorem read_write (c : Content) (r : List UInt8) : read c.wireType (c.write ++ r) = some (c, r) := by
  cases c with
  | varint n =>
    change (readVarint 10 (writeVarint n.toNat ++ r)).map _ = _
    rw [readVarint_uint64, Option.map_some, UInt64.ofNat_toNat]
  | fixed64 b =>
    change (readBytes 8 (b.1 ++ r)).map _ = _
    rw [readBytes_append b.1 b.2]
    rfl
  | bytes b =>
    change (readString (writeString b.1 ++ r)).map _ = _
    rw [readString_writeString b.1 b.2]
    rfl
  | fixed32 b =>
    change (readBytes 4 (b.1 ++ r)).map _ = _
    rw [readBytes_append b.1 b.2]
    rfl

theorem of_read {wireType : UInt32} {s r : List UInt8} {c : Content} (h : read wireType s = some (c, r)) :
    c.wireType = wireType ∧ r.length ≤ s.length ∧ ∀ later, read wireType (s ++ later) = some (c, r ++ later) := by
  unfold read at h ⊢
  split at h
  · obtain ⟨⟨n, r'⟩, hread, heq⟩ := Option.map_eq_some_iff.mp h
    cases heq
    refine ⟨‹wireType = 0›.symm, Nat.le_of_lt (readVarint_lt hread), fun later => ?_⟩
    rw [if_pos ‹wireType = 0›, readVarint_append later hread]
    rfl
  rename_i h0
  split at h
  · obtain ⟨⟨b, r'⟩, hread, heq⟩ := Option.map_eq_some_iff.mp h
    cases heq
    refine ⟨‹wireType = 1›.symm, ?_, fun later => ?_⟩
    · rw [readBytes_eq hread, List.length_append]
      exact Nat.le_add_left ..
    · rw [if_neg h0, if_pos ‹wireType = 1›, readBytes_later later hread]
      rfl
  rename_i h1
  split at h
  · obtain ⟨⟨b, r'⟩, hread, heq⟩ := Option.map_eq_some_iff.mp h
    cases heq
    refine ⟨‹wireType = 2›.symm, readString_le hread, fun later => ?_⟩
    rw [if_neg h0, if_neg h1, if_pos ‹wireType = 2›, readString_append later hread]
    rfl
  rename_i h2
  split at h
  · obtain ⟨⟨b, r'⟩, hread, heq⟩ := Option.map_eq_some_iff.mp h
    cases heq
    refine ⟨‹wireType = 5›.symm, ?_, fun later => ?_⟩
    · rw [readBytes_eq hread, List.length_append]
      exact Nat.le_add_left ..
    · rw [if_neg h0, if_neg h1, if_neg h2, if_pos ‹wireType = 5›, readBytes_later later hread]
      rfl
  · cases h

end Content

/-- The number 0 is none. -/
structure Unknown where
  tag : UInt32
  number : tag >>> 3 ≠ 0
  content : Content
  wireType : content.wireType = tag &&& 7

def readUnknown (tag : UInt32) (s : List UInt8) : Option (Unknown × List UInt8) :=
  if hn : tag >>> 3 = 0 then none
  else match h : Content.read (tag &&& 7) s with
    | none => none
    | some (c, r) => some (⟨tag, hn, c, (Content.of_read h).1⟩, r)

theorem readUnknown_eq_some {tag : UInt32} {s r : List UInt8} {u : Unknown} :
    readUnknown tag s = some (u, r) ↔ u.tag = tag ∧ Content.read (tag &&& 7) s = some (u.content, r) := by
  unfold readUnknown
  constructor
  · intro h
    split at h
    · cases h
    · split at h
      · cases h
      · rename_i hread
        cases h
        exact ⟨rfl, hread⟩
  · rintro ⟨rfl, hread⟩
    rw [dif_neg u.number]
    split
    · rename_i hnone
      exact absurd (hnone.symm.trans hread) (by simp)
    · rename_i c r' hsome
      cases hsome.symm.trans hread
      rfl

/-! ## The format -/

def read : (k : Kind) → List UInt8 → Option (k.Val × List UInt8)
  | .uint32, s => (readVarint 10 s).map fun r => (UInt32.ofNat r.1, r.2)
  | .bool, s => (readVarint 10 s).map fun r => (UInt64.ofNat r.1 != 0, r.2)
  | .string, s => (readString s).map fun r => (r.1.1, r.2)

def write : (k : Kind) → k.Val → List UInt8
  | .uint32, n => writeVarint n.toNat
  | .bool, b => [if b then 1 else 0]
  | .string, s => writeString s

theorem readVarint_uint32 (max : Nat) (n : UInt32) (r : List UInt8) (hmax : 4 ≤ max) :
    readVarint (max + 1) (writeVarint n.toNat ++ r) = some (n.toNat, r) := by
  apply readVarint_writeVarint
  have hpow : 128 ^ (4 + 1) ≤ 128 ^ (max + 1) := Nat.pow_le_pow_right (by decide) (by omega)
  exact Nat.lt_of_lt_of_le (Nat.lt_trans n.toNat_lt (by decide)) hpow

theorem of_read {k : Kind} {s r : List UInt8} {v : k.Val} (h : read k s = some (v, r)) :
    r.length ≤ s.length ∧ ∀ later, read k (s ++ later) = some (v, r ++ later) := by
  cases k with
  | uint32 =>
    obtain ⟨⟨n, r'⟩, hread, heq⟩ := Option.map_eq_some_iff.mp h
    cases heq
    exact ⟨Nat.le_of_lt (readVarint_lt hread), fun later => by rw [read, readVarint_append later hread]; rfl⟩
  | bool =>
    obtain ⟨⟨n, r'⟩, hread, heq⟩ := Option.map_eq_some_iff.mp h
    cases heq
    exact ⟨Nat.le_of_lt (readVarint_lt hread), fun later => by rw [read, readVarint_append later hread]; rfl⟩
  | string =>
    obtain ⟨⟨b, r'⟩, hread, heq⟩ := Option.map_eq_some_iff.mp h
    cases heq
    exact ⟨readString_le hread, fun later => by rw [read, readString_append later hread]; rfl⟩

def format : Format Unknown where
  readTag s := (readVarint 5 s).map fun r => (UInt32.ofNat r.1, r.2)
  read := read
  readUnknown := readUnknown
  writeTag t := writeVarint t.toNat
  write := write
  unknownTag := Unknown.tag
  writeUnknown u := u.content.write
  uint32Size n := (writeVarint n.toNat).length
  stringSize s := (writeString s).length
  unknownSize u := (writeVarint u.tag.toNat ++ u.content.write).length
  maxSize := maxSize
  readTag_lt h := by
    obtain ⟨⟨n, r'⟩, hread, heq⟩ := Option.map_eq_some_iff.mp h
    cases heq
    exact readVarint_lt hread
  read_le h := (of_read h).1
  readUnknown_le h := (Content.of_read (readUnknown_eq_some.mp h).2).2.1
  readTag_append later h := by
    obtain ⟨⟨n, r'⟩, hread, heq⟩ := Option.map_eq_some_iff.mp h
    cases heq
    rw [readVarint_append later hread]
    rfl
  read_append later h := (of_read h).2 later
  readUnknown_append later h := by
    obtain ⟨htag, hread⟩ := readUnknown_eq_some.mp h
    exact readUnknown_eq_some.mpr ⟨htag, (Content.of_read hread).2.2 later⟩
  readTag_writeTag t r := by rw [readVarint_uint32 4 t r (Nat.le_refl 4), Option.map_some, UInt32.ofNat_toNat]
  read_uint32 n r := by
    change (readVarint 10 (writeVarint n.toNat ++ r)).map _ = _
    rw [readVarint_uint32 9 n r (by decide), Option.map_some, UInt32.ofNat_toNat]
  read_bool b r := by cases b <;> rfl
  read_string s r h := by
    change (readString (writeString s ++ r)).map _ = _
    rw [readString_writeString s h]
    rfl
  string_le h := by
    obtain ⟨⟨b, r'⟩, -, heq⟩ := Option.map_eq_some_iff.mp h
    cases heq
    exact b.2
  readUnknown_write u r := by
    apply readUnknown_eq_some.mpr
    rw [← u.wireType]
    exact ⟨rfl, Content.read_write u.content r⟩
  unknownTag_eq h := (readUnknown_eq_some.mp h).1
  length_writeTag t h := length_writeVarint h
  uint32Size_eq _ := rfl
  stringSize_eq _ := rfl
  length_bool _ := rfl
  unknownSize_eq _ := List.length_append

end Wire.Base128
