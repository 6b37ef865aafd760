import NetDisk.Lib.Walk
import Mathlib.Data.List.TakeWhile

/-!
# Bytes, names and path texts

A C++ `string` is a list of bytes. `dirText` writes a path the way the server's flags and code
do, with a slash after each name; reading it back gives the same names.
-/

namespace NetDisk

abbrev Byte := UInt8
abbrev Bytes := List Byte

def ch (c : Char) : Byte := UInt8.ofNat c.toNat

def ascii (s : String) : Bytes := s.toList.map ch

/-- What a C function reads of `s.c_str()`. -/
def cStr (s : Bytes) : Bytes := s.takeWhile (· ≠ 0)

theorem cStr_eq_self {s : Bytes} (h : (0 : Byte) ∉ s) : cStr s = s := by
  rw [cStr, List.takeWhile_eq_self_iff]
  intro b hb
  have : b ≠ 0 := fun h0 => h (h0 ▸ hb)
  simpa using this

theorem zero_not_mem_cStr (s : Bytes) : (0 : Byte) ∉ cStr s := by
  intro h
  simpa using List.mem_takeWhile_imp h

/-- `new` over the start of `old`. -/
def overlay (old new : Bytes) : Bytes := new ++ old.drop new.length

@[simp] theorem overlay_nil_old (new : Bytes) : overlay [] new = new := by simp [overlay]

@[simp] theorem overlay_self (s : Bytes) : overlay s s = s := by simp [overlay]

theorem overlay_eq_self {old new : Bytes} : overlay old new = old ↔ new <+: old := by
  constructor
  · exact fun h => ⟨_, h⟩
  · rintro ⟨rest, rfl⟩
    rw [overlay, List.drop_left]

/-! ## Decimal numbers -/

/-- `to_string` of an unsigned number. -/
def toString (n : Nat) : Bytes := (Nat.toDigits 10 n).map ch

theorem char_of_digit (c : Char) (h : c.isDigit) : Char.ofNat (ch c).toNat = c := by
  have hle : c.toNat ≤ 57 := by
    simp only [Char.isDigit, Bool.and_eq_true, decide_eq_true_eq] at h
    exact UInt32.le_iff_toNat_le.mp h.2
  rw [ch, UInt8.toNat_ofNat', Nat.mod_eq_of_lt (by omega), Char.ofNat_toNat]

theorem toDigits_of_toString (n : Nat) :
    (toString n).map (fun b => Char.ofNat b.toNat) = Nat.toDigits 10 n := by
  rw [toString, List.map_map]
  conv_rhs => rw [← List.map_id (Nat.toDigits 10 n)]
  apply List.map_congr_left
  intro c hc
  exact char_of_digit c (Nat.isDigit_of_mem_toDigits (by omega) (by omega) hc)

theorem toString_injective : Function.Injective toString := by
  intro m n h
  have hd : Nat.toDigits 10 m = Nat.toDigits 10 n := by
    rw [← toDigits_of_toString, ← toDigits_of_toString, h]
  rw [← Nat.ofDigitChars_ten_toDigits (n := m), hd, Nat.ofDigitChars_ten_toDigits]

@[simp] theorem toString_inj {m n : Nat} : toString m = toString n ↔ m = n :=
  toString_injective.eq_iff

theorem toString_digits (n : Nat) (b : Byte) (hb : b ∈ toString n) : 48 ≤ b.toNat ∧ b.toNat ≤ 57 := by
  obtain ⟨c, hc, rfl⟩ := List.mem_map.mp hb
  have hd := Nat.isDigit_of_mem_toDigits (by omega) (by omega) hc
  simp only [Char.isDigit, Bool.and_eq_true, decide_eq_true_eq] at hd
  have hlo : 48 ≤ c.toNat := UInt32.le_iff_toNat_le.mp hd.1
  have hhi : c.toNat ≤ 57 := UInt32.le_iff_toNat_le.mp hd.2
  rw [ch, UInt8.toNat_ofNat', Nat.mod_eq_of_lt (by omega)]
  exact ⟨hlo, hhi⟩

/-! ## Names -/

abbrev Name := Bytes
abbrev Path := List Name

def slash : Byte := ch '/'
def space : Byte := ch ' '
def dot : Name := ascii "."
def dotdot : Name := ascii ".."

/-- The bytes that the shell does not take as they stand, other than the space. -/
def shellSpecial : Bytes := ascii "|&;<>()$`\\\"'\t\n*?[#~=%"

/-- A name that stands for itself in a path and in a shell command. -/
def Plain (n : Name) : Prop :=
  n ≠ [] ∧ n ≠ dot ∧ n ≠ dotdot ∧ ∀ b ∈ n, b ≠ 0 ∧ b ≠ slash ∧ b ≠ space ∧ b ∉ shellSpecial

instance (n : Name) : Decidable (Plain n) := inferInstanceAs (Decidable (_ ∧ _ ∧ _ ∧ _))

/-- A name that is one component of a path. -/
def Single (n : Name) : Prop := n ≠ [] ∧ n ≠ dot ∧ n ≠ dotdot ∧ (0 : Byte) ∉ n ∧ slash ∉ n

instance (n : Name) : Decidable (Single n) := inferInstanceAs (Decidable (_ ∧ _ ∧ _ ∧ _ ∧ _))

def isAlnum (b : Byte) : Bool :=
  (48 ≤ b ∧ b ≤ 57) ∨ (65 ≤ b ∧ b ≤ 90) ∨ (97 ≤ b ∧ b ≤ 122)

/-- A non-empty string of letters and digits. -/
def Alnum (n : Bytes) : Prop := n ≠ [] ∧ ∀ b ∈ n, isAlnum b = true

instance (n : Bytes) : Decidable (Alnum n) := inferInstanceAs (Decidable (_ ∧ _))

def isHex (b : Byte) : Bool :=
  (48 ≤ b ∧ b ≤ 57) ∨ (65 ≤ b ∧ b ≤ 70) ∨ (97 ≤ b ∧ b ≤ 102)

/-- 32 hexadecimal digits. -/
def Hex32 (s : Bytes) : Prop := s.length = 32 ∧ ∀ b ∈ s, isHex b = true

instance (s : Bytes) : Decidable (Hex32 s) := inferInstanceAs (Decidable (_ ∧ _))

theorem alnum_byte (b : Byte) (h : isAlnum b = true) :
    b ≠ 0 ∧ b ≠ slash ∧ b ≠ space ∧ b ∉ shellSpecial ∧ b ≠ ch '.' := by
  have hall : ∀ n < 256, isAlnum (UInt8.ofNat n) = true → UInt8.ofNat n ≠ 0 ∧ UInt8.ofNat n ≠ slash ∧
      UInt8.ofNat n ≠ space ∧ UInt8.ofNat n ∉ shellSpecial ∧ UInt8.ofNat n ≠ ch '.' := by decide +kernel
  have := hall b.toNat b.toNat_lt
  rw [UInt8.ofNat_toNat] at this
  exact this h

theorem Alnum.plain {n : Name} (h : Alnum n) : Plain n := by
  obtain ⟨hne, hall⟩ := h
  have hdot : ch '.' ∉ n := fun hm => (alnum_byte _ (hall _ hm)).2.2.2.2 rfl
  refine ⟨hne, ?_, ?_, ?_⟩
  · rintro rfl; exact hdot (by decide)
  · rintro rfl; exact hdot (by decide)
  · intro b hb
    obtain ⟨h0, h1, h2, h3, _⟩ := alnum_byte b (hall b hb)
    exact ⟨h0, h1, h2, h3⟩

theorem Hex32.alnum {s : Bytes} (h : Hex32 s) : Alnum s := by
  refine ⟨by rintro rfl; exact absurd h.1 (by simp), ?_⟩
  intro b hb
  have hx := h.2 b hb
  simp only [isHex, isAlnum, decide_eq_true_eq] at hx ⊢
  rcases hx with hx | hx | hx
  · exact Or.inl hx
  · exact Or.inr (Or.inl ⟨hx.1, UInt8.le_trans hx.2 (by decide)⟩)
  · exact Or.inr (Or.inr ⟨hx.1, UInt8.le_trans hx.2 (by decide)⟩)

theorem Hex32.plain {s : Bytes} (h : Hex32 s) : Plain s := h.alnum.plain

theorem plain_toString (n : Nat) : Plain (toString n) := by
  apply Alnum.plain
  refine ⟨by simp [toString, Nat.toDigits_ne_nil], ?_⟩
  intro b hb
  obtain ⟨hlo, hhi⟩ := toString_digits n b hb
  simp only [isAlnum, decide_eq_true_eq]
  exact Or.inl ⟨UInt8.le_iff_toNat_le.mpr hlo, UInt8.le_iff_toNat_le.mpr hhi⟩

section
variable {n : Name} (h : Plain n)
include h

theorem Plain.ne_nil : n ≠ [] := h.1
theorem Plain.no_zero : (0 : Byte) ∉ n := fun hm => (h.2.2.2 _ hm).1 rfl
theorem Plain.no_slash : slash ∉ n := fun hm => (h.2.2.2 _ hm).2.1 rfl
theorem Plain.single : Single n := ⟨h.1, h.2.1, h.2.2.1, h.no_zero, h.no_slash⟩

end

/-! ## Path texts -/

def toComp (w : Name) : Comp Name :=
  if w = dot then .here else if w = dotdot then .up else .name w

/-- The components of a path text; empty ones, from repeated slashes, do not count. -/
def pathComps (text : Bytes) : List (Comp Name) :=
  ((text.splitOn slash).filter (· ≠ [])).map toComp

/-- A final slash asks for a directory, like a final `.`. -/
def finalSlash (text : Bytes) : List (Comp Name) :=
  if text.getLast? = some slash then [.here] else []

def isAbsolute (text : Bytes) : Bool := text.head? = some slash

/-- How the target of a symbolic link reads. -/
def readPath : FileTree.ReadLink Name Bytes :=
  fun text => (isAbsolute text, pathComps text ++ finalSlash text)

/-- The text of the directory `p`, from the root, with a final slash. -/
def dirText (p : Path) : Bytes := slash :: p.flatMap fun n => n ++ [slash]

theorem dirText_snoc (p : Path) (n : Name) : dirText (p ++ [n]) = dirText p ++ n ++ [slash] := by
  simp [dirText]

theorem isAbsolute_dirText (p : Path) (rest : Bytes) : isAbsolute (dirText p ++ rest) = true := by
  simp [isAbsolute, dirText]

theorem splitOn_dirText (p : Path) (rest : Bytes) (hp : ∀ n ∈ p, Plain n) :
    (dirText p ++ rest).splitOn slash = [] :: p ++ rest.splitOn slash := by
  have hbody : ((p.flatMap fun n => n ++ [slash]) ++ rest).splitOn slash = p ++ rest.splitOn slash := by
    induction p with
    | nil => simp
    | cons n p ih =>
      have hn := (hp n List.mem_cons_self).no_slash
      rw [List.flatMap_cons, List.append_assoc, List.append_assoc, List.singleton_append,
        List.splitOn_append_cons_self, List.splitOn_eq_singleton hn, ih fun m hm => hp m (List.mem_cons_of_mem _ hm)]
      simp
  have hcons := List.splitOn_append_cons_self (a := slash) [] ((p.flatMap fun n => n ++ [slash]) ++ rest)
  rw [List.nil_append] at hcons
  rw [dirText, List.cons_append, hcons, hbody]
  simp

theorem filter_plain (p : Path) (hp : ∀ n ∈ p, Plain n) : p.filter (· ≠ []) = p := by
  rw [List.filter_eq_self]
  intro n hn
  simpa using (hp n hn).ne_nil

theorem map_toComp (p : Path) (hp : ∀ n ∈ p, Plain n) : p.map toComp = p.map .name := by
  apply List.map_congr_left
  intro n hn
  obtain ⟨_, hdot, hdd, _⟩ := hp n hn
  rw [toComp, if_neg hdot, if_neg hdd]

theorem pathComps_dirText (p : Path) (hp : ∀ n ∈ p, Plain n) : pathComps (dirText p) = p.map .name := by
  have hs := splitOn_dirText p [] hp
  rw [List.append_nil, List.splitOn_nil] at hs
  rw [pathComps, hs, ← map_toComp p hp, List.cons_append, List.filter_cons_of_neg (by simp),
    List.filter_append, filter_plain p hp]
  simp

theorem pathComps_single (p : Path) (n : Name) (hp : ∀ m ∈ p, Plain m) (hn : Single n) :
    pathComps (dirText p ++ n) = (p ++ [n]).map .name := by
  obtain ⟨hne, hdot, hdd, _, hslash⟩ := hn
  have hcomp : ([n].filter (· ≠ [])).map toComp = [.name n] := by
    rw [List.filter_cons_of_pos (by simpa using hne), List.filter_nil, List.map_singleton, toComp, if_neg hdot, if_neg hdd]
  rw [pathComps, splitOn_dirText p n hp, List.splitOn_eq_singleton hslash, List.cons_append,
    List.filter_cons_of_neg (by simp), List.filter_append, filter_plain _ hp, List.map_append, map_toComp _ hp, hcomp,
    List.map_append, List.map_singleton]

theorem pathComps_name (p : Path) (n : Name) (hp : ∀ m ∈ p, Plain m) (hn : Plain n) :
    pathComps (dirText p ++ n) = (p ++ [n]).map .name := pathComps_single p n hp hn.single

theorem finalSlash_dirText (p : Path) : finalSlash (dirText p) = [.here] := by
  have : (dirText p).getLast? = some slash := by
    induction p using List.reverseRecOn with
    | nil => rfl
    | append_singleton p n _ => rw [dirText_snoc, List.getLast?_concat]
  rw [finalSlash, if_pos this]

theorem finalSlash_name (p : Path) (n : Name) (hn : Plain n) : finalSlash (dirText p ++ n) = [] := by
  rw [finalSlash, if_neg]
  intro h
  rw [List.getLast?_append_of_ne_nil _ hn.ne_nil] at h
  exact hn.no_slash (List.mem_of_getLast? h)

theorem zero_not_mem_dirText (p : Path) (hp : ∀ n ∈ p, Plain n) : (0 : Byte) ∉ dirText p := by
  simp only [dirText, List.mem_cons, List.mem_flatMap, List.mem_append, List.not_mem_nil, or_false]
  rintro (h | ⟨n, hn, h | h⟩)
  · exact absurd h (by decide)
  · exact (hp n hn).no_zero h
  · exact absurd h (by decide)

end NetDisk
