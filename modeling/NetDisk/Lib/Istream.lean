import Mathlib.Data.List.Basic
import Mathlib.Data.List.TakeWhile

/-!
# Reading from a C++ stream

`operator>>` for integers and for strings, and the words of a text. Once something has failed, nothing
more is read.
-/

namespace Istream

/-! ## Words -/

def isSpace (b : UInt8) : Bool := b = 32 || (9 ≤ b && b ≤ 13)

def skipWs (s : List UInt8) : List UInt8 := s.dropWhile isSpace

/-- The bytes before the first space. -/
def word (s : List UInt8) : List UInt8 := s.takeWhile fun b => !isSpace b

def afterWord (s : List UInt8) : List UInt8 := s.dropWhile fun b => !isSpace b

theorem word_append_afterWord (s : List UInt8) : word s ++ afterWord s = s := List.takeWhile_append_dropWhile

theorem isSpace_of_mem_word {s : List UInt8} {b : UInt8} (h : b ∈ word s) : isSpace b = false := by
  simpa using List.mem_takeWhile_imp h

theorem head_skipWs {s rest : List UInt8} {b : UInt8} (h : skipWs s = b :: rest) : isSpace b = false := by
  have hne : s.dropWhile isSpace ≠ [] := by
    unfold skipWs at h
    rw [h]
    exact List.cons_ne_nil b rest
  have hhead := List.head_dropWhile_not isSpace hne
  unfold skipWs at h
  simpa only [h, List.head_cons] using hhead

theorem head_afterWord {s rest : List UInt8} {b : UInt8} (h : afterWord s = b :: rest) : isSpace b = true := by
  have hne : s.dropWhile (fun b => !isSpace b) ≠ [] := by
    unfold afterWord at h
    rw [h]
    exact List.cons_ne_nil b rest
  have hhead := List.head_dropWhile_not (fun b => !isSpace b) hne
  unfold afterWord at h
  simpa only [h, List.head_cons, Bool.not_eq_eq_eq_not, Bool.not_false] using hhead

theorem word_ne_nil {s rest : List UInt8} {b : UInt8} (h : skipWs s = b :: rest) : word (b :: rest) ≠ [] := by
  unfold word
  rw [List.takeWhile_cons_of_pos (by rw [head_skipWs h]; rfl)]
  exact List.cons_ne_nil b _

theorem length_afterWord_lt {s rest : List UInt8} {b : UInt8} (h : skipWs s = b :: rest) :
    (afterWord (b :: rest)).length < (b :: rest).length := by
  have hlen := congrArg List.length (word_append_afterWord (b :: rest))
  rw [List.length_append] at hlen
  have hpos := List.length_pos_iff.mpr (word_ne_nil h)
  omega

theorem length_skipWs_le (s : List UInt8) : (skipWs s).length ≤ s.length := (List.dropWhile_sublist isSpace).length_le

def wordsIn : Nat → List UInt8 → List (Nat × List UInt8)
  | 0, _ => []
  | fuel + 1, s =>
    match skipWs s with
    | [] => []
    | b :: rest => ((b :: rest).length, word (b :: rest)) :: wordsIn fuel (afterWord (b :: rest))

/-- The words of a text, each with how many bytes there are from its start to the end. -/
def words (s : List UInt8) : List (Nat × List UInt8) := wordsIn s.length s

theorem wordsIn_cons {s rest : List UInt8} {b : UInt8} (fuel : Nat) (h : skipWs s = b :: rest) :
    wordsIn (fuel + 1) s = ((b :: rest).length, word (b :: rest)) :: wordsIn fuel (afterWord (b :: rest)) := by
  rw [wordsIn, h]

theorem wordsIn_fuel (n m : Nat) {s : List UInt8} (hn : s.length ≤ n) (hm : s.length ≤ m) : wordsIn n s = wordsIn m s := by
  induction n generalizing m s with
  | zero =>
    rw [List.eq_nil_of_length_eq_zero (Nat.le_zero.mp hn)]
    cases m <;> rfl
  | succ n ih =>
    cases m with
    | zero =>
      rw [List.eq_nil_of_length_eq_zero (Nat.le_zero.mp hm)]
      rfl
    | succ m =>
      unfold wordsIn
      cases h : skipWs s with
      | nil => rfl
      | cons b rest =>
        have hlt := length_afterWord_lt h
        have hle := length_skipWs_le s
        rw [h] at hle
        exact congrArg _ (ih m (by omega) (by omega))

theorem words_nil {s : List UInt8} (h : skipWs s = []) : words s = [] := by
  unfold words
  cases s with
  | nil => rfl
  | cons b s =>
    change wordsIn (s.length + 1) (b :: s) = []
    rw [wordsIn, h]

theorem words_cons {s rest : List UInt8} {b : UInt8} (h : skipWs s = b :: rest) :
    words s = ((b :: rest).length, word (b :: rest)) :: words (afterWord (b :: rest)) := by
  have hlt := length_afterWord_lt h
  have hle := length_skipWs_le s
  rw [h] at hle
  unfold words
  rw [← wordsIn_fuel (s.length + 1) s.length (by omega) (by omega), wordsIn_cons s.length h]
  exact congrArg _ (wordsIn_fuel _ _ (by omega) (by omega))

theorem words_spec (s : List UInt8) : ∀ w ∈ words s, w.2 ≠ [] ∧ w.1 ≤ s.length := by
  generalize hn : s.length = n
  induction n using Nat.strong_induction_on generalizing s with
  | _ n ih =>
    intro w hw
    have hle := length_skipWs_le s
    cases h : skipWs s with
    | nil =>
      rw [words_nil h] at hw
      cases hw
    | cons b rest =>
      have hlt := length_afterWord_lt h
      rw [h] at hle
      rw [words_cons h] at hw
      rcases List.mem_cons.mp hw with rfl | hw
      · exact ⟨word_ne_nil h, by omega⟩
      · obtain ⟨hne, hpos⟩ := ih _ (by omega) _ rfl w hw
        exact ⟨hne, by omega⟩

/-! ## Numbers -/

def isDigit (b : UInt8) : Bool := 48 ≤ b && b ≤ 57

def decimal (digits : List UInt8) : Nat := digits.foldl (fun v b => 10 * v + (b.toNat - 48)) 0

def negative (s : List UInt8) : Bool := s.head? = some 45

/-- What follows the sign, if there is one. -/
def unsigned (s : List UInt8) : List UInt8 := if s.head? = some 43 ∨ s.head? = some 45 then s.tail else s

/-- The number that a text starts with, and what follows it. -/
def number (s : List UInt8) : Option (Int × List UInt8) :=
  let digits := (unsigned s).takeWhile isDigit
  if digits = [] then none
  else some (if negative s = true then -(decimal digits : Int) else decimal digits, (unsigned s).dropWhile isDigit)

theorem isDigit_of_isSpace {b : UInt8} (h : isSpace b = true) : isDigit b = false := by
  unfold isSpace at h
  unfold isDigit
  simp only [Bool.or_eq_true, decide_eq_true_eq, Bool.and_eq_true, UInt8.le_iff_toNat_le] at h
  rcases h with rfl | ⟨_, hle⟩
  · rfl
  · have hle : b.toNat ≤ 13 := hle
    have hlt : ¬ (48 : UInt8) ≤ b := fun h48 => by
      have h48 : 48 ≤ b.toNat := UInt8.le_iff_toNat_le.mp h48
      omega
    simp [hlt]

theorem length_unsigned_le (s : List UInt8) : (unsigned s).length ≤ s.length := by
  unfold unsigned
  split
  · rw [List.length_tail]
    omega
  · exact Nat.le_refl _

theorem unsigned_suffix (s : List UInt8) : unsigned s <:+ s := by
  unfold unsigned
  split
  · exact List.tail_suffix s
  · exact List.suffix_refl s

theorem number_rest {s rest : List UInt8} {v : Int} (h : number s = some (v, rest)) :
    rest.length < s.length ∧ rest <:+ s := by
  unfold number at h
  dsimp only at h
  split at h
  · cases h
  · rename_i hne
    obtain ⟨_, rfl⟩ := Prod.mk.inj (Option.some.inj h)
    refine ⟨?_, (List.dropWhile_suffix isDigit).trans (unsigned_suffix s)⟩
    have hlen := congrArg List.length (List.takeWhile_append_dropWhile (p := isDigit) (l := unsigned s))
    rw [List.length_append] at hlen
    have hpos := List.length_pos_iff.mpr hne
    have hle := length_unsigned_le s
    omega

theorem number_append {t r : List UInt8} (ht : t ≠ []) (hr : ∀ b rest, r = b :: rest → isSpace b = true) :
    number (t ++ r) = (number t).map fun x => (x.1, x.2 ++ r) := by
  have hdigit : r.takeWhile isDigit = [] ∧ r.dropWhile isDigit = r := by
    cases r with
    | nil => exact ⟨rfl, rfl⟩
    | cons b rest =>
      have hb := isDigit_of_isSpace (hr b rest rfl)
      exact ⟨List.takeWhile_cons_of_neg (by simp [hb]), List.dropWhile_cons_of_neg (by simp [hb])⟩
  have hneg : negative (t ++ r) = negative t := by
    unfold negative
    rw [List.head?_append_of_ne_nil t ht]
  have huns : unsigned (t ++ r) = unsigned t ++ r := by
    unfold unsigned
    rw [List.head?_append_of_ne_nil t ht, List.tail_append_of_ne_nil ht]
    split <;> rfl
  have htake : (unsigned t ++ r).takeWhile isDigit = (unsigned t).takeWhile isDigit := by
    rw [List.takeWhile_append, hdigit.1, List.append_nil]
    split
    · rename_i hlen
      exact ((List.takeWhile_prefix isDigit).eq_of_length hlen).symm
    · rfl
  have hdrop : (unsigned t ++ r).dropWhile isDigit = (unsigned t).dropWhile isDigit ++ r := by
    rw [List.dropWhile_append, hdigit.2]
    split
    · rename_i hempty
      rw [List.isEmpty_iff.mp hempty]
      rfl
    · rfl
  unfold number
  rw [hneg, huns, htake, hdrop]
  dsimp only
  by_cases hdigits : (unsigned t).takeWhile isDigit = []
  · rw [if_pos hdigits, if_pos hdigits]
    rfl
  · rw [if_neg hdigits, if_neg hdigits]
    rfl

end Istream

/-! ## The stream -/

structure Istream where
  rest : List UInt8
  fail : Bool

namespace Istream

/-- `is >> n` for an `int` between `lo` and `hi`: what is stored, if anything is. -/
def readInt (lo hi : Int) (is : Istream) : Option Int × Istream :=
  if is.fail = true then (none, is)
  else match skipWs is.rest with
    | [] => (none, ⟨[], true⟩)
    | s => match number s with
      | none => (some 0, ⟨s, true⟩)
      | some (v, rest) =>
        if v < lo then (some lo, ⟨rest, true⟩)
        else if hi < v then (some hi, ⟨rest, true⟩)
        else (some v, ⟨rest, false⟩)

/-- `is >> s` for a string: what is stored, if anything is. -/
def readString (is : Istream) : Option (List UInt8) × Istream :=
  if is.fail = true then (none, is)
  else match skipWs is.rest with
    | [] => (none, ⟨[], true⟩)
    | s => (some (word s), ⟨afterWord s, false⟩)

theorem readInt_dry (lo hi : Int) {is : Istream} (h : is.fail = true ∨ skipWs is.rest = []) :
    (is.readInt lo hi).1 = none ∧ (is.readInt lo hi).2.fail = true := by
  unfold readInt
  by_cases hfail : is.fail = true
  · rw [if_pos hfail]
    exact ⟨rfl, hfail⟩
  · rw [if_neg hfail, h.resolve_left hfail]
    exact ⟨rfl, rfl⟩

section
variable (lo hi : Int) {s rest : List UInt8} {b : UInt8}

theorem readInt_none (hs : skipWs s = b :: rest) (hnum : number (b :: rest) = none) :
    readInt lo hi ⟨s, false⟩ = (some 0, ⟨b :: rest, true⟩) := by
  unfold readInt
  simp only [Bool.false_eq_true, if_false, hs, hnum]

variable {v : Int} {g : List UInt8}

theorem readInt_range (hs : skipWs s = b :: rest) (hnum : number (b :: rest) = some (v, g)) (hlo : lo ≤ v) (hhi : v ≤ hi) :
    readInt lo hi ⟨s, false⟩ = (some v, ⟨g, false⟩) := by
  unfold readInt
  simp only [Bool.false_eq_true, if_false, hs, hnum]
  rw [if_neg (by omega), if_neg (by omega)]

theorem readInt_overflow (hs : skipWs s = b :: rest) (hnum : number (b :: rest) = some (v, g)) (h : v < lo ∨ hi < v) :
    ∃ n, (n = lo ∨ n = hi) ∧ readInt lo hi ⟨s, false⟩ = (some n, ⟨g, true⟩) := by
  unfold readInt
  simp only [Bool.false_eq_true, if_false, hs, hnum]
  by_cases hlo : v < lo
  · rw [if_pos hlo]
    exact ⟨lo, Or.inl rfl, rfl⟩
  · rw [if_neg hlo, if_pos (h.resolve_left hlo)]
    exact ⟨hi, Or.inr rfl, rfl⟩

end

theorem readString_nil {is : Istream} (h : is.fail = true ∨ words is.rest = []) :
    is.readString.1 = none ∧ is.readString.2.fail = true := by
  unfold readString
  by_cases hfail : is.fail = true
  · rw [if_pos hfail]
    exact ⟨rfl, hfail⟩
  · rw [if_neg hfail]
    cases hs : skipWs is.rest with
    | nil => exact ⟨rfl, rfl⟩
    | cons b rest =>
      rw [words_cons hs] at h
      exact absurd (h.resolve_left hfail) (List.cons_ne_nil _ _)

theorem readString_cons {s : List UInt8} {w : Nat × List UInt8} {ws : List (Nat × List UInt8)} (h : words s = w :: ws) :
    ∃ rest, readString ⟨s, false⟩ = (some w.2, ⟨rest, false⟩) ∧ words rest = ws ∧ rest.length < s.length := by
  have hle := length_skipWs_le s
  cases hs : skipWs s with
  | nil =>
    rw [words_nil hs] at h
    cases h
  | cons b rest =>
    have hlt := length_afterWord_lt hs
    rw [words_cons hs] at h
    rw [hs] at hle
    obtain ⟨rfl, rfl⟩ := List.cons.inj h
    refine ⟨afterWord (b :: rest), ?_, rfl, by omega⟩
    unfold readString
    rw [if_neg Bool.false_ne_true, hs]

end Istream
