import Mathlib.Data.List.Basic

/-!
# The text of SQL statements

The lexical rules of MySQL, one byte after another: words, one-byte symbols, and string literals
between single quotes. In a literal two quotes are one, and a backslash changes the byte after it;
the literal ends at the first quote that is neither. Comments and the other quotes have no rule here.
-/

namespace SqlText

inductive Token where
  | word (w : List UInt8)
  | str (b : List UInt8)
  | sym (c : UInt8)
deriving DecidableEq

def quote : UInt8 := 39
def backslash : UInt8 := 92
def percent : UInt8 := 37
def underscore : UInt8 := 95

def isSpace (c : UInt8) : Bool := c = 32 ∨ c = 9 ∨ c = 10 ∨ c = 13

def isWord (c : UInt8) : Bool :=
  (48 ≤ c ∧ c ≤ 57) ∨ (65 ≤ c ∧ c ≤ 90) ∨ (97 ≤ c ∧ c ≤ 122) ∨ c = underscore

/-- `( ) * + , ; =` -/
def isSym (c : UInt8) : Bool := (40 ≤ c ∧ c ≤ 44) ∨ c = 59 ∨ c = 61

/-- What the bytes so far are part of; `quote` is a literal that may have ended. -/
inductive Mode where
  | blank
  | word (w : List UInt8)
  | str (b : List UInt8)
  | escape (b : List UInt8)
  | quote (b : List UInt8)
deriving DecidableEq

structure Lexer where
  toks : List Token
  mode : Mode
deriving DecidableEq

/-- What a backslash and `c` stand for. -/
def unescape (c : UInt8) : List UInt8 :=
  if c = 48 then [0]
  else if c = 98 then [8]
  else if c = 110 then [10]
  else if c = 114 then [13]
  else if c = 116 then [9]
  else if c = 90 then [26]
  else if c = percent ∨ c = underscore then [backslash, c]
  else [c]

/-- A byte outside every word and literal. -/
def start (toks : List Token) (c : UInt8) : Option Lexer :=
  if isSpace c then some ⟨toks, .blank⟩
  else if c = quote then some ⟨toks, .str []⟩
  else if isWord c then some ⟨toks, .word [c]⟩
  else if isSym c then some ⟨toks ++ [.sym c], .blank⟩
  else none

def step (s : Lexer) (c : UInt8) : Option Lexer :=
  match s.mode with
  | .blank => start s.toks c
  | .word w => if isWord c then some ⟨s.toks, .word (w ++ [c])⟩ else start (s.toks ++ [.word w]) c
  | .str b =>
    if c = quote then some ⟨s.toks, .quote b⟩
    else if c = backslash then some ⟨s.toks, .escape b⟩
    else some ⟨s.toks, .str (b ++ [c])⟩
  | .escape b => some ⟨s.toks, .str (b ++ unescape c)⟩
  | .quote b => if c = quote then some ⟨s.toks, .str (b ++ [quote])⟩ else start (s.toks ++ [.str b]) c

def finish (s : Lexer) : Option (List Token) :=
  match s.mode with
  | .blank => some s.toks
  | .word w => some (s.toks ++ [.word w])
  | .quote b => some (s.toks ++ [.str b])
  | .str _ | .escape _ => none

def scan (s : Lexer) (text : List UInt8) : Option Lexer := text.foldlM step s

def finishFrom (s : Lexer) (text : List UInt8) : Option (List Token) := scan s text >>= finish

/-- The tokens of a text, if it has only what the rules above cover. -/
def lex (text : List UInt8) : Option (List Token) := finishFrom ⟨[], .blank⟩ text

theorem finishFrom_append {s s' : Lexer} {x : List UInt8} (h : scan s x = some s') (y : List UInt8) :
    finishFrom s (x ++ y) = finishFrom s' y := by
  rw [finishFrom, finishFrom, scan, List.foldlM_append]
  rw [scan] at h
  rw [h]
  rfl

theorem finishFrom_cons (s : Lexer) (c : UInt8) (y : List UInt8) :
    finishFrom s (c :: y) = step s c >>= fun s' => finishFrom s' y := by
  simp only [finishFrom, scan, List.foldlM_cons, Option.bind_eq_bind, Option.bind_assoc]

/-! ## Literals that denote their own bytes -/

/-- No quote, and no backslash but in `\%` and `\_`, which stand for themselves. -/
def litSafe : List UInt8 → Bool
  | [] => true
  | [c] => c ≠ quote ∧ c ≠ backslash
  | c :: d :: ds =>
    if c = quote then false
    else if c = backslash then (d = percent ∨ d = underscore) && litSafe ds
    else litSafe (d :: ds)

theorem scan_litSafe (toks : List Token) (b x : List UInt8) (hx : litSafe x = true) :
    scan ⟨toks, .str b⟩ x = some ⟨toks, .str (b ++ x)⟩ := by
  induction x using litSafe.induct generalizing b with
  | case1 => simp [scan]
  | case2 c =>
    simp only [litSafe, decide_eq_true_eq] at hx
    simp [scan, step, hx.1, hx.2]
  | case3 d ds => simp [litSafe] at hx
  | case4 d ds hq ih =>
    simp only [litSafe, if_neg hq, if_true, Bool.and_eq_true, decide_eq_true_eq] at hx
    have hd : unescape d = [backslash, d] := by
      rcases hx.1 with rfl | rfl <;> rfl
    have hstep : scan ⟨toks, .str b⟩ (backslash :: d :: ds) = scan ⟨toks, .str (b ++ [backslash, d])⟩ ds := by
      simp [scan, step, hq, hd]
    rw [hstep, ih _ hx.2]
    simp
  | case5 c d ds hq hb ih =>
    simp only [litSafe, if_neg hq, if_neg hb] at hx
    have hstep : scan ⟨toks, .str b⟩ (c :: d :: ds) = scan ⟨toks, .str (b ++ [c])⟩ (d :: ds) := by
      simp [scan, step, hq, hb]
    rw [hstep, ih _ hx]
    simp

/-! ## The least length of a text with given tokens -/

def Token.width : Token → Nat
  | .word w => w.length
  | .str b => b.length + 2
  | .sym _ => 1

def widths : List Token → Nat
  | [] => 0
  | t :: toks => t.width + widths toks

def Mode.width : Mode → Nat
  | .blank => 0
  | .word w => w.length
  | .str b => b.length + 1
  | .escape b => b.length + 2
  | .quote b => b.length + 2

def Lexer.width (s : Lexer) : Nat := widths s.toks + s.mode.width

theorem widths_append (a b : List Token) : widths (a ++ b) = widths a + widths b := by
  induction a with
  | nil => simp [widths]
  | cons t a ih => simp only [List.cons_append, widths, ih, Nat.add_assoc]

theorem widths_nil : widths [] = 0 := rfl

theorem widths_cons (t : Token) (ts : List Token) : widths (t :: ts) = t.width + widths ts := rfl

theorem widths_singleton (t : Token) : widths [t] = t.width := by simp [widths]

theorem start_width {toks : List Token} {c : UInt8} {s : Lexer} (h : start toks c = some s) :
    s.width ≤ widths toks + 1 := by
  unfold start at h
  split_ifs at h <;> cases h <;>
    simp [Lexer.width, Mode.width, widths_append, widths_singleton, Token.width]

theorem unescape_length (c : UInt8) : (unescape c).length ≤ 2 := by
  unfold unescape
  split_ifs <;> simp

theorem step_width {s s' : Lexer} {c : UInt8} (h : step s c = some s') : s'.width ≤ s.width + 1 := by
  unfold step at h
  cases hm : s.mode with
  | blank =>
    rw [hm] at h
    have := start_width h
    simp only [Lexer.width, hm, Mode.width] at this ⊢
    omega
  | word w =>
    simp only [hm] at h
    split at h
    · cases h
      simp only [Lexer.width, hm, Mode.width, List.length_append, List.length_singleton]
      omega
    · have := start_width h
      rw [widths_append, widths_singleton, Token.width] at this
      simpa only [Lexer.width, hm, Mode.width] using this
  | str b =>
    simp only [hm] at h
    split_ifs at h <;> cases h <;>
      simp only [Lexer.width, hm, Mode.width, List.length_append, List.length_singleton] <;> omega
  | escape b =>
    simp only [hm] at h
    cases h
    have := unescape_length c
    simp only [Lexer.width, hm, Mode.width, List.length_append]
    omega
  | quote b =>
    simp only [hm] at h
    split at h
    · cases h
      simp only [Lexer.width, hm, Mode.width, List.length_append, List.length_singleton]
      omega
    · have := start_width h
      rw [widths_append, widths_singleton, Token.width] at this
      simpa only [Lexer.width, hm, Mode.width] using this

theorem finish_width {s : Lexer} {toks : List Token} (h : finish s = some toks) : widths toks = s.width := by
  unfold finish at h
  cases hm : s.mode <;> simp only [hm] at h <;> cases h <;>
    simp [Lexer.width, hm, Mode.width, widths_append, widths_singleton, Token.width]

theorem finishFrom_width {s : Lexer} {text : List UInt8} {toks : List Token}
    (h : finishFrom s text = some toks) : widths toks ≤ s.width + text.length := by
  induction text generalizing s with
  | nil => exact Nat.le_of_eq (finish_width h)
  | cons c text ih =>
    rw [finishFrom_cons] at h
    cases hs : step s c with
    | none => simp [hs] at h
    | some s' =>
      simp only [hs, Option.bind_eq_bind, Option.bind_some] at h
      have := ih h
      have := step_width hs
      simp only [List.length_cons]
      omega

theorem finishFrom_toks {s : Lexer} {text : List UInt8} {toks : List Token}
    (h : finishFrom s text = some toks) : s.toks <+: toks := by
  induction text generalizing s with
  | nil =>
    simp only [finishFrom, scan, List.foldlM_nil, Option.pure_def, Option.bind_eq_bind, Option.bind_some] at h
    unfold finish at h
    split at h <;> cases h <;> simp
  | cons c text ih =>
    rw [finishFrom_cons] at h
    cases hs : step s c with
    | none => simp [hs] at h
    | some s' =>
      simp only [hs, Option.bind_eq_bind, Option.bind_some] at h
      refine List.IsPrefix.trans ?_ (ih h)
      unfold step start at hs
      split at hs <;> (try split_ifs at hs) <;> cases hs <;> simp

/-! ## Only such literals do -/

theorem finishFrom_step {s s' : Lexer} {c : UInt8} {y : List UInt8} {all : List Token}
    (h : finishFrom s (c :: y) = some all) (hs : step s c = some s') : finishFrom s' y = some all := by
  rw [finishFrom_cons, hs] at h
  exact h

theorem step_width_tight {s t : Lexer} {c : UInt8} {y : List UInt8} {all : List Token}
    (h : finishFrom s (c :: y) = some all) (hroom : s.width + (c :: y).length ≤ widths all)
    (hs : step s c = some t) : t.width = s.width + 1 ∧ t.width + y.length ≤ widths all := by
  have hle := finishFrom_width (finishFrom_step h hs)
  have hstep := step_width hs
  rw [List.length_cons] at hroom
  omega

theorem str_of_quote {toks all : List Token} {b : List UInt8} {c : UInt8} {y : List UInt8} (hc : c ≠ quote)
    (h : finishFrom ⟨toks, .quote b⟩ (c :: y) = some all) : toks ++ [.str b] <+: all := by
  rw [finishFrom_cons] at h
  have hstep : step ⟨toks, .quote b⟩ c = start (toks ++ [.str b]) c := if_neg hc
  rw [hstep] at h
  cases hs : start (toks ++ [.str b]) c with
  | none => simp [hs] at h
  | some s' =>
    simp only [hs, Option.bind_eq_bind, Option.bind_some] at h
    refine List.IsPrefix.trans ?_ (finishFrom_toks h)
    unfold start at hs
    split_ifs at hs <;> cases hs <;> simp

theorem unescape_two (c : UInt8) (h : (unescape c).length = 2) : c = percent ∨ c = underscore := by
  unfold unescape at h
  split_ifs at h <;> simp_all

/-- A literal read from a text with no byte to spare is the bytes between its quotes. -/
theorem litSafe_of_finishFrom {all : List Token} (toks rest : List Token) (b : List UInt8) {x tail : List UInt8}
    (hall : all = toks ++ .str (b ++ x) :: rest)
    (h : finishFrom ⟨toks, .str b⟩ (x ++ quote :: tail) = some all)
    (hroom : Lexer.width ⟨toks, .str b⟩ + (x ++ quote :: tail).length ≤ widths all) :
    litSafe x = true := by
  have hquote : step ⟨toks, .str b⟩ quote = some ⟨toks, .quote b⟩ := rfl
  have hback : step ⟨toks, .str b⟩ backslash = some ⟨toks, .escape b⟩ := rfl
  induction x using litSafe.induct generalizing b with
  | case1 => rfl
  | case2 c =>
    rw [litSafe, decide_eq_true_eq]
    constructor
    · rintro rfl
      -- The quote and the one after it would be one byte of the literal.
      obtain ⟨_, h2⟩ := step_width_tight h hroom hquote
      obtain ⟨h3, _⟩ := step_width_tight (t := ⟨toks, .str (b ++ [quote])⟩)
        (finishFrom_step h hquote) h2 rfl
      simp [Lexer.width, Mode.width] at h3
    · rintro rfl
      obtain ⟨_, h2⟩ := step_width_tight h hroom hback
      obtain ⟨h3, _⟩ := step_width_tight (t := ⟨toks, .str (b ++ [quote])⟩)
        (finishFrom_step h hback) h2 rfl
      simp [Lexer.width, Mode.width] at h3
  | case3 d ds =>
    exfalso
    obtain ⟨_, h2⟩ := step_width_tight h hroom hquote
    by_cases hd : d = quote
    · subst hd
      obtain ⟨h3, _⟩ := step_width_tight (t := ⟨toks, .str (b ++ [quote])⟩)
        (finishFrom_step h hquote) h2 rfl
      simp [Lexer.width, Mode.width] at h3
    · -- The literal would end here, before its last byte.
      have hpre := str_of_quote hd (finishFrom_step h hquote)
      rw [hall, List.prefix_append_right_inj] at hpre
      have := (List.cons_prefix_cons.mp hpre).1
      simp at this
  | case4 d ds hq ih =>
    obtain ⟨_, h2⟩ := step_width_tight h hroom hback
    have hesc : step ⟨toks, .escape b⟩ d = some ⟨toks, .str (b ++ unescape d)⟩ := rfl
    obtain ⟨h3, h4⟩ := step_width_tight (finishFrom_step h hback) h2 hesc
    have hd : (unescape d).length = 2 := by
      simp only [Lexer.width, Mode.width, List.length_append] at h3
      omega
    have hdc := unescape_two d hd
    have hdd : unescape d = [backslash, d] := by rcases hdc with rfl | rfl <;> rfl
    have hf := finishFrom_step (finishFrom_step h hback) hesc
    rw [hdd] at hf h4
    rw [litSafe, if_neg hq, if_pos rfl, Bool.and_eq_true, decide_eq_true_eq]
    exact ⟨hdc, ih _ (by simpa using hall) hf h4 rfl rfl⟩
  | case5 c d ds hq hb ih =>
    have hstep : step ⟨toks, .str b⟩ c = some ⟨toks, .str (b ++ [c])⟩ := by
      simp [step, hq, hb]
    obtain ⟨_, h2⟩ := step_width_tight h hroom hstep
    rw [litSafe, if_neg hq, if_neg hb]
    exact ih _ (by simpa using hall) (finishFrom_step h hstep) h2 rfl rfl

/-! ## A text with a literal in it -/

theorem finishFrom_litSafe {toks : List Token} {x : List UInt8} (hx : litSafe x = true) (y : List UInt8) :
    finishFrom ⟨toks, .str []⟩ (x ++ y) = finishFrom ⟨toks, .str x⟩ y :=
  finishFrom_append (scan_litSafe toks [] x hx) y

theorem getLast?_of_finishFrom {s : Lexer} {y : List UInt8} {c : UInt8} {all : List Token} (hc : isSym c = true)
    (h : finishFrom s (y ++ [c]) = some all) : all.getLast? = some (.sym c) := by
  have hstart : ∀ toks s', start toks c = some s' → s' = ⟨toks ++ [.sym c], .blank⟩ := by
    intro toks s' hs
    have hsym : c ≠ quote ∧ isSpace c = false ∧ isWord c = false := by
      simp only [isSym, decide_eq_true_eq, UInt8.le_iff_toNat_le, ← UInt8.toNat_inj] at hc
      simp only [isSpace, isWord, quote, underscore, ne_eq, decide_eq_false_iff_not, UInt8.le_iff_toNat_le,
        ← UInt8.toNat_inj]
      simp only [UInt8.reduceToNat] at hc ⊢
      omega
    simp only [start, hsym.2.1, hsym.2.2, if_neg hsym.1, hc, if_true, Bool.false_eq_true, if_false] at hs
    exact (Option.some.inj hs).symm
  rw [finishFrom, scan, List.foldlM_append] at h
  cases hs : scan s y with
  | none =>
    rw [scan] at hs
    simp [hs] at h
  | some s' =>
    rw [scan] at hs
    simp only [hs, Option.bind_eq_bind, Option.bind_some, List.foldlM_cons, List.foldlM_nil] at h
    obtain ⟨s'', hs'', hfin⟩ := Option.bind_eq_some_iff.mp h
    obtain ⟨s3, hstep, heq⟩ := Option.bind_eq_some_iff.mp hs''
    obtain rfl : s3 = s'' := by simpa using heq
    unfold step at hstep
    -- Inside a literal the text would not end.
    split at hstep
    · rw [hstart _ _ hstep] at hfin
      obtain rfl := by simpa [finish] using hfin
      simp
    · split at hstep
      · rename_i hw
        simp only [isSym, isWord, underscore, decide_eq_true_eq, UInt8.le_iff_toNat_le, ← UInt8.toNat_inj,
          UInt8.reduceToNat] at hc hw
        omega
      · rw [hstart _ _ hstep] at hfin
        obtain rfl := by simpa [finish] using hfin
        simp
    · split_ifs at hstep <;> obtain rfl := Option.some.inj hstep
      · rename_i hq
        subst hq
        exact absurd hc (by decide)
      · simp [finish] at hfin
      · simp [finish] at hfin
    · obtain rfl := Option.some.inj hstep
      simp [finish] at hfin
    · split at hstep
      · rename_i hq
        subst hq
        exact absurd hc (by decide)
      · rw [hstart _ _ hstep] at hfin
        obtain rfl := by simpa [finish] using hfin
        simp

end SqlText
