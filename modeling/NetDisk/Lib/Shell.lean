import Mathlib.Data.List.Basic

/-!
# The words of a shell command

Words, quotes and operators of the POSIX shell, one byte after another. A text has words if it is one simple command and
nothing in it is expanded: then they are the same whatever the variables and the files are. A line that is continued
has no rule here.
-/

namespace Shell

/-- A byte of a word, and whether it is quoted. -/
abbrev Marked := UInt8 × Bool

abbrev Word := List Marked

def text (w : Word) : List UInt8 := w.map Prod.fst

/-- A word without quotes. -/
def bare (x : List UInt8) : Word := x.map fun b => (b, false)

@[simp] theorem text_bare (x : List UInt8) : text (bare x) = x := by
  rw [text, bare, List.map_map]
  exact List.map_id x

def newline : UInt8 := 10
def bang : UInt8 := 33
def doubleQuote : UInt8 := 34
def hash : UInt8 := 35
def quote : UInt8 := 39
def star : UInt8 := 42
def slash : UInt8 := 47
def question : UInt8 := 63
def openBracket : UInt8 := 91
def backslash : UInt8 := 92
def closeBracket : UInt8 := 93
def tilde : UInt8 := 126

/-- A space or a tab. -/
def isBlank (c : UInt8) : Bool := c = 32 ∨ c = 9

/-- `& ( ) ; < > |` and the newline. -/
def isOperator (c : UInt8) : Bool := c = 38 ∨ c = 40 ∨ c = 41 ∨ c = 59 ∨ c = 60 ∨ c = 62 ∨ c = 124 ∨ c = newline

/-- The dollar sign and the backquote. -/
def isExpansion (c : UInt8) : Bool := c = 36 ∨ c = 96

def isQuote (c : UInt8) : Bool := c = backslash ∨ c = quote ∨ c = doubleQuote

/-- Not a byte of a word by itself. -/
def isSpecial (c : UInt8) : Bool := isBlank c || isOperator c || isExpansion c || isQuote c

/-! ## The lexer -/

/-- What the bytes so far are part of; `doubleEscape` is a backslash between double quotes. -/
inductive Mode where
  | blank
  | word (w : Word)
  | escape (w : Word)
  | single (w : Word)
  | double (w : Word)
  | doubleEscape (w : Word)
  | comment
deriving DecidableEq

structure Lexer where
  words : List Word
  mode : Mode
deriving DecidableEq

/-- A byte of a word, outside quotes. -/
def inWord (words : List Word) (w : Word) (c : UInt8) : Option Lexer :=
  if c = backslash then some ⟨words, .escape w⟩
  else if c = quote then some ⟨words, .single w⟩
  else if c = doubleQuote then some ⟨words, .double w⟩
  else if isOperator c ∨ isExpansion c then none
  else some ⟨words, .word (w ++ [(c, false)])⟩

def step (s : Lexer) (c : UInt8) : Option Lexer :=
  match s.mode with
  | .blank =>
    if isBlank c then some s
    else if c = hash then some ⟨s.words, .comment⟩
    else inWord s.words [] c
  | .word w => if isBlank c then some ⟨s.words ++ [w], .blank⟩ else inWord s.words w c
  | .escape w => if c = newline then none else some ⟨s.words, .word (w ++ [(c, true)])⟩
  | .single w => if c = quote then some ⟨s.words, .word w⟩ else some ⟨s.words, .single (w ++ [(c, true)])⟩
  | .double w =>
    if c = doubleQuote then some ⟨s.words, .word w⟩
    else if c = backslash then some ⟨s.words, .doubleEscape w⟩
    else if isExpansion c then none
    else some ⟨s.words, .double (w ++ [(c, true)])⟩
  | .doubleEscape w =>
    if c = newline then none
    else if c = backslash ∨ c = doubleQuote ∨ isExpansion c then some ⟨s.words, .double (w ++ [(c, true)])⟩
    else some ⟨s.words, .double (w ++ [(backslash, true), (c, true)])⟩
  | .comment => if c = newline then none else some s

def finish (s : Lexer) : Option (List Word) :=
  match s.mode with
  | .blank | .comment => some s.words
  | .word w => some (s.words ++ [w])
  | .escape _ | .single _ | .double _ | .doubleEscape _ => none

def finishFrom (s : Lexer) (x : List UInt8) : Option (List Word) := x.foldlM step s >>= finish

theorem finishFrom_nil (s : Lexer) : finishFrom s [] = finish s := rfl

theorem finishFrom_cons (s : Lexer) (c : UInt8) (x : List UInt8) :
    finishFrom s (c :: x) = step s c >>= fun s' => finishFrom s' x := by
  simp only [finishFrom, List.foldlM_cons, Option.bind_eq_bind, Option.bind_assoc]

theorem finishFrom_step {s s' : Lexer} {c : UInt8} (h : step s c = some s') (x : List UInt8) :
    finishFrom s (c :: x) = finishFrom s' x := by
  rw [finishFrom_cons, h]
  rfl

def lex (x : List UInt8) : Option (List Word) := finishFrom ⟨[], .blank⟩ x

/-! ## Expansions of a whole word -/

def Marked.is (m : Marked) (c : UInt8) : Bool := m.2 = false ∧ m.1 = c

/-- Where the bytes so far of a bracket expression end: `item` is in a class such as `[:alpha:]`. -/
inductive Bracket where
  | start
  | first
  | inside
  | opened
  | item (c : UInt8)
  | itemEnd (c : UInt8)
deriving DecidableEq

namespace Bracket

def member (m : Marked) : Bracket := if m.is openBracket then opened else inside

/-- The next byte; `none` is the end. -/
def next : Bracket → Marked → Option Bracket
  | start, m => if m.is bang then some first else some (member m)
  | first, m => some (member m)
  | inside, m => if m.is closeBracket then none else some (member m)
  | opened, m =>
    -- A full stop, an equals sign or a colon.
    if m.is 46 ∨ m.is 61 ∨ m.is 58 then some (item m.1)
    else if m.is closeBracket then none
    else some (member m)
  | item c, m => if m.is c then some (itemEnd c) else some (item c)
  | itemEnd c, m =>
    if m.is closeBracket then some inside else if m.is c then some (itemEnd c) else some (item c)

/-- Whether it ends, which it does not beyond a slash. -/
def closes (b : Bracket) : Word → Bool
  | [] => false
  | m :: w =>
    if m.1 = slash then false
    else match b.next m with
      | none => true
      | some b' => b'.closes w

end Bracket

/-- Whether files may stand for the word. -/
def isPattern : Word → Bool
  | [] => false
  | m :: w => m.is star || m.is question || (m.is openBracket && Bracket.start.closes w) || isPattern w

/-- Whether the word starts with somebody's home directory. -/
def isHome (w : Word) : Bool :=
  w.head? = some (tilde, false) ∧ (w.takeWhile fun m => m.1 ≠ slash).all fun m => !m.2

def isFixed (w : Word) : Bool := !isPattern w && !isHome w

/-- The words of a simple command, when nothing in it is expanded. -/
def words (x : List UInt8) : Option (List (List UInt8)) :=
  match lex x with
  | none => none
  | some ws => if ws.all isFixed then some (ws.map text) else none

theorem Bracket.closes_slash (b : Bracket) (w : Word) {m : Marked} (hm : m.1 = slash) (v : Word) :
    b.closes (w ++ m :: v) = b.closes w := by
  induction w generalizing b with
  | nil => simp [closes, hm]
  | cons n w ih =>
    simp only [List.cons_append, closes]
    split
    · rfl
    · cases b.next n with
      | none => rfl
      | some b' => exact ih b'

theorem isPattern_slash (w : Word) {m : Marked} (hm : m.1 = slash) (v : Word) :
    isPattern (w ++ m :: v) = (isPattern w || isPattern v) := by
  induction w with
  | nil =>
    have hno : m.is star = false ∧ m.is question = false ∧ m.is openBracket = false := by
      simp [Marked.is, hm, slash, star, question, openBracket]
    simp [isPattern, hno]
  | cons n w ih =>
    simp only [List.cons_append, isPattern, ih, Bracket.closes_slash _ w hm v, Bool.or_assoc]

theorem isPattern_prefix {w : Word} (h : ∀ m ∈ w, m.1 ≠ star ∧ m.1 ≠ question ∧ m.1 ≠ openBracket) (v : Word) :
    isPattern (w ++ v) = isPattern v := by
  induction w with
  | nil => rfl
  | cons m w ih =>
    obtain ⟨hstar, hquestion, hopen⟩ := h m List.mem_cons_self
    rw [List.cons_append, isPattern, ih fun n hn => h n (List.mem_cons_of_mem m hn)]
    simp [Marked.is, hstar, hquestion, hopen]

/-! ## The least length of a text with given words -/

/-- Each word with a blank behind it. -/
def total {α : Type} : List (List α) → Nat
  | [] => 0
  | w :: ws => w.length + 1 + total ws

theorem total_append {α : Type} (a b : List (List α)) : total (a ++ b) = total a + total b := by
  induction a with
  | nil => simp [total]
  | cons w a ih => simp only [List.cons_append, total, ih, Nat.add_assoc]

theorem total_map_text (ws : List Word) : total (ws.map text) = total ws := by
  induction ws with
  | nil => rfl
  | cons w ws ih => simp only [List.map_cons, total, ih, text, List.length_map]

def Mode.width : Mode → Nat
  | .blank | .comment => 0
  | .word w | .escape w | .single w | .double w => w.length
  | .doubleEscape w => w.length + 1

def Lexer.width (s : Lexer) : Nat := total s.words + s.mode.width

theorem inWord_width {words : List Word} {w : Word} {c : UInt8} {s : Lexer} (h : inWord words w c = some s) :
    s.width ≤ total words + w.length + 1 := by
  unfold inWord at h
  split_ifs at h <;> cases h <;> simp only [Lexer.width, Mode.width, List.length_append, List.length_singleton] <;> omega

theorem step_width {s s' : Lexer} {c : UInt8} (h : step s c = some s') : s'.width ≤ s.width + 1 := by
  obtain ⟨words, mode⟩ := s
  cases mode with
  | blank =>
    simp only [step] at h
    split_ifs at h
    · cases h
      omega
    · cases h
      simp [Lexer.width, Mode.width]
    · exact inWord_width h
  | word w =>
    simp only [step] at h
    split_ifs at h
    · cases h
      simp [Lexer.width, Mode.width, total_append, total]
      omega
    · exact inWord_width h
  | escape w | single w | double w | doubleEscape w | comment =>
    simp only [step] at h
    split_ifs at h <;> cases h <;> simp [Lexer.width, Mode.width] <;> omega

theorem finish_width {s : Lexer} {ws : List Word} (h : finish s = some ws) : total ws ≤ s.width + 1 := by
  obtain ⟨words, mode⟩ := s
  cases mode <;> cases h <;> simp [Lexer.width, Mode.width, total_append, total]
  omega

theorem finishFrom_width {s : Lexer} {x : List UInt8} {ws : List Word} (h : finishFrom s x = some ws) :
    total ws ≤ s.width + x.length + 1 := by
  induction x generalizing s with
  | nil => exact finish_width h
  | cons c x ih =>
    rw [finishFrom_cons, Option.bind_eq_bind, Option.bind_eq_some_iff] at h
    obtain ⟨s', hstep, hrest⟩ := h
    have hlen := ih hrest
    have hone := step_width hstep
    rw [List.length_cons]
    omega

/-! ## A text of the least length -/

/-- A word of which each byte stands for itself. -/
structure Clean (w : Word) : Prop where
  ne_nil : w ≠ []
  no_comment : w.head? ≠ some (hash, false)
  unquoted : ∀ m ∈ w, m.2 = false ∧ isSpecial m.1 = false

theorem Clean.snoc {w : Word} (hw : Clean w) {c : UInt8} (hc : isSpecial c = false) : Clean (w ++ [(c, false)]) where
  ne_nil := by simp
  no_comment := by
    obtain ⟨m, w, rfl⟩ := List.exists_cons_of_ne_nil hw.ne_nil
    exact hw.no_comment
  unquoted m hm := by
    rcases List.mem_append.mp hm with hm | hm
    · exact hw.unquoted m hm
    · rw [List.mem_singleton.mp hm]
      exact ⟨rfl, hc⟩

theorem Clean.bare {w : Word} (hw : Clean w) : w = Shell.bare (text w) := by
  have hmark : ∀ m ∈ w, m = (m.1, false) := fun m hm => by rw [← (hw.unquoted m hm).1]
  calc w = w.map id := (List.map_id w).symm
    _ = w.map fun m => (m.1, false) := List.map_congr_left hmark
    _ = Shell.bare (text w) := by rw [Shell.bare, text, List.map_map]; rfl

theorem inWord_tight {words : List Word} {w : Word} {c : UInt8} {s : Lexer} (h : inWord words w c = some s)
    (hblank : isBlank c = false) (hw : total words + w.length + 1 ≤ s.width) :
    isSpecial c = false ∧ s = ⟨words, .word (w ++ [(c, false)])⟩ := by
  unfold inWord at h
  split_ifs at h with hback hquote hdouble hop <;> cases h
  · simp only [Lexer.width, Mode.width] at hw
    omega
  · simp only [Lexer.width, Mode.width] at hw
    omega
  · simp only [Lexer.width, Mode.width] at hw
    omega
  · refine ⟨?_, rfl⟩
    simp only [not_or, Bool.not_eq_true] at hop
    simp [isSpecial, isQuote, hblank, hop.1, hop.2, hback, hquote, hdouble]

/-- The states in which no byte was lost. -/
def Lexer.Tight (s : Lexer) : Prop :=
  (∀ w ∈ s.words, Clean w) ∧ (s.mode = .blank ∨ ∃ w, s.mode = .word w ∧ Clean w)

theorem step_tight {s s' : Lexer} {c : UInt8} (hs : s.Tight) (h : step s c = some s') (hw : s.width + 1 ≤ s'.width) :
    s'.Tight := by
  obtain ⟨words, mode⟩ := s
  obtain ⟨hwords, rfl | ⟨w, rfl, hclean⟩⟩ := hs
  · simp only [step] at h
    split_ifs at h with hblank hcomment
    · cases h
      omega
    · cases h
      simp only [Lexer.width, Mode.width] at hw
      omega
    · obtain ⟨hc, rfl⟩ := inWord_tight h (by simpa using hblank) hw
      refine ⟨hwords, Or.inr ⟨_, rfl, by simp, by simpa using hcomment, ?_⟩⟩
      simpa using hc
  · simp only [step] at h
    split_ifs at h with hblank
    · cases h
      refine ⟨fun v hv => ?_, Or.inl rfl⟩
      rcases List.mem_append.mp hv with hv | hv
      · exact hwords v hv
      · rw [List.mem_singleton.mp hv]
        exact hclean
    · obtain ⟨hc, rfl⟩ := inWord_tight h (by simpa using hblank) hw
      exact ⟨hwords, Or.inr ⟨_, rfl, hclean.snoc hc⟩⟩

theorem finishFrom_tight {s : Lexer} {x : List UInt8} {ws : List Word} (hs : s.Tight) (h : finishFrom s x = some ws)
    (hw : s.width + x.length + 1 ≤ total ws) : ∀ w ∈ ws, Clean w := by
  induction x generalizing s with
  | nil =>
    obtain ⟨words, mode⟩ := s
    obtain ⟨hwords, rfl | ⟨w, rfl, hclean⟩⟩ := hs
    · cases h
      exact hwords
    · cases h
      intro v hv
      rcases List.mem_append.mp hv with hv | hv
      · exact hwords v hv
      · rw [List.mem_singleton.mp hv]
        exact hclean
  | cons c x ih =>
    rw [finishFrom_cons, Option.bind_eq_bind, Option.bind_eq_some_iff] at h
    obtain ⟨s', hstep, hrest⟩ := h
    have hlen := finishFrom_width hrest
    rw [List.length_cons] at hw
    exact ih (step_tight hs hstep (by omega)) hrest (by have := step_width hstep; omega)

/-! ## Words that stand for themselves -/

/-- The words with a space between them. -/
def unwords : List (List UInt8) → List UInt8
  | [] => []
  | [w] => w
  | w :: ws => w ++ 32 :: unwords ws

theorem unwords_cons {w : List UInt8} {ws : List (List UInt8)} (h : ws ≠ []) :
    unwords (w :: ws) = w ++ 32 :: unwords ws := by
  cases ws with
  | nil => exact absurd rfl h
  | cons v ws => rfl

theorem length_unwords {ws : List (List UInt8)} (h : ws ≠ []) : total ws = (unwords ws).length + 1 := by
  induction ws with
  | nil => exact absurd rfl h
  | cons w ws ih =>
    by_cases hws : ws = []
    · subst hws
      simp [total, unwords]
    · rw [unwords_cons hws, total, ih hws, List.length_append, List.length_cons]
      omega

/-- Bytes that no word is split at, and none of them a quote. -/
def Literal (x : List UInt8) : Prop := ∀ b ∈ x, isSpecial b = false

/-- A word that needs no quotes. -/
structure Bare (x : List UInt8) : Prop where
  ne_nil : x ≠ []
  literal : Literal x
  no_comment : x.head? ≠ some hash
  no_home : x.head? ≠ some tilde
  no_pattern : isPattern (bare x) = false

theorem literal_append {x y : List UInt8} : Literal (x ++ y) ↔ Literal x ∧ Literal y := by
  simp only [Literal, List.mem_append, or_imp, forall_and]

theorem isHome_bare (x : List UInt8) : isHome (bare x) = true ↔ x.head? = some tilde := by
  have hall : ((bare x).takeWhile fun m => m.1 ≠ slash).all (fun m => !m.2) = true := by
    rw [List.all_eq_true]
    intro m hm
    obtain ⟨b, -, rfl⟩ := List.mem_map.mp ((List.takeWhile_prefix _).subset hm)
    rfl
  rw [isHome, decide_eq_true_eq, and_iff_left hall, bare, List.head?_map]
  simp

theorem isFixed_bare (x : List UInt8) : isFixed (bare x) = true ↔ x.head? ≠ some tilde ∧ isPattern (bare x) = false := by
  have hhome := isHome_bare x
  rw [isFixed, Bool.and_eq_true, Bool.not_eq_true', Bool.not_eq_true', ← Bool.not_eq_true (isHome _), hhome, and_comm]

theorem inWord_literal (words : List Word) (w : Word) {c : UInt8} (h : isSpecial c = false) :
    inWord words w c = some ⟨words, .word (w ++ [(c, false)])⟩ := by
  simp only [isSpecial, isQuote, Bool.or_eq_false_iff, decide_eq_false_iff_not, not_or] at h
  obtain ⟨⟨⟨-, hop⟩, hexp⟩, hback, hquote, hdouble⟩ := h
  rw [inWord, if_neg hback, if_neg hquote, if_neg hdouble, if_neg (by simp [hop, hexp])]

theorem isBlank_of_literal {c : UInt8} (h : isSpecial c = false) : isBlank c = false := by
  simp only [isSpecial, Bool.or_eq_false_iff] at h
  exact h.1.1.1

theorem step_word (words : List Word) (w : List UInt8) {c : UInt8} (h : isSpecial c = false) :
    step ⟨words, .word (bare w)⟩ c = some ⟨words, .word (bare (w ++ [c]))⟩ := by
  simp only [step, isBlank_of_literal h]
  rw [if_neg (by simp), inWord_literal words (bare w) h, bare, bare, List.map_append]
  rfl

theorem step_blank (words : List Word) {c : UInt8} (h : isSpecial c = false) (hcomment : c ≠ hash) :
    step ⟨words, .blank⟩ c = some ⟨words, .word (bare [c])⟩ := by
  simp only [step, isBlank_of_literal h]
  rw [if_neg (by simp), if_neg hcomment, inWord_literal words [] h]
  rfl

theorem finishFrom_literal (words : List Word) (w x rest : List UInt8) (hx : Literal x) :
    finishFrom ⟨words, .word (bare w)⟩ (x ++ rest) = finishFrom ⟨words, .word (bare (w ++ x))⟩ rest := by
  induction x generalizing w with
  | nil => rw [List.nil_append, List.append_nil]
  | cons c x ih =>
    rw [List.cons_append, finishFrom_step (step_word words w (hx c List.mem_cons_self)),
      ih _ fun b hb => hx b (List.mem_cons_of_mem c hb), List.append_assoc]
    rfl

theorem finishFrom_bare (words : List Word) {x : List UInt8} (hx : Bare x) (rest : List UInt8) :
    finishFrom ⟨words, .blank⟩ (x ++ rest) = finishFrom ⟨words, .word (bare x)⟩ rest := by
  obtain ⟨c, x, rfl⟩ := List.exists_cons_of_ne_nil hx.ne_nil
  have hcomment : c ≠ hash := fun h => hx.no_comment (by rw [h]; rfl)
  rw [List.cons_append, finishFrom_step (step_blank words (hx.literal c List.mem_cons_self) hcomment)]
  exact finishFrom_literal words [c] x rest fun b hb => hx.literal b (List.mem_cons_of_mem c hb)

theorem finishFrom_unwords (words : List Word) {ws : List (List UInt8)} (h : ∀ w ∈ ws, Bare w) :
    finishFrom ⟨words, .blank⟩ (unwords ws) = some (words ++ ws.map bare) := by
  induction ws generalizing words with
  | nil => simp [unwords, finishFrom_nil, finish]
  | cons w ws ih =>
    have hw := h w List.mem_cons_self
    by_cases hws : ws = []
    · subst hws
      have hread := finishFrom_bare words hw []
      rw [List.append_nil] at hread
      exact hread
    · have hblank : step ⟨words, .word (bare w)⟩ 32 = some ⟨words ++ [bare w], .blank⟩ := rfl
      rw [unwords_cons hws, finishFrom_bare words hw, finishFrom_step hblank,
        ih _ fun v hv => h v (List.mem_cons_of_mem w hv)]
      simp

theorem words_unwords {ws : List (List UInt8)} (h : ∀ w ∈ ws, Bare w) : words (unwords ws) = some ws := by
  have hlex : lex (unwords ws) = some (ws.map bare) := finishFrom_unwords [] h
  have hfixed : (ws.map bare).all isFixed = true := by
    rw [List.all_eq_true]
    intro m hm
    obtain ⟨w, hw, rfl⟩ := List.mem_map.mp hm
    exact (isFixed_bare w).mpr ⟨(h w hw).no_home, (h w hw).no_pattern⟩
  have htext : (ws.map bare).map text = ws := by
    rw [List.map_map]
    exact (List.map_congr_left fun w _ => text_bare w).trans (List.map_id ws)
  simp only [words, hlex, hfixed, if_true, htext]

theorem words_total {x : List UInt8} {ws : List (List UInt8)} (h : words x = some ws) :
    total ws ≤ x.length + 1 := by
  unfold words at h
  cases hlex : lex x with
  | none => simp [hlex] at h
  | some ms =>
    simp only [hlex] at h
    split_ifs at h
    cases h
    have hlen := finishFrom_width hlex
    rw [total_map_text]
    simpa [Lexer.width, Mode.width, total] using hlen

/-- Words that are put into a text and read from it again need no quotes. -/
theorem bare_of_words {ws : List (List UInt8)} (h : words (unwords ws) = some ws) : ∀ w ∈ ws, Bare w := by
  intro w hw
  have hne : ws ≠ [] := List.ne_nil_of_mem hw
  unfold words at h
  cases hlex : lex (unwords ws) with
  | none => simp [hlex] at h
  | some ms =>
    simp only [hlex] at h
    split_ifs at h with hfixed
    have htexts := Option.some.inj h
    have htight : (⟨[], .blank⟩ : Lexer).Tight := ⟨by simp, Or.inl rfl⟩
    have hlen : total ms = (unwords ws).length + 1 := by
      rw [← total_map_text, htexts, length_unwords hne]
    have hclean := finishFrom_tight htight hlex (by simp [Lexer.width, Mode.width, total]; omega)
    rw [← htexts] at hw
    obtain ⟨m, hm, rfl⟩ := List.mem_map.mp hw
    have hbare := (hclean m hm).bare
    have hmfixed := List.all_eq_true.mp hfixed m hm
    rw [hbare, isFixed_bare] at hmfixed
    refine ⟨?_, ?_, ?_, hmfixed.1, hmfixed.2⟩
    · simpa [text] using (hclean m hm).ne_nil
    · intro b hb
      obtain ⟨mb, hmb, rfl⟩ := List.mem_map.mp hb
      exact ((hclean m hm).unquoted mb hmb).2
    · have hhash := (hclean m hm).no_comment
      rw [hbare, bare, List.head?_map] at hhash
      intro hhead
      exact hhash (by rw [hhead]; rfl)

/-- Words with spaces between them are read as these words, exactly if none of them needs quotes. -/
theorem words_unwords_iff (ws : List (List UInt8)) : words (unwords ws) = some ws ↔ ∀ w ∈ ws, Bare w :=
  ⟨bare_of_words, words_unwords⟩

/-! ## Texts without quotes -/

theorem splitOn_cons (c : UInt8) (x : List UInt8) :
    (c :: x).splitOn 32 = if c = 32 then [] :: x.splitOn 32 else (x.splitOn 32).modifyHead (c :: ·) := by
  have h := List.splitOnP_cons_eq_if_modifyHead (p := (· == (32 : UInt8))) c x
  simpa [List.splitOn] using h

theorem mem_of_mem_splitOn {x w : List UInt8} (hw : w ∈ x.splitOn 32) : w ⊆ x := by
  induction x generalizing w with
  | nil =>
    rw [List.splitOn_nil, List.mem_singleton] at hw
    rw [hw]
    exact List.nil_subset _
  | cons c x ih =>
    rw [splitOn_cons] at hw
    split_ifs at hw
    · rcases List.mem_cons.mp hw with rfl | hw
      · exact List.nil_subset _
      · exact fun b hb => List.mem_cons_of_mem c (ih hw hb)
    · obtain ⟨v, vs, hvs⟩ := List.exists_cons_of_ne_nil (List.splitOnP_ne_nil (· == (32 : UInt8)) x)
      change x.splitOn 32 = v :: vs at hvs
      rw [hvs] at hw ih
      rcases List.mem_cons.mp hw with rfl | hw
      · exact List.cons_subset_cons c (ih List.mem_cons_self)
      · exact fun b hb => List.mem_cons_of_mem c (ih (List.mem_cons_of_mem v hw) hb)

theorem finishFrom_spaces (x : List UInt8) (hx : ∀ b ∈ x, b = 32 ∨ isSpecial b = false ∧ b ≠ hash) (words : List Word) :
    finishFrom ⟨words, .blank⟩ x = some (words ++ ((x.splitOn 32).filter (· ≠ [])).map bare) ∧
    ∀ w : List UInt8, w ≠ [] → finishFrom ⟨words, .word (bare w)⟩ x =
      some (words ++ (((x.splitOn 32).modifyHead (w ++ ·)).filter (· ≠ [])).map bare) := by
  induction x generalizing words with
  | nil =>
    refine ⟨by simp [finishFrom_nil, finish], fun w hw => ?_⟩
    simp [finishFrom_nil, finish, hw]
  | cons c x ih =>
    have ih' := ih fun b hb => hx b (List.mem_cons_of_mem c hb)
    rcases hx c List.mem_cons_self with rfl | ⟨hc, hhash⟩
    · have hblank : step ⟨words, .blank⟩ 32 = some ⟨words, .blank⟩ := rfl
      rw [finishFrom_step hblank, splitOn_cons, if_pos rfl]
      refine ⟨by simpa using (ih' words).1, fun w hw => ?_⟩
      have hword : step ⟨words, .word (bare w)⟩ 32 = some ⟨words ++ [bare w], .blank⟩ := rfl
      rw [finishFrom_step hword, (ih' _).1]
      simp [hw]
    · have hne : c ≠ 32 := by
        rintro rfl
        exact absurd hc (by decide)
      rw [splitOn_cons, if_neg hne]
      refine ⟨?_, fun w _ => ?_⟩
      · rw [finishFrom_step (step_blank words hc hhash)]
        exact (ih' words).2 [c] (by simp)
      · rw [finishFrom_step (step_word words w hc), (ih' words).2 (w ++ [c]) (by simp), List.modifyHead_modifyHead]
        congr 5
        funext v
        simp

theorem words_of_spaces {x : List UInt8}
    (hx : ∀ b ∈ x, b = 32 ∨ isSpecial b = false ∧ b ≠ hash ∧ b ≠ tilde ∧ b ≠ star ∧ b ≠ question ∧ b ≠ openBracket) :
    words x = some ((x.splitOn 32).filter (· ≠ [])) := by
  have hlex := (finishFrom_spaces x (fun b hb => (hx b hb).imp_right fun h => ⟨h.1, h.2.1⟩) []).1
  rw [List.nil_append] at hlex
  have hfixed : (((x.splitOn 32).filter (· ≠ [])).map bare).all isFixed = true := by
    rw [List.all_eq_true]
    intro m hm
    obtain ⟨w, hw, rfl⟩ := List.mem_map.mp hm
    have hsub := mem_of_mem_splitOn (List.mem_of_mem_filter hw)
    have hno : ∀ b ∈ w, b ≠ tilde ∧ b ≠ star ∧ b ≠ question ∧ b ≠ openBracket := by
      intro b hb
      rcases hx b (hsub hb) with rfl | h
      · decide
      · exact h.2.2
    refine (isFixed_bare w).mpr ⟨fun h => (hno _ (List.mem_of_head? h)).1 rfl, ?_⟩
    have hpattern := isPattern_prefix (w := bare w) (fun m hm => ?_) []
    · rwa [List.append_nil] at hpattern
    · obtain ⟨b, hb, rfl⟩ := List.mem_map.mp hm
      exact (hno b hb).2
  have htext : (((x.splitOn 32).filter (· ≠ [])).map bare).map text = (x.splitOn 32).filter (· ≠ []) := by
    rw [List.map_map]
    exact (List.map_congr_left fun w _ => text_bare w).trans (List.map_id _)
  have hlex' : lex x = some (((x.splitOn 32).filter (· ≠ [])).map bare) := hlex
  simp only [words, hlex', hfixed, if_true, htext]

end Shell
