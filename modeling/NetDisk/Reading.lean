import NetDisk.Code.ClientMain

/-!
# What the user asked for

The words on standard input, read as commands, and when the requests of the client are those.
-/

namespace NetDisk

namespace ClientMain

open Istream

/-! ## The reading -/

def command (t : Bytes) : Option Int :=
  match number t with
  | some (v, []) => some v
  | _ => none

/-- The requests that the words ask for, each with the place of its command. -/
def reading (login : Bool) : List (Nat × Bytes) → List (Nat × Request)
  | [] => []
  | (place, t) :: toks =>
    if command t = some MsgType.register.toInt then
      match toks with
      | (_, name) :: (_, passwd) :: (_, again) :: toks =>
        if again = passwd then (place, .register name passwd) :: reading login toks else reading login toks
      | _ => []
    else if command t = some MsgType.upload.toInt then
      match toks with
      | (_, file) :: toks =>
        if login = true then (place, .upload file gUsr) :: reading login toks else reading login toks
      | [] => []
    else reading login toks

section
variable {login : Bool} {place : Nat} {t : Bytes} {toks : List (Nat × Bytes)}

theorem reading_other (h0 : command t ≠ some MsgType.register.toInt) (h5 : command t ≠ some MsgType.upload.toInt) :
    reading login ((place, t) :: toks) = reading login toks := by
  rw [reading.eq_def]
  simp only [if_neg h0, if_neg h5]

theorem reading_upload (h : command t = some MsgType.upload.toInt) :
    reading false ((place, t) :: toks) = reading false toks.tail := by
  have h0 : command t ≠ some MsgType.register.toInt := by
    rw [h]
    decide
  rw [reading.eq_def]
  simp only [if_neg h0, if_pos h]
  cases toks with
  | nil => rfl
  | cons w toks => rfl

theorem reading_register (h : command t = some MsgType.register.toInt) (p q r : Nat) (name passwd again : Bytes) :
    reading login ((place, t) :: (p, name) :: (q, passwd) :: (r, again) :: toks) =
      (if again = passwd then [(place, .register name passwd)] else []) ++ reading login toks := by
  rw [reading.eq_def]
  simp only [if_pos h]
  split <;> rfl

theorem reading_short (h : command t = some MsgType.register.toInt) (hshort : toks.length < 3) :
    reading login ((place, t) :: toks) = [] := by
  rw [reading.eq_def]
  simp only [if_pos h]
  rcases toks with _ | ⟨_, _ | ⟨_, _ | ⟨_, toks⟩⟩⟩
  · rfl
  · rfl
  · rfl
  · simp only [List.length_cons] at hshort
    omega

end

/-- From some round on, the requests are these. -/
def Settles (c : Client) (requests : List (Nat × Request)) : Prop := ∃ n, ∀ m, n ≤ m → rounds m c = requests

/-! ## When the requests are those of the reading -/

/-- The commands that make a request. -/
def Acts (opType : Int) : Prop := opType = MsgType.register.toInt ∨ opType = MsgType.upload.toInt

instance (opType : Int) : Decidable (Acts opType) := inferInstanceAs (Decidable (_ ∨ _))

/-- How the loop gets through a word where it reads a command. -/
inductive Walk where
  | through
  /-- A number is out of range, and the stream fails. -/
  | fails
  /-- A request is made. -/
  | acts
deriving DecidableEq

/-- Numbers that stand together are read one after the other. -/
def walk : Nat → Bytes → Walk
  | 0, _ => .through
  | fuel + 1, t =>
    match number t with
    | none => .acts
    | some (v, g) =>
      if v < Json.intMin ∨ Json.intMax < v then .fails
      else if Acts v then .acts
      else if g = [] then .through
      else walk fuel g

/-- Each command is a number, or more of them together, and makes no request; or it is 0 with a name and twice the same
password. A number that is out of range has no request after it. -/
def Clean : List (Nat × Bytes) → Prop
  | [] => True
  | (_, t) :: toks =>
    if command t = some MsgType.register.toInt then
      match toks with
      | (_, name) :: (_, passwd) :: (_, again) :: toks =>
        again = passwd ∧ (0 : Byte) ∉ name ∧ (0 : Byte) ∉ passwd ∧ Clean toks
      | _ => False
    else
      match walk t.length t with
      | .through => Clean toks
      | .fails => reading gIsLogin toks = []
      | .acts => False

section
variable {place : Nat} {t : Bytes} {toks : List (Nat × Bytes)}

theorem clean_other (h : command t ≠ some MsgType.register.toInt) : Clean ((place, t) :: toks) ↔
    match walk t.length t with
    | .through => Clean toks
    | .fails => reading gIsLogin toks = []
    | .acts => False := by
  rw [Clean.eq_def]
  simp only [if_neg h]

theorem clean_register (h : command t = some MsgType.register.toInt) (p q r : Nat) (name passwd again : Bytes) :
    Clean ((place, t) :: (p, name) :: (q, passwd) :: (r, again) :: toks) ↔
      again = passwd ∧ (0 : Byte) ∉ name ∧ (0 : Byte) ∉ passwd ∧ Clean toks := by
  rw [Clean.eq_def]
  simp only [if_pos h]

theorem clean_short (h : command t = some MsgType.register.toInt) (hshort : toks.length < 3) :
    ¬ Clean ((place, t) :: toks) := by
  rw [Clean.eq_def]
  simp only [if_pos h]
  rcases toks with _ | ⟨_, _ | ⟨_, _ | ⟨_, toks⟩⟩⟩
  · exact id
  · exact id
  · exact id
  · simp only [List.length_cons] at hshort
    omega

end

/-- What is in `op_type` when nothing was read makes no request. -/
def Idle (garbage : Nat → Int) : Prop := ∀ n, ¬ Acts (garbage n)

/-! ## Rounds -/

theorem settles_step {c : Client} {requests : List (Nat × Request)} : Settles c requests ↔
    ∃ later, requests = (round c).1 ++ later ∧ Settles (round c).2 later := by
  constructor
  · rintro ⟨n, h⟩
    have hround : ∀ m, n ≤ m → requests = (round c).1 ++ rounds m (round c).2 := fun m hm => (h (m + 1) (by omega)).symm
    refine ⟨rounds n (round c).2, hround n (Nat.le_refl n), n, fun m hm => ?_⟩
    exact List.append_cancel_left ((hround m hm).symm.trans (hround n (Nat.le_refl n)))
  · rintro ⟨later, rfl, n, h⟩
    refine ⟨n + 1, fun m hm => ?_⟩
    obtain ⟨m, rfl⟩ : ∃ m', m = m' + 1 := ⟨m - 1, by omega⟩
    exact congrArg _ (h m (by omega))

theorem settles_quiet {c : Client} {requests : List (Nat × Request)} (h : (round c).1 = []) :
    Settles c requests ↔ Settles (round c).2 requests := by
  rw [settles_step, h]
  exact ⟨fun ⟨_, heq, hlater⟩ => heq ▸ hlater, fun hlater => ⟨_, rfl, hlater⟩⟩

theorem not_settles {c : Client} {requests : List (Nat × Request)} {r : Nat × Request} (h : (round c).1 = [r])
    (hr : r ∉ requests) : ¬ Settles c requests := by
  rw [settles_step, h]
  rintro ⟨later, rfl, _⟩
  exact hr List.mem_cons_self

theorem settles_skip {s s' : Bytes} {garbage : Nat → Int} {requests : List (Nat × Request)} (h : skipWs s = skipWs s') :
    Settles ⟨⟨s, false⟩, garbage⟩ requests ↔ Settles ⟨⟨s', false⟩, garbage⟩ requests := by
  have hread : ∀ lo hi, readInt lo hi ⟨s, false⟩ = readInt lo hi ⟨s', false⟩ := by
    intro lo hi
    unfold readInt
    rw [if_neg Bool.false_ne_true, if_neg Bool.false_ne_true, h]
  have hround : round ⟨⟨s, false⟩, garbage⟩ = round ⟨⟨s', false⟩, garbage⟩ := by
    unfold round
    rw [hread, h]
  rw [settles_step, settles_step, hround]

/-! ### One operation -/

theorem operate_other {opType : Int} (h : ¬ Acts opType) (cin : Istream) : operate opType cin = ([], cin) := by
  have h0 : opType ≠ MsgType.register.toInt := fun he => h (Or.inl he)
  have h5 : opType ≠ MsgType.upload.toInt := fun he => h (Or.inr he)
  unfold operate loginOp exitOp downloadOp
  rw [if_neg h0, if_neg h5]
  split <;> first | rfl | split <;> first | rfl | split <;> rfl

theorem operate_acts {opType : Int} (h : Acts opType) (cin : Istream) : ∃ r, (operate opType cin).1 = [r] := by
  rcases h with rfl | rfl
  · exact ⟨_, rfl⟩
  · exact ⟨_, rfl⟩

/-- A registration under some name. -/
def Asked (r : Request) : Prop := ∃ name passwd, r = .register name passwd ∧ name ≠ []

theorem readField_dry {cin : Istream} (h : cin.fail = true ∨ words cin.rest = []) :
    (readField cin).1 = [] ∧ (readField cin).2.fail = true := by
  have hread := readString_nil h
  unfold readField
  rw [hread.1]
  exact ⟨rfl, hread.2⟩

theorem operate_dry {opType : Int} (h : Acts opType) {cin : Istream} (hdry : cin.fail = true ∨ words cin.rest = []) :
    ∃ r, (operate opType cin).1 = [r] ∧ ¬ Asked r := by
  have hfield := (readField_dry hdry).1
  rcases h with rfl | rfl
  · refine ⟨.register (cStr (readField cin).1) _, rfl, ?_⟩
    rintro ⟨name, passwd, he, hne⟩
    rw [hfield] at he
    exact hne (Request.register.inj he).1.symm
  · refine ⟨_, rfl, ?_⟩
    rintro ⟨name, passwd, he, _⟩
    cases he

theorem operate_fail (opType : Int) {cin : Istream} (h : cin.fail = true) : (operate opType cin).2.fail = true := by
  have hfield : ∀ {cin : Istream}, cin.fail = true → (readField cin).2.fail = true := fun h => (readField_dry (Or.inl h)).2
  by_cases hacts : Acts opType
  · rcases hacts with rfl | rfl
    · exact hfield (hfield (hfield h))
    · exact hfield h
  · rw [operate_other hacts]
    exact h

/-! ### The end of what can be read -/

/-- Registrations, with commands among the last bytes. -/
def Within (bound : Nat) (requests : List (Nat × Request)) : Prop := ∀ e ∈ requests, Asked e.2 ∧ e.1 ≤ bound

/-- Nothing can be read. -/
def Client.Dry (c : Client) : Prop := c.cin.fail = true ∨ skipWs c.cin.rest = []

theorem round_dry {c : Client} (h : c.Dry) : (round c).2.Dry ∧ (round c).2.garbage = (fun n => c.garbage (n + 1)) := by
  obtain ⟨hnone, hfail⟩ := readInt_dry Json.intMin Json.intMax h
  refine ⟨Or.inl (operate_fail _ hfail), ?_⟩
  unfold round
  exact if_pos hnone

theorem round_dry_quiet {c : Client} (h : c.Dry) (hacts : ¬ Acts (c.garbage 0)) : (round c).1 = [] := by
  obtain ⟨hnone, _⟩ := readInt_dry Json.intMin Json.intMax h
  unfold round
  simp only [hnone, Option.getD_none, operate_other hacts, List.map_nil]

theorem round_dry_acts {c : Client} (h : c.Dry) (hacts : Acts (c.garbage 0)) : ∃ e, (round c).1 = [e] ∧ ¬ Asked e.2 := by
  obtain ⟨hnone, hfail⟩ := readInt_dry Json.intMin Json.intMax h
  obtain ⟨r, hr, hasked⟩ := operate_dry hacts (Or.inl hfail)
  refine ⟨((skipWs c.cin.rest).length, r), ?_, hasked⟩
  unfold round
  simp only [hnone, Option.getD_none, hr, List.map_cons, List.map_nil]

theorem rounds_dry {c : Client} (h : c.Dry) (hidle : Idle c.garbage) (n : Nat) : rounds n c = [] := by
  induction n generalizing c with
  | zero => rfl
  | succ n ih =>
    obtain ⟨hdry, hgarbage⟩ := round_dry h
    rw [rounds, round_dry_quiet h (hidle 0), List.nil_append]
    refine ih hdry ?_
    rw [hgarbage]
    exact fun m => hidle (m + 1)

theorem idle_of_settles {c : Client} (h : c.Dry) {requests : List (Nat × Request)} (hreq : ∀ e ∈ requests, Asked e.2)
    (hsettles : Settles c requests) : Idle c.garbage := by
  intro n
  induction n generalizing c with
  | zero =>
    intro hacts
    obtain ⟨e, hround, hasked⟩ := round_dry_acts h hacts
    exact not_settles hround (fun he => hasked (hreq e he)) hsettles
  | succ n ih =>
    by_cases hacts : Acts (c.garbage 0)
    · obtain ⟨e, hround, hasked⟩ := round_dry_acts h hacts
      exact absurd hsettles (not_settles hround fun he => hasked (hreq e he))
    · obtain ⟨hdry, hgarbage⟩ := round_dry h
      have hlater := ih hdry ((settles_quiet (round_dry_quiet h hacts)).mp hsettles)
      rwa [hgarbage] at hlater

theorem settles_dry {c : Client} (h : c.Dry) {requests : List (Nat × Request)} (hreq : ∀ e ∈ requests, Asked e.2) :
    Settles c requests ↔ requests = [] ∧ Idle c.garbage := by
  constructor
  · intro hsettles
    have hidle := idle_of_settles h hreq hsettles
    obtain ⟨n, hn⟩ := hsettles
    exact ⟨(hn n (Nat.le_refl n)).symm.trans (rounds_dry h hidle n), hidle⟩
  · rintro ⟨rfl, hidle⟩
    exact ⟨0, fun m _ => rounds_dry h hidle m⟩

/-! ### A word -/

theorem round_read {c : Client} {v : Int} {cin : Istream} (h : c.cin.readInt Json.intMin Json.intMax = (some v, cin)) :
    round c = ((operate v cin).1.map fun r => ((skipWs c.cin.rest).length, r), ⟨(operate v cin).2, c.garbage⟩) := by
  unfold round
  rw [h]
  rfl

theorem skipWs_append {t r : Bytes} (ht : t ≠ []) (hword : ∀ b ∈ t, isSpace b = false) : skipWs (t ++ r) = t ++ r := by
  cases t with
  | nil => exact absurd rfl ht
  | cons b t => exact List.dropWhile_cons_of_neg (by simp [hword b List.mem_cons_self])

section
variable {r : Bytes} (hr : ∀ b rest, r = b :: rest → isSpace b = true) (garbage : Nat → Int)
variable {requests : List (Nat × Request)} (hreq : Within r.length requests)
include hr hreq

/-- Where a word is read as a command that is none of the requests'. -/
theorem settles_walk {fuel : Nat} {t : Bytes} (hfuel : t.length ≤ fuel) (ht : t ≠ []) (hword : ∀ b ∈ t, isSpace b = false) :
    Settles ⟨⟨t ++ r, false⟩, garbage⟩ requests ↔
      match walk fuel t with
      | .through => Settles ⟨⟨r, false⟩, garbage⟩ requests
      | .fails => requests = [] ∧ Idle garbage
      | .acts => False := by
  induction fuel generalizing t with
  | zero => exact absurd (List.eq_nil_of_length_eq_zero (Nat.le_zero.mp hfuel)) ht
  | succ fuel ih =>
    obtain ⟨b, t', rfl⟩ := List.exists_cons_of_ne_nil ht
    have hskip : skipWs (b :: t' ++ r) = b :: (t' ++ r) := skipWs_append ht hword
    have hnumber : number (b :: (t' ++ r)) = (number (b :: t')).map fun x => (x.1, x.2 ++ r) := number_append ht hr
    have hplace : r.length < (skipWs (b :: t' ++ r)).length := by
      rw [hskip, List.length_cons, List.length_append]
      omega
    -- A request that is made here has its place in this word.
    have hmade : ∀ {v cin q}, readInt Json.intMin Json.intMax ⟨b :: t' ++ r, false⟩ = (some v, cin) →
        (operate v cin).1 = [q] → ((skipWs (b :: t' ++ r)).length, q) ∉ requests →
        ¬ Settles ⟨⟨b :: t' ++ r, false⟩, garbage⟩ requests := by
      intro v cin q hread hq hnot
      refine not_settles ?_ hnot
      rw [round_read hread, hq]
      rfl
    have hquiet : ∀ {v cin}, readInt Json.intMin Json.intMax ⟨b :: t' ++ r, false⟩ = (some v, cin) → ¬ Acts v →
        (Settles ⟨⟨b :: t' ++ r, false⟩, garbage⟩ requests ↔ Settles ⟨cin, garbage⟩ requests) := by
      intro v cin hread hacts
      have hround := round_read (c := ⟨⟨b :: t' ++ r, false⟩, garbage⟩) hread
      rw [operate_other hacts] at hround
      rw [settles_quiet (by rw [hround]; rfl), hround]
    unfold walk
    cases hnum : number (b :: t') with
    | none =>
      rw [hnum] at hnumber
      have hread := readInt_none Json.intMin Json.intMax hskip hnumber
      have hdry : ∃ q, (operate 0 ⟨b :: (t' ++ r), true⟩).1 = [q] ∧ ¬ Asked q := operate_dry (Or.inl rfl) (Or.inl rfl)
      obtain ⟨q, hq, hasked⟩ := hdry
      exact iff_of_false (hmade hread hq fun he => hasked (hreq _ he).1) id
    | some x =>
      obtain ⟨v, g⟩ := x
      rw [hnum] at hnumber
      obtain ⟨hlen, hsuffix⟩ := number_rest hnum
      dsimp only
      by_cases hrange : v < Json.intMin ∨ Json.intMax < v
      · rw [if_pos hrange]
        obtain ⟨n, hn, hread⟩ := readInt_overflow Json.intMin Json.intMax hskip hnumber hrange
        have hacts : ¬ Acts n := by
          rcases hn with rfl | rfl <;> decide
        rw [hquiet hread hacts]
        exact settles_dry (Or.inl rfl) fun e he => (hreq e he).1
      · rw [if_neg hrange]
        have hread := readInt_range Json.intMin Json.intMax hskip hnumber (by omega) (by omega)
        by_cases hacts : Acts v
        · rw [if_pos hacts]
          obtain ⟨q, hq⟩ := operate_acts hacts ⟨g ++ r, false⟩
          refine iff_of_false (hmade hread hq fun he => ?_) id
          exact absurd (hreq _ he).2 (Nat.not_le_of_lt hplace)
        · rw [if_neg hacts, hquiet hread hacts]
          by_cases hg : g = []
          · rw [if_pos hg, hg]
            exact Iff.rfl
          · rw [if_neg hg]
            have hfuel' : g.length ≤ fuel := by
              rw [List.length_cons] at hfuel hlen
              omega
            exact ih hfuel' hg fun b hb => hword b (hsuffix.subset hb)

end

/-! ### All words -/

theorem reading_asked (toks : List (Nat × Bytes)) (h : ∀ w ∈ toks, w.2 ≠ []) :
    ∀ e ∈ reading gIsLogin toks, Asked e.2 ∧ ∃ w ∈ toks, e.1 = w.1 := by
  -- Words that are passed over do not matter.
  have hlater : ∀ {toks later : List (Nat × Bytes)}, later ⊆ toks →
      (∀ e ∈ reading gIsLogin later, Asked e.2 ∧ ∃ w ∈ later, e.1 = w.1) →
      ∀ e ∈ reading gIsLogin later, Asked e.2 ∧ ∃ w ∈ toks, e.1 = w.1 := by
    intro toks later hsub hall e he
    obtain ⟨hasked, w, hw, hplace⟩ := hall e he
    exact ⟨hasked, w, hsub hw, hplace⟩
  fun_induction reading gIsLogin toks with
  | case1 => exact fun e he => absurd he List.not_mem_nil
  | case2 place t hcommand _ name _ _ passwd toks ih =>
    intro e he
    rcases List.mem_cons.mp he with rfl | he
    · exact ⟨⟨name, passwd, rfl, h _ (List.mem_cons_of_mem _ List.mem_cons_self)⟩, _, List.mem_cons_self, rfl⟩
    · exact hlater (fun w hw => by simp [hw]) (ih fun w hw => h w (by simp [hw])) e he
  | case3 place t hcommand _ name _ passwd _ again toks hne ih =>
    exact hlater (fun w hw => by simp [hw]) (ih fun w hw => h w (by simp [hw]))
  | case4 => exact fun e he => absurd he List.not_mem_nil
  | case5 place t _ hcommand _ file toks hlogin ih => exact absurd hlogin Bool.false_ne_true
  | case6 place t _ hcommand _ file toks hlogin ih =>
    exact hlater (fun w hw => by simp [hw]) (ih fun w hw => h w (by simp [hw]))
  | case7 => exact fun e he => absurd he List.not_mem_nil
  | case8 place t toks hcommand _ ih => exact hlater (fun w hw => by simp [hw]) (ih fun w hw => h w (by simp [hw]))

theorem reading_within {r : Bytes} {toks : List (Nat × Bytes)} (h : toks ⊆ words r) :
    Within r.length (reading gIsLogin toks) := by
  intro e he
  obtain ⟨hasked, w, hw, hplace⟩ := reading_asked toks (fun w hw => (words_spec r w (h hw)).1) e he
  exact ⟨hasked, hplace ▸ (words_spec r w (h hw)).2⟩

theorem number_of_command {t : Bytes} {v : Int} (h : command t = some v) : number t = some (v, []) := by
  unfold command at h
  split at h
  · rename_i hnum
    rw [hnum, Option.some.inj h]
  · cases h

theorem walk_upload {t : Bytes} (ht : t ≠ []) (h : command t = some MsgType.upload.toInt) : walk t.length t = .acts := by
  obtain ⟨b, t', rfl⟩ := List.exists_cons_of_ne_nil ht
  rw [List.length_cons, walk, number_of_command h]
  rfl

theorem settles_other {t r : Bytes} (garbage : Nat → Int) (ht : t ≠ []) (hword : ∀ b ∈ t, isSpace b = false)
    (hr : ∀ b rest, r = b :: rest → isSpace b = true) (hcommand : command t ≠ some MsgType.register.toInt) (place : Nat)
    (ih : Settles (start r garbage) (reading gIsLogin (words r)) ↔ Clean (words r) ∧ Idle garbage) :
    Settles ⟨⟨t ++ r, false⟩, garbage⟩ (reading gIsLogin ((place, t) :: words r)) ↔
      Clean ((place, t) :: words r) ∧ Idle garbage := by
  rw [clean_other hcommand]
  by_cases hupload : command t = some MsgType.upload.toInt
  · have hwithin : Within r.length (reading gIsLogin ((place, t) :: words r)) := by
      rw [gIsLogin, reading_upload hupload]
      exact reading_within (List.tail_subset _)
    rw [settles_walk hr garbage hwithin (Nat.le_refl _) ht hword, walk_upload ht hupload]
    exact (iff_of_false id fun h => h.1)
  · rw [reading_other hcommand hupload,
      settles_walk hr garbage (reading_within (List.Subset.refl _)) (Nat.le_refl _) ht hword]
    cases walk t.length t with
    | through => exact ih
    | fails => exact Iff.rfl
    | acts => exact (iff_of_false id fun h => h.1)

theorem cStr_eq_iff {s : Bytes} : cStr s = s ↔ (0 : Byte) ∉ s :=
  ⟨fun h => h ▸ zero_not_mem_cStr s, cStr_eq_self⟩

theorem settles_register {c : Client} {r : Bytes} {place : Nat} {t : Bytes}
    (hround : round c = ((registOp ⟨r, false⟩).1.map fun q => (place, q), ⟨(registOp ⟨r, false⟩).2, c.garbage⟩))
    (hcommand : command t = some MsgType.register.toInt) (hplace : r.length < place)
    (ih : ∀ later : Bytes, later.length < r.length →
      (Settles (start later c.garbage) (reading gIsLogin (words later)) ↔ Clean (words later) ∧ Idle c.garbage)) :
    Settles c (reading gIsLogin ((place, t) :: words r)) ↔ Clean ((place, t) :: words r) ∧ Idle c.garbage := by
  by_cases hshort : (words r).length < 3
  · rw [reading_short hcommand hshort]
    have hone : ∃ q, (registOp ⟨r, false⟩).1 = [q] := ⟨_, rfl⟩
    obtain ⟨q, hq⟩ := hone
    rw [hq] at hround
    refine iff_of_false (not_settles (by rw [hround]; rfl) List.not_mem_nil) fun h => clean_short hcommand hshort h.1
  · rcases hwords : words r with _ | ⟨⟨p, name⟩, _ | ⟨⟨q, passwd⟩, _ | ⟨⟨m, again⟩, toks⟩⟩⟩
    case cons.cons.cons =>
      obtain ⟨r1, hread1, hwords1, hlen1⟩ := readString_cons hwords
      obtain ⟨r2, hread2, hwords2, hlen2⟩ := readString_cons hwords1
      obtain ⟨r3, hread3, hwords3, hlen3⟩ := readString_cons hwords2
      have hregist : registOp ⟨r, false⟩ = ([.register (cStr name) (cStr passwd)], ⟨r3, false⟩) := by
        simp only [registOp, readField, hread1, hread2, hread3, Option.getD_some]
      rw [hregist] at hround
      have hlater := ih r3 (by omega)
      rw [hwords3] at hlater
      rw [reading_register hcommand, clean_register hcommand]
      by_cases hagain : again = passwd
      · rw [if_pos hagain, settles_step, hround]
        constructor
        · rintro ⟨later, heq, hsettles⟩
          obtain ⟨hhead, htail⟩ := List.cons.inj heq
          obtain ⟨hname, hpasswd⟩ := Request.register.inj (Prod.mk.inj hhead).2
          have htail : reading gIsLogin toks = later := htail
          rw [← htail] at hsettles
          obtain ⟨hclean, hidle⟩ := hlater.mp hsettles
          exact ⟨⟨hagain, cStr_eq_iff.mp hname.symm, cStr_eq_iff.mp hpasswd.symm, hclean⟩, hidle⟩
        · rintro ⟨⟨_, hname, hpasswd, hclean⟩, hidle⟩
          rw [cStr_eq_self hname, cStr_eq_self hpasswd]
          exact ⟨_, rfl, hlater.mpr ⟨hclean, hidle⟩⟩
      · rw [if_neg hagain, List.nil_append]
        have hsub : toks ⊆ words r := by
          rw [hwords]
          exact fun w hw => by simp [hw]
        refine iff_of_false (not_settles (by rw [hround]; rfl) fun he => ?_) fun h => hagain h.1.1
        exact absurd (reading_within hsub _ he).2 (Nat.not_le_of_lt hplace)
    all_goals
      rw [hwords] at hshort
      simp at hshort

/-- The requests that the client makes are those of the reading, exactly when the input is clean and what is in `op_type`
after its end makes no request. -/
theorem settles_iff (input : Bytes) (garbage : Nat → Int) :
    Settles (start input garbage) (reading gIsLogin (words input)) ↔ Clean (words input) ∧ Idle garbage := by
  generalize hn : input.length = n
  induction n using Nat.strong_induction_on generalizing input with
  | _ n ih =>
    cases hs : skipWs input with
    | nil =>
      rw [words_nil hs]
      have hdry : (start input garbage).Dry := Or.inr hs
      have hnone : ∀ e ∈ reading gIsLogin [], Asked e.2 := fun e he => absurd he List.not_mem_nil
      rw [settles_dry hdry hnone]
      exact and_congr_left' (iff_of_true rfl trivial)
    | cons b rest =>
      have htr := word_append_afterWord (b :: rest)
      have ht := word_ne_nil hs
      have hword : ∀ b' ∈ word (b :: rest), isSpace b' = false := fun b' => isSpace_of_mem_word
      have hr : ∀ b' rest', afterWord (b :: rest) = b' :: rest' → isSpace b' = true := fun b' rest' => head_afterWord
      have hlen := length_afterWord_lt hs
      have hle := length_skipWs_le input
      rw [hs] at hle
      rw [words_cons hs]
      generalize word (b :: rest) = t at htr ht hword ⊢
      generalize afterWord (b :: rest) = r at htr hr hlen ⊢
      have hlater : ∀ later : Bytes, later.length ≤ r.length →
          (Settles (start later garbage) (reading gIsLogin (words later)) ↔ Clean (words later) ∧ Idle garbage) :=
        fun later hlater => ih _ (by omega) later rfl
      by_cases hcommand : command t = some MsgType.register.toInt
      · have hnumber : number (b :: rest) = some (0, r) := by
          rw [← htr, number_append ht hr, number_of_command hcommand]
          rfl
        have hread := readInt_range Json.intMin Json.intMax hs hnumber (by decide) (by decide)
        have hround := round_read (c := start input garbage) hread
        refine settles_register (c := start input garbage) ?_ hcommand hlen fun later h => hlater later (by omega)
        rw [hround]
        change (List.map (fun q => ((skipWs input).length, q)) _, _) = _
        rw [hs]
        rfl
      · have hskip : skipWs input = skipWs (t ++ r) := by
          rw [skipWs_append ht hword, htr, hs]
        rw [start, settles_skip hskip]
        exact settles_other garbage ht hword hr hcommand _ (hlater r (Nat.le_refl _))

/-! ### A word that is no number -/

/-- The user types one letter, and the client asks for a user without a name. -/
theorem letter_registers : ¬ Settles (start (ascii "x\n") fun _ => 7) (reading gIsLogin (words (ascii "x\n"))) := by
  rintro ⟨n, h⟩
  have hreading : reading gIsLogin (words (ascii "x\n")) = [] := rfl
  have hround : rounds (n + 1) (start (ascii "x\n") fun _ => 7) =
      [(2, .register [] [])] ++ rounds n (round (start (ascii "x\n") fun _ => 7)).2 := rfl
  have hsettled := h (n + 1) (by omega)
  rw [hreading, hround] at hsettled
  exact absurd hsettled (List.cons_ne_nil _ _)

end ClientMain

end NetDisk
