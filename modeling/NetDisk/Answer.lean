import NetDisk.Code.Control
import NetDisk.Server

/-!
# Which messages are answered

`Control::Process` ends with one response, or ends the server. Which of the two depends on the
message alone, whatever the queries and the file system do.
-/

namespace NetDisk

variable {ρ : Type}

/-! ## Values -/

namespace Json

/-- What `operator[]` with a key takes. -/
def Keyed : Json ρ → Prop
  | .null | .obj _ => True
  | _ => False

/-- What `asString` takes. -/
def Scalar : Json ρ → Prop
  | .arr _ | .obj _ => False
  | _ => True

/-- The member of a value, null where there is none. -/
def member (v : Json ρ) (key : String) : Json ρ :=
  match v with
  | .obj m => (lookup (ascii key) m).getD .null
  | _ => .null

theorem lookup_insert (key : Bytes) (val : Json ρ) (m : List (Bytes × Json ρ)) :
    lookup key (insert key val m) = some val := by
  induction m with
  | nil => simp [insert, lookup]
  | cons kv m ih =>
    obtain ⟨k, v⟩ := kv
    by_cases hk : k = key
    · simp [insert, lookup, hk]
    · simp only [insert, if_neg hk, lookup, ih]

theorem lookup_insert_of_ne {key key' : Bytes} (hne : key' ≠ key) (val : Json ρ) (m : List (Bytes × Json ρ)) :
    lookup key' (insert key val m) = lookup key' m := by
  induction m with
  | nil => simp [insert, lookup, Ne.symm hne]
  | cons kv m ih =>
    obtain ⟨k, v⟩ := kv
    by_cases hk : k = key
    · simp [insert, lookup, hk, Ne.symm hne]
    · simp only [insert, if_neg hk, lookup, ih]

theorem members_of_not_keyed {v : Json ρ} (h : ¬ v.Keyed) : v.members = .error .exception := by
  cases v <;> simp_all [Keyed, members]

theorem members_of_keyed {v : Json ρ} (h : v.Keyed) :
    ∃ m, v.members = .ok m ∧ ∀ key, v.member key = (lookup (ascii key) m).getD .null := by
  cases v with
  | null => exact ⟨[], rfl, fun key => rfl⟩
  | obj m => exact ⟨m, rfl, fun key => rfl⟩
  | _ => exact absurd h (by simp [Keyed])

theorem get_of_not_keyed {v : Json ρ} (h : ¬ v.Keyed) (key : String) : v.get key = .error .exception := by
  unfold get
  rw [members_of_not_keyed h]
  rfl

theorem get_of_keyed {v : Json ρ} (h : v.Keyed) (key : String) :
    ∃ v', v.get key = .ok (v.member key, v') ∧ v'.Keyed ∧ ∀ key', v'.member key' = v.member key' := by
  obtain ⟨m, hm, hmem⟩ := members_of_keyed h
  unfold get
  rw [hm, hmem]
  cases hl : lookup (ascii key) m with
  | some val =>
    refine ⟨.obj m, ?_, trivial, fun key' => (hmem key').symm⟩
    simp [bind, Except.bind, pure, Except.pure, hl]
  | none =>
    refine ⟨.obj (insert (ascii key) .null m), ?_, trivial, ?_⟩
    · simp [bind, Except.bind, pure, Except.pure, hl]
    intro key'
    rw [hmem]
    by_cases hk : ascii key' = ascii key
    · simp [member, hk, lookup_insert, hl]
    · simp only [member, lookup_insert_of_ne hk]

theorem set_of_not_keyed {v : Json ρ} (h : ¬ v.Keyed) (key : String) (val : Json ρ) :
    v.set key val = .error .exception := by
  unfold set
  rw [members_of_not_keyed h]
  rfl

theorem set_of_keyed {v : Json ρ} (h : v.Keyed) (key : String) (val : Json ρ) :
    ∃ m, v.set key val = .ok (.obj m) ∧ lookup (ascii key) m = some val := by
  obtain ⟨m, hm, _⟩ := members_of_keyed h
  refine ⟨insert (ascii key) val m, ?_, lookup_insert _ _ _⟩
  unfold set
  rw [hm]
  rfl

theorem asString_of_scalar (j : Jsoncpp ρ) {v : Json ρ} (h : v.Scalar) : ∃ s, v.asString j = .ok s := by
  cases v <;> simp_all [Scalar, asString]

theorem asString_of_not_scalar (j : Jsoncpp ρ) {v : Json ρ} (h : ¬ v.Scalar) :
    v.asString j = .error .exception := by
  cases v <;> simp_all [Scalar, asString]

end Json

/-! ## One response -/

def Sys.isSend : Sys → Bool
  | .send _ _ => true
  | _ => false

variable {σ : Type} (j : Jsoncpp ρ) (fl : Flags) (h : Prog.Handler Sys Sys.Res σ) (s : σ)

/-- The call returns, and has sent exactly one response: an object whose member `Response` is a string. -/
def Answered (clientFd : Int) (c : Code (Except Crash Unit)) : Prop :=
  (c.run h s).1 = .ok () ∧ ∃ m text, Json.lookup (ascii "Response") m = some (.str text) ∧
    (c.trace h s).filter Sys.isSend = [.send clientFd (j.toStyledString (.obj m))]

theorem not_answered_crash (clientFd : Int) (crash : Crash) :
    ¬ Answered j h s clientFd (.pure (.error crash)) := by
  rintro ⟨hres, _⟩
  cases hres

theorem respond_answered (clientFd : Int) (v : Json ρ) (msg : Bytes) :
    Answered j h s clientFd (respond j clientFd v msg) ↔ v.Keyed := by
  by_cases hv : v.Keyed
  · obtain ⟨m, hset, hl⟩ := Json.set_of_keyed hv "Response" (.str msg)
    refine iff_of_true ⟨?_, m, msg, hl, ?_⟩ hv
    · simp only [respond, hset]
      rfl
    · simp only [respond, hset]
      rfl
  · refine iff_of_false ?_ hv
    unfold respond
    rw [Json.set_of_not_keyed hv]
    exact not_answered_crash j h s clientFd .exception

theorem answered_bind {α : Type} (clientFd : Int) {c : Code α} (f : α → Code (Except Crash Unit))
    (hc : c.Uses fun op => op.isSend = false) :
    Answered j h s clientFd (c >>= f) ↔ Answered j h (c.run h s).2 clientFd (f (c.run h s).1) := by
  have hnone : (c.trace h s).filter Sys.isSend = [] := by
    rw [List.filter_eq_nil_iff]
    intro op hop
    rw [hc.trace h s op hop]
    exact Bool.false_ne_true
  unfold Answered
  rw [Prog.run_bind, Prog.trace_bind, List.filter_append, hnone, List.nil_append]

namespace RegisterView

open FileSys Mmysql

theorem runQuery_quiet (cmd : Bytes) : (runQuery cmd).Uses fun op => op.isSend = false := by
  refine ⟨rfl, fun ok => ?_⟩
  cases ok <;> exact Prog.Uses.pure

theorem regist_quiet (usr passwd : Bytes) : (regist fl usr passwd).Uses fun op => op.isSend = false := by
  unfold regist usrNotExist insertUsr createUsrDir
  apply Prog.Uses.bind
  · apply Prog.Uses.bind (runQuery_quiet _)
    intro rt
    apply Prog.Uses.ite Prog.Uses.pure
    refine ⟨rfl, fun row => ?_⟩
    cases row <;> exact Prog.Uses.pure
  intro rt
  apply Prog.Uses.ite Prog.Uses.pure
  apply Prog.Uses.ite Prog.Uses.pure
  apply Prog.Uses.bind
  · apply Prog.Uses.bind (runQuery_quiet _)
    exact fun rt => Prog.Uses.ite Prog.Uses.pure Prog.Uses.pure
  intro rt
  apply Prog.Uses.ite Prog.Uses.pure
  apply Prog.Uses.bind
  · apply Prog.Uses.bind
    · exact ⟨rfl, fun err => Prog.Uses.ite Prog.Uses.pure Prog.Uses.pure⟩
    · exact fun rt => Prog.Uses.ite Prog.Uses.pure Prog.Uses.pure
  intro rt
  exact Prog.Uses.ite Prog.Uses.pure Prog.Uses.pure

theorem readRequest_iff {v : Json ρ} (hv : v.Keyed) :
    (∃ p, readRequest j v = .ok p) ↔ (v.member "Name").Scalar ∧ (v.member "Passwd").Scalar := by
  obtain ⟨v1, hget1, hv1, hsame1⟩ := Json.get_of_keyed hv "Name"
  obtain ⟨v2, hget2, _⟩ := Json.get_of_keyed hv1 "Passwd"
  unfold readRequest
  rw [hget1]
  by_cases hname : (v.member "Name").Scalar
  swap
  · refine iff_of_false ?_ fun hs => hname hs.1
    rintro ⟨p, hp⟩
    simp [bind, Except.bind, Json.asString_of_not_scalar j hname] at hp
  obtain ⟨usr, husr⟩ := Json.asString_of_scalar j hname
  by_cases hpasswd : (v.member "Passwd").Scalar
  · obtain ⟨passwd, hpw⟩ := Json.asString_of_scalar j hpasswd
    refine iff_of_true ⟨(usr, passwd), ?_⟩ ⟨hname, hpasswd⟩
    simp [bind, Except.bind, husr, hget2, hsame1, hpw, pure, Except.pure]
  · refine iff_of_false ?_ fun hs => hpasswd hs.2
    rintro ⟨p, hp⟩
    simp [bind, Except.bind, husr, hget2, hsame1, Json.asString_of_not_scalar j hpasswd] at hp

theorem Process_answered (clientFd : Int) {v : Json ρ} (hv : v.Keyed) :
    Answered j h s clientFd (Process j fl v clientFd) ↔ (v.member "Name").Scalar ∧ (v.member "Passwd").Scalar := by
  rw [← readRequest_iff j hv]
  unfold Process
  cases hr : readRequest j v with
  | error crash =>
    refine iff_of_false (not_answered_crash j h s clientFd crash) ?_
    rintro ⟨p, hp⟩
    cases hp
  | ok p =>
    refine iff_of_true ?_ ⟨p, rfl⟩
    rw [answered_bind j h s clientFd _ (regist_quiet fl p.1 p.2)]
    exact (respond_answered j h _ clientFd .null _).mpr trivial

end RegisterView

/-! ## Any message -/

namespace Control

/-- The messages that are answered. -/
def Answerable (msg : Bytes) : Prop :=
  match j.parse (cStr msg) with
  | (false, root) => root.Keyed
  | (true, root) => root.Keyed ∧ ∃ type, (root.member "TYPE").asInt j = .ok type ∧
      type ≠ MsgType.login.toInt ∧ type ≠ MsgType.exit.toInt ∧
      (type = MsgType.register.toInt → (root.member "Name").Scalar ∧ (root.member "Passwd").Scalar)

theorem dispatch_answered (clientFd : Int) {v : Json ρ} (hv : v.Keyed) (type : Int) :
    Answered j h s clientFd
      (if type = MsgType.register.toInt ∨ type = MsgType.login.toInt ∨ type = MsgType.exit.toInt then
        match viewMap type with
        | none => .pure (.error .nullView)
        | some .registerView => RegisterView.Process j fl v clientFd
      else respond j clientFd v (ascii "error command!")) ↔
    type ≠ MsgType.login.toInt ∧ type ≠ MsgType.exit.toInt ∧
      (type = MsgType.register.toInt → (v.member "Name").Scalar ∧ (v.member "Passwd").Scalar) := by
  unfold viewMap
  split
  · rename_i htype
    by_cases hreg : type = MsgType.register.toInt
    · rw [if_pos hreg, RegisterView.Process_answered j fl h s clientFd hv, hreg]
      simp [MsgType.toInt]
    · rw [if_neg hreg]
      refine iff_of_false (not_answered_crash j h s clientFd .nullView) ?_
      rintro ⟨hlogin, hexit, _⟩
      exact (htype.resolve_left hreg).elim hlogin hexit
  · rename_i htype
    obtain ⟨hreg, hlogin, hexit⟩ := not_or.mp htype |>.imp_right not_or.mp
    rw [respond_answered]
    exact iff_of_true hv ⟨hlogin, hexit, fun h => absurd h hreg⟩

theorem answered_iff (msg : Bytes) (clientFd : Int) :
    Answered j h s clientFd (Process j fl msg clientFd) ↔ Answerable j msg := by
  unfold Process Answerable
  generalize j.parse (cStr msg) = parsed
  obtain ⟨ok, root⟩ := parsed
  cases ok with
  | false => exact respond_answered j h s clientFd root _
  | true =>
    dsimp only
    by_cases hroot : root.Keyed
    swap
    · unfold readType
      rw [Json.get_of_not_keyed hroot]
      exact iff_of_false (not_answered_crash j h s clientFd .exception) fun hok => hroot hok.1
    obtain ⟨root', hget, hroot', hsame⟩ := Json.get_of_keyed hroot "TYPE"
    cases htype : (root.member "TYPE").asInt j with
    | error crash =>
      have hread : readType j root = .error crash := by
        simp [readType, hget, htype, bind, Except.bind]
      rw [hread]
      refine iff_of_false (not_answered_crash j h s clientFd crash) ?_
      rintro ⟨_, type, hok, _⟩
      cases hok
    | ok type =>
      have hread : readType j root = .ok (type, root') := by
        simp [readType, hget, htype, bind, Except.bind, pure, Except.pure]
      rw [hread]
      simp only [hroot, true_and, Except.ok.injEq, exists_eq_left']
      rw [← hsame, ← hsame]
      exact dispatch_answered j fl h s clientFd hroot' type

/-- The message `{"TYPE":1}`, as jsoncpp reads it. -/
def loginMsg : Bytes := ascii "\x7b\"TYPE\":1\x7d"

def loginJson : Jsoncpp Empty where
  parse text := if text = loginMsg then (true, .obj [(ascii "TYPE", .int 1)]) else (false, .null)
  toStyledString _ := []
  realInt x := x.elim
  realText x := x.elim

/-- `LOGIN` is dispatched, but there is no view for it. -/
theorem login_not_answered :
    ¬ Answered loginJson (Machine.exec .bare 0) (Server.start .short []) 4 (Process loginJson .short loginMsg 4) := by
  have hparse : loginJson.parse (cStr loginMsg) = (true, .obj [(ascii "TYPE", .int 1)]) := by
    unfold loginJson
    dsimp only
    rw [cStr_eq_self (by decide), if_pos rfl]
  have hcrash : Process loginJson .short loginMsg 4 = .pure (.error .nullView) := by
    unfold Process
    rw [hparse]
    rfl
  rw [hcrash]
  exact not_answered_crash _ _ _ _ _

end Control

end NetDisk
