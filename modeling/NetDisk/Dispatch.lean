import NetDisk.Answer
import NetDisk.Code.ShortMsg

/-!
# Which view a request of the client reaches

The client writes the type into the member `Type`, and `Control::Process` reads the member `TYPE`.
-/

namespace NetDisk

open ClientMain (reqJson)

variable {ρ : Type} (j : Jsoncpp ρ) (fl : Flags)

namespace Control

/-- A request of type `t` reaches the view of `t`; where there is none, the only thing that happens
is an error response. No request of another type adds a user. -/
structure Dispatches (t : Int) (req : Json ρ) (msg : Bytes) (clientFd : Int) : Prop where
  view : ∀ view, viewMap t = some view → ∃ v, (∀ key, v.member key = req.member key) ∧
    Process j fl msg clientFd = RegisterView.Process j fl v clientFd
  no_view : viewMap t = none → ∃ v text, v.Keyed ∧ Process j fl msg clientFd = respond j clientFd v text
  usr_kept : t ≠ MsgType.register.toInt → ∀ env tid w,
    ((Process j fl msg clientFd).run (Machine.exec env tid) w).2.db.usr = w.db.usr

theorem reqJson_members (t : Int) (usr passwd : Bytes) : (reqJson t usr passwd : Except Crash (Json ρ)) = .ok (.obj
    [(ascii "Type", .int t), (ascii "Name", .str (cStr usr)), (ascii "Passwd", .str (cStr passwd))]) := by
  have h1 : ascii "Type" ≠ ascii "Name" := by decide
  have h2 : ascii "Type" ≠ ascii "Passwd" := by decide
  have h3 : ascii "Name" ≠ ascii "Passwd" := by decide
  simp [reqJson, Json.set, Json.members, Json.insert, bind, Except.bind, pure, Except.pure, h1, h2, h3]

section
variable {t : Int} {usr passwd msg : Bytes} {req : Json ρ} (hreq : reqJson t usr passwd = .ok req)
include hreq

theorem req_members : req.Keyed ∧ req.member "TYPE" = .null ∧ (req.member "Name").Scalar ∧
    (req.member "Passwd").Scalar := by
  rw [reqJson_members] at hreq
  obtain rfl := Except.ok.inj hreq
  have h1 : ascii "Type" ≠ ascii "TYPE" := by decide
  have h2 : ascii "Name" ≠ ascii "TYPE" := by decide
  have h3 : ascii "Passwd" ≠ ascii "TYPE" := by decide
  have h4 : ascii "Type" ≠ ascii "Name" := by decide
  have h5 : ascii "Type" ≠ ascii "Passwd" := by decide
  have h6 : ascii "Name" ≠ ascii "Passwd" := by decide
  simp [Json.Keyed, Json.member, Json.lookup, Json.Scalar, h1, h2, h3, h4, h5, h6]

/-- A missing `TYPE` is null, and so 0: whatever the request's `Type` is, `RegisterView` runs. -/
theorem Process_req (hparse : j.parse (cStr msg) = (true, req)) (clientFd : Int) : ∃ v, v.Keyed ∧
    (∀ key, v.member key = req.member key) ∧ Process j fl msg clientFd = RegisterView.Process j fl v clientFd := by
  obtain ⟨hkeyed, htype, _⟩ := req_members hreq
  obtain ⟨v, hget, hv, hsame⟩ := Json.get_of_keyed hkeyed "TYPE"
  have hread : readType j req = .ok (MsgType.register.toInt, v) := by
    simp [readType, hget, htype, Json.asInt, MsgType.toInt, bind, Except.bind, pure, Except.pure]
  refine ⟨v, hv, hsame, ?_⟩
  unfold Process
  rw [hparse]
  dsimp only
  rw [hread]
  dsimp only
  rw [if_pos (Or.inl rfl)]
  rfl

end

theorem register_ne_respond {v v' : Json ρ} {p : Bytes × Bytes} (h : RegisterView.readRequest j v = .ok p)
    (clientFd : Int) (text : Bytes) : RegisterView.Process j fl v clientFd ≠ respond j clientFd v' text := by
  have hfirst : ∃ next, RegisterView.Process j fl v clientFd = .call (.query (RegisterView.usrNotExistCmd p.1)) next := by
    unfold RegisterView.Process
    rw [h]
    exact ⟨_, rfl⟩
  obtain ⟨next, hnext⟩ := hfirst
  rw [hnext]
  unfold respond
  cases v'.set "Response" (.str text) with
  | error crash => exact fun hne => by cases hne
  | ok val => exact fun hne => by cases hne

/-- A request of the client is dispatched by its type exactly when that is 0, the type of `REGISTER`. -/
theorem dispatches_iff (t : Int) {usr passwd msg : Bytes} {req : Json ρ} (hreq : reqJson t usr passwd = .ok req)
    (hparse : j.parse (cStr msg) = (true, req)) (clientFd : Int) :
    Dispatches j fl t req msg clientFd ↔ t = MsgType.register.toInt := by
  obtain ⟨v, hkeyed, hsame, hproc⟩ := Process_req j fl hreq hparse clientFd
  constructor
  · intro h
    by_contra hne
    obtain ⟨v', text, _, hresp⟩ := h.no_view (if_neg hne)
    obtain ⟨_, _, hname, hpasswd⟩ := req_members hreq
    obtain ⟨p, hp⟩ := (RegisterView.readRequest_iff j hkeyed).mpr ⟨by rwa [hsame], by rwa [hsame]⟩
    exact register_ne_respond j fl hp clientFd text (hproc.symm.trans hresp)
  · rintro rfl
    refine ⟨fun view _ => ⟨v, hsame, hproc⟩, fun h => ?_, fun h => absurd rfl h⟩
    rw [viewMap, if_pos rfl] at h
    cases h

/-- What `toStyledString` writes for the user `bob` and the type 1. -/
def loginReq : Bytes :=
  ascii "\x7b\n\t\"Name\" : \"bob\",\n\t\"Passwd\" : \"pw\",\n\t\"Type\" : 1\n\x7d\n"

def loginReqJson : Json Empty :=
  .obj [(ascii "Type", .int 1), (ascii "Name", .str (ascii "bob")), (ascii "Passwd", .str (ascii "pw"))]

/-- jsoncpp, as far as this request goes. -/
def loginReader : Jsoncpp Empty where
  parse text := if text = loginReq then (true, loginReqJson) else (false, .null)
  toStyledString _ := loginReq
  realInt x := x.elim
  realText x := x.elim

theorem dispatches_login :
    Dispatches loginReader .short 1 loginReqJson loginReq 4 ↔ (1 : Int) = MsgType.register.toInt := by
  have hparse : loginReader.parse (cStr loginReq) = (true, loginReqJson) := by
    rw [cStr_eq_self (by decide +kernel)]
    unfold loginReader
    dsimp only
    rw [if_pos rfl]
  exact dispatches_iff loginReader .short 1 (reqJson_members 1 (ascii "bob") (ascii "pw")) hparse 4

/-- A login registers the user. -/
theorem login_adds_user : ¬ Dispatches loginReader .short 1 loginReqJson loginReq 4 := by
  intro h
  have husr := h.usr_kept (by decide) .bare 0 (Server.start .short [])
  exact absurd husr (by decide +kernel)

end Control

end NetDisk
