import NetDisk.Services.Threads

/-!
# What both services keep

The server runs its calls, ends at any point of them and is started again with others, any number of times. What holds
at any point, and from any point to a later one, however the operations are interleaved and whatever goes wrong with
them.
-/

namespace NetDisk.Services

open Machine UploadRpc RegisterView Registered Server Prog

/-- Nothing has been uploaded, nothing is open, and who has a directory has a row. -/
structure Fresh (fl : Flags) (w : World) : Prop where
  dirs : EmptyDirs fl w.fs
  closed : ∀ fd, w.fds fd = none
  row : ∀ u, w.fs.node (fl.usrRoot ++ [u]) ≠ none → HasRow w.db u

theorem Fresh.inv {fl : Flags} {w : World} (h : Fresh fl w) (known : NetDiskRequest → Prop) (works : Prop) :
    Inv fl known works w := by
  have hshort : ∀ {q : Path} {n}, w.fs.node (fl.usrRoot ++ q) = some n → q.length ≤ 1 :=
    fun hq => (h.dirs.users _ _ hq).2
  refine ⟨⟨h.dirs.shape, fun fd f p hf => ?_, fun fd f p hf => ?_, fun u s i c hc => ?_, fun s i c hc => ?_⟩, h.row,
    fun _ u s hl => ?_⟩
  · cases (h.closed fd).symm.trans hf
  · cases (h.closed fd).symm.trans hf
  · exact absurd (hshort hc) (by simp)
  · have hc' : w.fs.node (fl.filesRoot ++ [s, toString i]) = some (.file c) := hc
    exact absurd (h.dirs.no_files [s, toString i] (by simp [hc'])) (by simp)
  · obtain ⟨n, hn⟩ := Option.ne_none_iff_exists'.mp hl
    exact absurd (hshort hn) (by simp)

/-! ## One life after another -/

theorem Inv.restarted {fl : Flags} {known known' : NetDiskRequest → Prop} {works works' : Prop} {w : World}
    (h : Inv fl known works w) (hknown : ∀ r, known r → known' r) (hworks : works' → works) :
    Inv fl known' works' (restarted w) := by
  refine ⟨⟨h.sound.shape, fun fd f p hf => ?_, fun fd f p hf => ?_, fun u s i c hc b hb => ?_, fun s i c hc b hb => ?_⟩,
    h.row, fun hw => h.linked (hworks hw)⟩
  · cases hf
  · cases hf
  · obtain ⟨r, hr, hrest⟩ := h.sound.tmp u s i c hc b hb
    exact ⟨r, hknown r hr, hrest⟩
  · obtain ⟨r, hr, hrest⟩ := h.sound.stored s i c hc b hb
    exact ⟨r, hknown r hr, hrest⟩

/-- The life of the server that runs, those before it, and what it has come to. -/
structure Lives (ρ ι : Type) where
  life : Setup ρ ι
  earlier : List (Setup ρ ι)
  pool : Pool Faulty ι Sys Sys.Res Reply

namespace Lives

variable {ρ ι : Type}

def world (s : Lives ρ ι) : World := s.pool.hist.state.world

def first (S : Setup ρ ι) (s : Faulty) : Lives ρ ι := ⟨S, [], S.start s⟩

/-- It has been sent in this life or an earlier one. -/
def Sent (s : Lives ρ ι) (r : NetDiskRequest) : Prop := ∃ S ∈ s.life :: s.earlier, S.Sent r

def MovesWork (s : Lives ρ ι) : Prop := ∀ S ∈ s.life :: s.earlier, S.MovesWork

def era (s : Lives ρ ι) : Era ρ ι where
  toSetup := s.life
  known := s.Sent
  works := s.MovesWork
  sent_known _ hr := ⟨s.life, List.mem_cons_self, hr⟩
  works_moves hworks := hworks _ List.mem_cons_self

/-- What holds whenever the server runs with these directories. -/
structure Good (fl : Flags) (s : Lives ρ ι) : Prop where
  fl_eq : s.life.fl = fl
  inv : s.era.proto.inv s.pool.hist
  sat : ∀ i, s.era.proto.Sat i (s.era.Ends i) (s.pool.thread i) s.pool.hist

variable {fl : Flags} {s t : Lives ρ ι}

theorem Good.inv_world (h : Good fl s) : Inv fl s.Sent s.MovesWork s.world := by
  have hinv : Inv s.life.fl s.Sent s.MovesWork s.world := h.inv
  rwa [h.fl_eq] at hinv

theorem Good.first {S : Setup ρ ι} {f : Faulty} (hf : Fresh S.fl f.world) : Good S.fl (first S f) :=
  ⟨rfl, hf.inv _ _, fun _ => Era.code_sat (hf.inv _ _)⟩

variable [DecidableEq ι]

/-- Nothing is left of the calls when the server ends, be it in the middle of them. -/
inductive Step (s : Lives ρ ι) : Lives ρ ι → Prop
  | run {d : Pool Faulty ι Sys Sys.Res Reply} (h : Pool.Runs s.life.sched s.pool d) : Step s { s with pool := d }
  | restart (next : Setup ρ ι) (hfl : next.fl = s.life.fl) (faults : Nat → Option Fault) :
      Step s ⟨next, s.life :: s.earlier, next.start ⟨restarted s.world, faults⟩⟩

def Reaches : Lives ρ ι → Lives ρ ι → Prop := Relation.ReflTransGen Step

theorem Good.step (h : Good fl s) (hstep : Step s t) : Good fl t := by
  cases hstep with
  | run hrun =>
    obtain ⟨hinv, hsat⟩ := s.era.proto.runs hrun h.inv h.sat
    exact ⟨h.fl_eq, hinv, hsat⟩
  | restart next hfl faults =>
    have hknown : ∀ r, s.Sent r → ∃ S ∈ next :: s.life :: s.earlier, S.Sent r :=
      fun r ⟨S, hS, hr⟩ => ⟨S, List.mem_cons_of_mem _ hS, hr⟩
    have hinv : Inv next.fl (fun r => ∃ S ∈ next :: s.life :: s.earlier, S.Sent r)
        (∀ S ∈ next :: s.life :: s.earlier, S.MovesWork) (restarted s.world) := by
      rw [hfl, h.fl_eq]
      exact h.inv_world.restarted hknown fun hworks S hS => hworks S (List.mem_cons_of_mem _ hS)
    exact ⟨hfl.trans h.fl_eq, hinv, fun _ => Era.code_sat hinv⟩

theorem Good.reaches (h : Good fl s) (hr : Reaches s t) : Good fl t := by
  induction hr with
  | refl => exact h
  | tail _ hstep ih => exact ih.step hstep

theorem Good.stays (h : Good fl s) (hstep : Step s t) :
    s.world.db.usr <+: t.world.db.usr ∧ Stays fl s.world.fs t.world.fs := by
  cases hstep with
  | restart => exact ⟨List.prefix_rfl, .refl _ _⟩
  | run hrun =>
    rw [← h.fl_eq]
    refine s.era.proto.relates (R := fun x y => x.state.world.db.usr <+: y.state.world.db.usr ∧
      Stays s.life.fl x.state.world.fs y.state.world.fs) (fun x => ⟨List.prefix_rfl, .refl _ _⟩)
      (fun x y z h h' => ⟨h.1.trans h'.1, h.2.trans h'.2⟩) (fun x i op hinv _ _ hop => ?_) hrun h.inv h.sat
    obtain ⟨a, hclean, -, hasks⟩ := Era.Promise.asks hop
    refine ⟨hasks.usr (s.life.tid i) s.life.sql hclean s.life.can, ?_⟩
    exact (hasks.effect (s.life.tid i) s.life.can hinv.sound.shape hclean).stays hinv.sound.shape

/-! ## What is so at any point -/

section
variable {S : Setup ρ ι} {f : Faulty} (hf : Fresh S.fl f.world) (hreach : Reaches (first S f) s)
include hf hreach

/-- Who has a directory has a row, and so has everyone who is told that an upload has succeeded. -/
theorem users_registered : (∀ u, s.world.fs.node (S.fl.usrRoot ++ [u]) ≠ none → HasRow s.world.db u) ∧
    ∀ i r response, s.life.calls i = .send r → s.pool.thread i = .pure (.response response) →
      response.res = some true → HasRow s.world.db r.usr := by
  have hgood := (Good.first hf).reaches hreach
  refine ⟨hgood.inv_world.row, fun i r response hcall hend hres => hgood.inv_world.row r.usr ?_⟩
  have hi := hgood.sat i
  rw [hend] at hi
  have hhome : s.world.fs.node (s.life.fl.usrRoot ++ [r.usr]) = some .dir := hi s.pool.hist .refl hgood.inv r hcall hres
  rw [hgood.fl_eq] at hhome
  exact fun hnone => by cases hnone.symm.trans hhome

/-- Below the two directories only what belongs there comes to be. -/
theorem layout_kept : Shape S.fl s.world.fs := ((Good.first hf).reaches hreach).inv_world.sound.shape

/-- Each byte of a part has been sent in a request for this part of this file, and before it is stored, by this user. -/
theorem bytes_sent : (∀ u sign (i : Nat) c, s.world.fs.node (S.fl.usrRoot ++ [u, TMP, sign, toString i]) = some (.file c) →
      ∀ b ∈ c, ∃ r, s.Sent r ∧ r.usr = u ∧ r.fileSign = sign ∧ r.partIndex.toNat = i ∧ b ∈ r.body) ∧
    ∀ sign (i : Nat) c, s.world.fs.node (S.fl.filesRoot ++ [sign, toString i]) = some (.file c) →
      ∀ b ∈ c, ∃ r, s.Sent r ∧ r.fileSign = sign ∧ r.partIndex.toNat = i ∧ b ∈ r.body := by
  have hsound := ((Good.first hf).reaches hreach).inv_world.sound
  exact ⟨hsound.tmp, hsound.stored⟩

/-- As long as no `mv` goes wrong, each link leads to a stored file. -/
theorem links_stored (hworks : s.MovesWork) (u sign : Name) :
    s.world.fs.node (S.fl.usrRoot ++ [u, FILES, sign]) ≠ none →
      s.world.fs.node (S.fl.usrRoot ++ [u, FILES, sign]) = some (.link (S.fl.filesDir ++ sign)) ∧
      s.world.fs.node (S.fl.filesRoot ++ [sign]) = some .dir := by
  intro hl
  have hinv := ((Good.first hf).reaches hreach).inv_world
  obtain ⟨n, hn⟩ := Option.ne_none_iff_exists'.mp hl
  rw [hn, (hinv.sound.shape.usr_entry _ _ hn).1 rfl]
  exact ⟨rfl, hinv.linked hworks u sign hl⟩

/-- From any point to any later one. -/
theorem all_stays (hlater : Reaches s t) :
    s.world.db.usr <+: t.world.db.usr ∧ Stays S.fl s.world.fs t.world.fs := by
  have hgood := (Good.first hf).reaches hreach
  induction hlater with
  | refl => exact ⟨List.prefix_rfl, .refl _ _⟩
  | tail hr hstep ih =>
    have hnext := (hgood.reaches hr).stays hstep
    exact ⟨ih.1.trans hnext.1, ih.2.trans hnext.2⟩

end

end Lives

/-! ### Bob registers and uploads, and the server is started again -/

namespace Bob

def message : Bytes := ascii "\x7b\"TYPE\":0,\"Name\":\"bob\",\"Passwd\":\"pw\"\x7d"

def json : Json Empty :=
  .obj [(ascii "TYPE", .int 0), (ascii "Name", .str (ascii "bob")), (ascii "Passwd", .str (ascii "pw"))]

def jsoncpp : Jsoncpp Empty :=
  { Lost.jsoncpp with parse := fun text => if text = message then (true, json) else (false, .null) }

/-- A file of one part. -/
def request : NetDiskRequest :=
  ⟨5, 1, 0, Md5.hexDigest (ascii "a"), ascii "a.txt", Md5.hexDigest (ascii "a"), ascii "bob", ascii "a"⟩

def calls (registers : Bool) : Call := if registers = true then .control message 4 else .send request

theorem registers_eq {usr passwd : Bytes} (h : Registers jsoncpp message usr passwd) :
    usr = ascii "bob" ∧ passwd = ascii "pw" := by
  obtain ⟨jsonVal, reqVal, hparse, htype, hread⟩ := h
  have hjson : jsoncpp.parse (cStr message) = (true, json) := by
    rw [cStr_eq_self (by decide)]
    unfold jsoncpp
    dsimp only
    rw [if_pos rfl]
  cases hjson.symm.trans hparse
  have hreq : Control.readType jsoncpp json = .ok (0, json) := rfl
  cases hreq.symm.trans htype
  have hnames : readRequest jsoncpp json = .ok (ascii "bob", ascii "pw") := rfl
  cases hnames.symm.trans hread
  exact ⟨rfl, rfl⟩

theorem clean (registers : Bool) : (calls registers).Clean jsoncpp := by
  cases registers with
  | true =>
    intro usr passwd h
    obtain ⟨rfl, rfl⟩ := registers_eq h
    exact ⟨by decide, by decide, by decide⟩
  | false => exact fun _ => ⟨by decide +kernel, by decide +kernel⟩

/-- Each thread has a connection of its own, and nothing goes wrong. -/
def setup : Setup Empty Bool where
  j := jsoncpp
  fl := .short
  env := .bare
  can _ := false
  tid registers := if registers = true then 1 else 0
  calls := calls
  clean := clean
  sql _ _ _ _ h := absurd h (by simp [Env.bare])

def state : Faulty := ⟨Server.start .short [], fun _ => none⟩

theorem fresh : Fresh setup.fl state.world where
  dirs := EmptyDirs.start _ _
  closed _ := rfl
  row u h := absurd (EmptyDirs.start_no_user _ u) h

/-- The upload waits until there is a directory, and has just written its part at the end. -/
def before : List Bool := List.replicate 4 true ++ List.replicate 9 false

/-- The same upload once more. -/
def after : List Bool := List.replicate 19 false

def any (_ : Hist Faulty Bool Sys) (_ : Bool) (_ : Sys) : Bool := true

def result : Reply → Option Bool
  | .response response => response.res
  | .processed _ => none

theorem runs : ∃ d e, Lives.Reaches (.first setup state) d ∧ Lives.Reaches d e ∧
    d.world.fs.node (Flags.short.usrRoot ++ [request.usr, TMP, request.fileSign, toString 0]) = some (.file (ascii "a")) ∧
    e.world.fs.node (Flags.short.usrRoot ++ [request.usr, FILES, request.fileSign]) ≠ none ∧
    e.life = setup ∧ e.earlier = [setup] ∧
    ∃ response, e.pool.thread false = .pure (.response response) ∧ response.res = some true := by
  have hplay : ((Pool.play setup.sched any before (setup.start state)).bind fun d =>
      (Pool.play setup.sched any after (setup.start ⟨restarted d.hist.state.world, fun _ => none⟩)).map fun e =>
        (d.hist.state.world.fs.node (Flags.short.usrRoot ++ [request.usr, TMP, request.fileSign, toString 0]),
          (e.hist.state.world.fs.node (Flags.short.usrRoot ++ [request.usr, FILES, request.fileSign])).isSome,
          (e.thread false).value.bind result)) = some (some (.file (ascii "a")), true, some true) := by
    decide +kernel
  obtain ⟨d, hd, hrest⟩ := Option.bind_eq_some_iff.mp hplay
  obtain ⟨e, he, hvals⟩ := Option.map_eq_some_iff.mp hrest
  obtain ⟨hpart, hvals⟩ := Prod.mk.inj hvals
  obtain ⟨hlink, hres⟩ := Prod.mk.inj hvals
  obtain ⟨reply, hreply, hres⟩ := Option.bind_eq_some_iff.mp hres
  have hfirst : Lives.Step (.first setup state) ⟨setup, [], d⟩ :=
    .run (Pool.play_runs (fun _ _ _ _ => trivial) .start hd)
  have hagain : Lives.Step ⟨setup, [], d⟩ ⟨setup, [setup], _⟩ := .restart setup rfl fun _ => none
  have hsecond : Lives.Step ⟨setup, [setup], _⟩ ⟨setup, [setup], e⟩ :=
    .run (Pool.play_runs (fun _ _ _ _ => trivial) .start he)
  refine ⟨_, _, .single hfirst, (Relation.ReflTransGen.single hagain).tail hsecond, hpart, Option.isSome_iff_ne_none.mp hlink,
    rfl, rfl, ?_⟩
  cases reply with
  | response response => exact ⟨response, eq_pure_of_value hreply, hres⟩
  | processed out => cases hres

end Bob

namespace Lives

theorem users_registered_bob : ∃ e, Reaches (.first Bob.setup Bob.state) e ∧ HasRow e.world.db (ascii "bob") := by
  obtain ⟨d, e, hd, he, -, -, hlife, -, response, hend, hres⟩ := Bob.runs
  exact ⟨e, hd.trans he, (users_registered Bob.fresh (hd.trans he)).2 false Bob.request response (by rw [hlife]; rfl) hend hres⟩

theorem layout_kept_bob : ∃ e, Reaches (.first Bob.setup Bob.state) e ∧ Shape .short e.world.fs := by
  obtain ⟨d, e, hd, he, -⟩ := Bob.runs
  exact ⟨e, hd.trans he, layout_kept Bob.fresh (hd.trans he)⟩

theorem bytes_sent_bob :
    ∃ d r, Reaches (.first Bob.setup Bob.state) d ∧ d.Sent r ∧ r.usr = ascii "bob" ∧ ch 'a' ∈ r.body := by
  obtain ⟨d, -, hd, -, hpart, -⟩ := Bob.runs
  obtain ⟨r, hsent, husr, -, -, hmem⟩ := (bytes_sent Bob.fresh hd).1 _ _ 0 _ hpart (ch 'a') (by decide)
  exact ⟨d, r, hd, hsent, husr, hmem⟩

theorem links_stored_bob : ∃ e, Reaches (.first Bob.setup Bob.state) e ∧
    e.world.fs.node (Flags.short.filesRoot ++ [Bob.request.fileSign]) = some .dir := by
  obtain ⟨d, e, hd, he, -, hlink, hlife, hearlier, -⟩ := Bob.runs
  have hworks : e.MovesWork := by
    unfold MovesWork
    rw [hlife, hearlier]
    exact List.forall_mem_cons.mpr ⟨fun _ => rfl, List.forall_mem_cons.mpr ⟨fun _ => rfl, fun _ h => absurd h List.not_mem_nil⟩⟩
  exact ⟨e, hd.trans he, (links_stored Bob.fresh (hd.trans he) hworks _ _ hlink).2⟩

theorem all_stays_bob :
    ∃ d e, Reaches (.first Bob.setup Bob.state) d ∧ Reaches d e ∧ Stays .short d.world.fs e.world.fs := by
  obtain ⟨d, e, hd, he, -⟩ := Bob.runs
  exact ⟨d, e, hd, he, (all_stays Bob.fresh hd he).2⟩

end Lives

end NetDisk.Services
