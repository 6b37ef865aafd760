import NetDisk.Lib.Pool
import NetDisk.Responses
import NetDisk.Services.Calls

/-!
# Both services at once

Any number of requests to either service, each in a thread of its own. The operations of different threads come in
any order, and any of them can fail. Where a crash ends the server, the other threads need not go on, but they may.
-/

namespace NetDisk.Services

open Machine UploadRpc RegisterView Registered Server Prog

inductive Call where
  | send (request : NetDiskRequest)
  | control (msg : Bytes) (clientFd : Int)

inductive Reply where
  | response (response : NetDiskResponse)
  | processed (out : Except Crash Unit)

def IsUpload (r : NetDiskRequest) : Prop := (r.opType.toNat : Int) = MsgType.upload.toInt

section
variable {ρ : Type} (j : Jsoncpp ρ) (fl : Flags)

def Call.code : Call → Code Reply
  | .send request => do
    let response ← NetDiskServiceImpl.Send fl request .empty
    return .response response
  | .control msg clientFd => do
    let out ← Control.Process j fl msg clientFd
    return .processed out

/-- The message asks for the registration of this user. -/
def Registers (msg usr passwd : Bytes) : Prop :=
  ∃ jsonVal reqVal, j.parse (cStr msg) = (true, jsonVal) ∧
    Control.readType j jsonVal = .ok (MsgType.register.toInt, reqVal) ∧ readRequest j reqVal = .ok (usr, passwd)

/-- Names are components of paths, and strings stand for themselves in a statement. -/
def Call.Clean : Call → Prop
  | .send r => IsUpload r → PlainNames r
  | .control msg _ => ∀ usr passwd, Registers j msg usr passwd →
      Single usr ∧ SqlText.litSafe usr = true ∧ SqlText.litSafe passwd = true

inductive Call.ActsAs : Call → Actor → Prop
  | upload {r : NetDiskRequest} (h : IsUpload r) : ActsAs (.send r) (.upload r)
  | register {msg usr passwd : Bytes} (clientFd : Int) (h : Registers j msg usr passwd) :
      ActsAs (.control msg clientFd) (.register usr)

end

/-- What is sent, and the machine that it comes to. Only the operations that `can` go wrong do; a thread uses the
connection to MySQL that `tid` gives it. -/
structure Load (ρ ι : Type) where
  j : Jsoncpp ρ
  fl : Flags
  env : Env
  can : Sys → Bool
  tid : ι → Nat
  calls : ι → Call

namespace Load

variable {ρ ι : Type} (S : Load ρ ι)

def sched : Sched Faulty ι Sys Sys.Res where
  handler i := faulty S.can S.env (S.tid i)
  ready op s := Machine.ready op s.world
  ok _ _ _ := True

/-- All calls at their start. -/
def start (s : Faulty) : Pool Faulty ι Sys Sys.Res Reply := ⟨⟨[], s⟩, fun i => (S.calls i).code S.j S.fl⟩

end Load

/-- Clean calls, and other statements that leave the users alone. -/
structure Setup (ρ ι : Type) extends Load ρ ι where
  clean : ∀ i, (calls i).Clean j
  sql : LeavesUsr env

namespace Setup

variable {ρ ι : Type} (S : Setup ρ ι)

def Sent (r : NetDiskRequest) : Prop := ∃ i, S.calls i = .send r

/-- No `mv` goes wrong, other than by what it finds. -/
def MovesWork : Prop := ∀ r, S.can (.shell (mvCmd S.fl r)) = false

end Setup

/-- What holds all along. The requests that are `known` can have left something; links can lead nowhere unless it
`works`. -/
structure Inv (fl : Flags) (known : NetDiskRequest → Prop) (works : Prop) (w : World) : Prop where
  sound : Sound fl known (filesOf w)
  row : ∀ u, w.fs.node (fl.usrRoot ++ [u]) ≠ none → HasRow w.db u
  linked : works → ∀ u s, w.fs.node (fl.usrRoot ++ [u, FILES, s]) ≠ none → w.fs.node (fl.filesRoot ++ [s]) = some .dir

/-- A setup, where there have been others. -/
structure Era (ρ ι : Type) extends Setup ρ ι where
  known : NetDiskRequest → Prop
  works : Prop
  sent_known : ∀ r, toSetup.Sent r → known r
  works_moves : works → toSetup.MovesWork

namespace Era

variable {ρ ι : Type} (S : Era ρ ι)

abbrev Inv (w : World) : Prop := Services.Inv S.fl S.known S.works w

def Promise (w : World) (i : ι) (op : Sys) : Prop :=
  Harmless op ∨ ∃ a, (S.calls i).ActsAs S.j a ∧ Asks S.env S.fl S.works w a op

variable {S}

theorem clean_of_actsAs {i : ι} {a : Actor} (h : (S.calls i).ActsAs S.j a) : a.Clean ∧ a.Sent S.known := by
  have hclean := S.clean i
  generalize hcall : S.calls i = call at h hclean
  cases h with
  | upload hup => exact ⟨hclean hup, S.sent_known _ ⟨i, hcall⟩⟩
  | register clientFd hreg => exact ⟨(hclean _ _ hreg).2.1, trivial⟩

theorem Promise.asks {w : World} {i : ι} {op : Sys} (h : S.Promise w i op) :
    ∃ a, a.Clean ∧ a.Sent S.known ∧ Asks S.env S.fl S.works w a op := by
  rcases h with h | ⟨a, ha, h⟩
  · exact ⟨.register [], rfl, trivial, .harmless h⟩
  · exact ⟨a, (clean_of_actsAs ha).1, (clean_of_actsAs ha).2, h⟩

/-- Each operation is one of the few ways in which the files change. -/
theorem Promise.effect {s : Faulty} {i : ι} {op : Sys} (h : S.Promise s.world i op) (hinv : S.Inv s.world) :
    ∃ a, a.Sent S.known ∧
    Effect S.fl (HasRow s.world.db) S.works (filesOf s.world) a (filesOf (faulty S.can S.env (S.tid i) op s).2.world) := by
  obtain ⟨a, hclean, hsent, hasks⟩ := h.asks
  exact ⟨a, hsent, hasks.effect _ _ hinv.sound.shape hclean⟩

theorem inv_step {s : Faulty} {i : ι} {op : Sys} (hinv : S.Inv s.world) (h : S.Promise s.world i op) :
    S.Inv (faulty S.can S.env (S.tid i) op s).2.world := by
  obtain ⟨a, hclean, hsent, hasks⟩ := h.asks
  have heffect := hasks.effect (S.tid i) S.can hinv.sound.shape hclean
  have husr := hasks.usr (S.tid i) S.sql hclean S.can
  refine ⟨heffect.sound hinv.sound hsent, fun u hu => ?_, fun hworks u s' hl => ?_⟩
  · have hrow : HasRow s.world.db u := by
      rcases heffect.new hu with hold | hnew
      · exact hinv.row u hold
      · exact hnew.of_user
    exact (husr.map UsrRow.name).subset hrow
  · refine (heffect.stays hinv.sound.shape).stored s' ?_
    rcases heffect.new hl with hold | hnew
    · exact hinv.linked hworks u s' hold
    · exact hnew.of_link hworks

variable (S)

def proto : Proto Faulty ι Sys Sys.Res where
  toSched := S.sched
  inv t := S.Inv t.state.world
  promise t i op := S.Promise t.state.world i op
  inv_after _ _ _ hinv _ _ hop := inv_step hinv hop

end Era

end NetDisk.Services
