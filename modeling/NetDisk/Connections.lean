import NetDisk.Code.Startup
import NetDisk.Register

/-!
# The connections to MySQL

Nothing that starts the server looks at whether a connection was made.
-/

namespace NetDisk

open Prog

def Connect.ok (outcome : Connect) : Prop := outcome.realConnect = true ∧ outcome.selectDb = true

namespace Mmysql

variable {κ : Type} {outcome : Connect} {sqlConn : κ}

theorem fetchConnection_ne_none_iff : fetchConnection outcome sqlConn ≠ none ↔ outcome.ok := by
  unfold fetchConnection Connect.ok
  cases outcome.realConnect <;> cases outcome.selectDb <;> simp

/-- A call of a method of `Mmysql` that uses the connection. -/
inductive Use where
  | runQuery (cmd : Bytes)
  | fetchRes
  | close
deriving DecidableEq

/-- What an operation of the server uses the connection for. -/
def use : Sys → Option Use
  | .query cmd => some (.runQuery cmd)
  | .fetch => some .fetchRes
  | _ => none

/-- The uses of a connection in a run of operations, each with the pointer. -/
def uses (sqlConn : Option κ) (ops : List Sys) : List (Use × Option κ) :=
  (ops.filterMap use).map fun u => (u, sqlConn)

theorem mem_uses {sqlConn : Option κ} {ops : List Sys} {u : Use × Option κ} (h : u ∈ uses sqlConn ops) :
    u.2 = sqlConn := by
  obtain ⟨_, _, rfl⟩ := List.mem_map.mp h
  rfl

end Mmysql

theorem runUntilAskedToQuit_eq {k : Nat} (outcomes : Connection k → Connect) :
    runUntilAskedToQuit outcomes =
      some ⟨fun i => Mmysql.Init (outcomes (.worker i)) (.worker i),
        NetDiskServiceImpl.new (outcomes .service) .service⟩ := by
  have hnew : ∀ i : Fin k, Mpthread.new (outcomes (.worker i)) (Connection.worker i) =
      some (Mmysql.Init (outcomes (.worker i)) (.worker i)) := fun i => rfl
  have hworkers : createMpthread outcomes = some fun i => Mmysql.Init (outcomes (.worker i)) (.worker i) := by
    unfold createMpthread
    rw [dif_pos fun i => by rw [hnew i]; rfl]
    rfl
  rw [runUntilAskedToQuit, hworkers]
  rfl

/-! ## Requests -/

/-- A request to one of the workers, or to the service. -/
inductive ServerRequest (ρ : Type) (k : Nat) where
  | register (i : Fin k) (reqVal : Json ρ) (clientFd : Int)
  | upload (request : NetDiskRequest)

namespace Servers

open Mmysql

variable {ρ σ : Type} {k : Nat} (j : Jsoncpp ρ) (fl : Flags) (srv : Servers k)
variable (h : Connection k → Handler Sys Sys.Res σ)

/-- What a request uses of MySQL, and the state after it. -/
def handleRequest (s : σ) : ServerRequest ρ k → List (Use × Option (Connection k)) × σ
  | .register i reqVal clientFd =>
    let code := RegisterView.Process j fl reqVal clientFd
    (uses (srv.worker i).sqlConn (code.trace (h (.worker i)) s), (code.run (h (.worker i)) s).2)
  | .upload request =>
    let code := NetDiskServiceImpl.Send fl request .empty
    (uses srv.service.upload.sqlConn (code.trace (h .service) s), (code.run (h .service) s).2)

/-- What a sequence of requests uses of MySQL, and then the destructor of the service. -/
def allUses : List (ServerRequest ρ k) → σ → List (Use × Option (Connection k))
  | [], _ => [(.close, srv.service.sql.sqlConn)]
  | r :: rs, s => (srv.handleRequest j fl h s r).1 ++ allUses rs (srv.handleRequest j fl h s r).2

/-- No pointer of the servers is null. -/
def AllConnected : Prop :=
  (∀ i, (srv.worker i).sqlConn ≠ none) ∧ srv.service.sql.sqlConn ≠ none ∧ srv.service.upload.sqlConn ≠ none

variable {srv}

theorem AllConnected.handleRequest (hconn : srv.AllConnected) (s : σ) (r : ServerRequest ρ k) :
    ∀ u ∈ (srv.handleRequest j fl h s r).1, u.2 ≠ none := by
  intro u hu
  cases r with
  | register i reqVal clientFd =>
    rw [mem_uses hu]
    exact hconn.1 i
  | upload request =>
    rw [mem_uses hu]
    exact hconn.2.2

theorem AllConnected.allUses (hconn : srv.AllConnected) (rs : List (ServerRequest ρ k)) (s : σ) :
    ∀ u ∈ srv.allUses j fl h rs s, u.2 ≠ none := by
  induction rs generalizing s with
  | nil =>
    intro u hu
    rw [List.mem_singleton.mp hu]
    exact hconn.2.1
  | cons r rs ih =>
    intro u hu
    rcases List.mem_append.mp hu with hu | hu
    · exact hconn.handleRequest j fl h s r u hu
    · exact ih _ u hu

theorem register_uses (i : Fin k) (s : σ) : (.runQuery (RegisterView.usrNotExistCmd []), (srv.worker i).sqlConn) ∈
    srv.allUses j fl h [.register i .null 0] s := List.mem_append_left _ List.mem_cons_self

end Servers

open Mmysql Servers

/-- Whatever the operations reply, no use of MySQL is through a null pointer, exactly when all connections were made. -/
theorem connected_iff {ρ σ : Type} {k : Nat} (j : Jsoncpp ρ) (fl : Flags) (outcomes : Connection k → Connect)
    (h : Connection k → Handler Sys Sys.Res σ) (s : σ) :
    (∀ srv, runUntilAskedToQuit outcomes = some srv → ∀ rs, ∀ u ∈ srv.allUses j fl h rs s, u.2 ≠ none) ↔
      ∀ c, (outcomes c).ok := by
  constructor
  · intro hall c
    have huses := hall _ (runUntilAskedToQuit_eq outcomes)
    cases c with
    | worker i => exact fetchConnection_ne_none_iff.mp (huses _ _ (register_uses j fl h i s))
    -- Without any request there is still the destructor.
    | service => exact fetchConnection_ne_none_iff.mp (huses [] _ (List.mem_singleton.mpr rfl))
  · intro hok srv hsrv
    rw [runUntilAskedToQuit_eq] at hsrv
    rw [← Option.some.inj hsrv]
    refine fun rs => AllConnected.allUses j fl h ⟨fun i => ?_, ?_, ?_⟩ rs s
    · exact fetchConnection_ne_none_iff.mpr (hok (.worker i))
    · exact fetchConnection_ne_none_iff.mpr (hok .service)
    · exact fetchConnection_ne_none_iff.mpr (hok .service)

/-! ### A connection that is refused -/

namespace NoMysql

/-- One worker, which MySQL refuses, and the service. -/
def outcomes : Connection 1 → Connect
  | .worker _ => ⟨false, true⟩
  | .service => ⟨true, true⟩

def bob : Json Empty := .obj [(ascii "Name", .str (ascii "bob")), (ascii "Passwd", .str (ascii "pw"))]

end NoMysql

/-- The server starts, and the first registration runs its query on a null pointer. -/
theorem query_on_null : ∃ srv, runUntilAskedToQuit NoMysql.outcomes = some srv ∧
    (.runQuery (ascii "SELECT uid FROM Usr where name = 'bob';"), none) ∈
      srv.allUses RegisterView.Lost.jsoncpp .short (fun _ => Machine.exec .bare 0) [.register 0 NoMysql.bob 4]
        (Server.start .short []) :=
  ⟨_, runUntilAskedToQuit_eq NoMysql.outcomes, List.mem_append_left _ List.mem_cons_self⟩

end NetDisk
