import NetDisk.Code.LongConnection

/-!
# The start of the server

The connections to MySQL, from `Mmysql` up to the two servers: `mmsql.cpp`, `view.cpp`,
`control.cpp`, `mpthread.cpp`, `short_connection.cpp` and `long_connection.cpp`. `LOG(FATAL)` ends the
process.
-/

namespace NetDisk

/-- Whether `mysql_real_connect` and `mysql_select_db` succeed. -/
structure Connect where
  realConnect : Bool
  selectDb : Bool
deriving DecidableEq

/-- `κ` is the type of the connections, and a null pointer is `none`. -/
structure Mmysql (κ : Type) where
  sqlConn : Option κ

namespace Mmysql

variable {κ : Type} (outcome : Connect) (sqlConn : κ)

/-- `sqlConn` is what `mysql_init` makes. -/
def fetchConnection : Option κ :=
  if outcome.realConnect = false then none
  else if outcome.selectDb = false then none
  else some sqlConn

def Init : Mmysql κ := ⟨fetchConnection outcome sqlConn⟩

end Mmysql

variable {κ : Type} (outcome : Connect) (sqlConn : κ)

/-- The return code, and `_sql`. -/
def View.Init : Int × Mmysql κ := (0, Mmysql.Init outcome sqlConn)

/-- The return code, and `_sql` of the only view. -/
def Control.Init : Option (Bool × Mmysql κ) :=
  let (rt, sql) := View.Init outcome sqlConn
  if rt ≠ 0 then none else some (true, sql)

/-- The constructor of `Mpthread`. -/
def Mpthread.new : Option (Mmysql κ) :=
  match Control.Init outcome sqlConn with
  | none => none
  | some (ok, sql) => if ok = false then none else some sql

/-- `_upload` has a copy of `_sql`. -/
structure NetDiskServiceImpl (κ : Type) where
  sql : Mmysql κ
  upload : Mmysql κ

/-- The constructor, which calls `UploadRpc::Init`. -/
def NetDiskServiceImpl.new : NetDiskServiceImpl κ :=
  let sql := Mmysql.Init outcome sqlConn
  ⟨sql, sql⟩

/-! ## Both servers -/

/-- The connections that are opened at the start. -/
inductive Connection (k : Nat) where
  | worker (i : Fin k)
  | service
deriving DecidableEq

structure Servers (k : Nat) where
  worker : Fin k → Mmysql (Connection k)
  service : NetDiskServiceImpl (Connection k)

variable {k : Nat} (outcomes : Connection k → Connect)

def createMpthread : Option (Fin k → Mmysql (Connection k)) :=
  if h : ∀ i, (Mpthread.new (outcomes (.worker i)) (Connection.worker i)).isSome = true then
    some fun i => (Mpthread.new (outcomes (.worker i)) (Connection.worker i)).get (h i)
  else
    none

def runUntilAskedToQuit : Option (Servers k) :=
  (createMpthread outcomes).map fun worker => ⟨worker, NetDiskServiceImpl.new (outcomes .service) .service⟩

end NetDisk
