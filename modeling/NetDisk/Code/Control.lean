import NetDisk.Code.FileSys

/-!
# `control.cpp` and `register_view.cpp`

jsoncpp is not part of the repository: `Jsoncpp` has what is used of it. An exception that nothing
catches, or a call through a null `View*`, ends the server.
-/

namespace NetDisk

inductive Crash where
  | exception
  | nullView
deriving DecidableEq

/-! ## `Json::Value` -/

/-- `ρ` is the type of the real numbers. -/
inductive Json (ρ : Type) where
  | null
  | int (n : Int)
  | real (x : ρ)
  | str (s : Bytes)
  | bool (b : Bool)
  | arr (elems : List (Json ρ))
  | obj (members : List (Bytes × Json ρ))

structure Jsoncpp (ρ : Type) where
  /-- `Reader::parse`: whether it succeeds, and the root that it leaves. -/
  parse : Bytes → Bool × Json ρ
  toStyledString : Json ρ → Bytes
  /-- `none` when the number is out of the range of `int`. -/
  realInt : ρ → Option Int
  realText : ρ → Bytes

namespace Json

variable {ρ : Type} (j : Jsoncpp ρ)

/-- The members that `operator[]` with a key works on. -/
def members : Json ρ → Except Crash (List (Bytes × Json ρ))
  | .null => .ok []
  | .obj m => .ok m
  | _ => .error .exception

def lookup (key : Bytes) : List (Bytes × Json ρ) → Option (Json ρ)
  | [] => none
  | (k, v) :: m => if k = key then some v else lookup key m

def insert (key : Bytes) (val : Json ρ) : List (Bytes × Json ρ) → List (Bytes × Json ρ)
  | [] => [(key, val)]
  | (k, v) :: m => if k = key then (k, val) :: m else (k, v) :: insert key val m

/-- `v[key]` that is read, and `v` after it: a missing member is made, and is null. -/
def get (v : Json ρ) (key : String) : Except Crash (Json ρ × Json ρ) := do
  let m ← v.members
  match lookup (ascii key) m with
  | some val => return (val, .obj m)
  | none => return (.null, .obj (insert (ascii key) .null m))

/-- `v[key] = val` -/
def set (v : Json ρ) (key : String) (val : Json ρ) : Except Crash (Json ρ) := do
  let m ← v.members
  return .obj (insert (ascii key) val m)

/-- The range of `int`. -/
def intMin : Int := -2147483648
def intMax : Int := 2147483647

def asInt : Json ρ → Except Crash Int
  | .null => .ok 0
  | .int n => if intMin ≤ n ∧ n ≤ intMax then .ok n else .error .exception
  | .real x => match j.realInt x with
    | some n => .ok n
    | none => .error .exception
  | .bool b => .ok (if b then 1 else 0)
  | .str _ | .arr _ | .obj _ => .error .exception

def asString : Json ρ → Except Crash Bytes
  | .null => .ok []
  | .int n => .ok (if n < 0 then ascii "-" ++ toString n.natAbs else toString n.natAbs)
  | .real x => .ok (j.realText x)
  | .str s => .ok s
  | .bool b => .ok (ascii (if b then "true" else "false"))
  | .arr _ | .obj _ => .error .exception

end Json

/-! ## `SendResponse` -/

variable {ρ : Type} (j : Jsoncpp ρ) (fl : Flags)

/-- A failed `send` is only logged. -/
def SendResponse (fd : Int) (val : Json ρ) : Code Unit := do
  let _ ← sys (.send fd (j.toStyledString val))
  return ()

/-- `val["Response"] = msg; SendResponse(fd, val)` -/
def respond (fd : Int) (val : Json ρ) (msg : Bytes) : Code (Except Crash Unit) :=
  match val.set "Response" (.str msg) with
  | .error crash => return .error crash
  | .ok val => do
    SendResponse j fd val
    return .ok ()

/-! ## `RegisterView` -/

namespace RegisterView

open FileSys Mmysql

def usrNotExistCmd (usr : Bytes) : Bytes := ascii "SELECT uid FROM Usr where name = '" ++ usr ++ ascii "';"

def insertUsrCmd (usr passwd : Bytes) : Bytes :=
  ascii "INSERT INTO Usr (name, passwd) VALUES('" ++ usr ++ ascii "','" ++ passwd ++ ascii "');"

/-- 1 when there is no such user, 0 when there is, -1 on an error. -/
def usrNotExist (usr : Bytes) : Code Int := do
  let rt ← runQuery (usrNotExistCmd usr)
  if rt ≠ 0 then
    return -1
  else do
    let row ← fetchRes
    match row with
    | none => return 1
    | some _ => return 0

def insertUsr (usr passwd : Bytes) : Code Int := do
  let rt ← runQuery (insertUsrCmd usr passwd)
  if rt ≠ 0 then return -1 else return 1

def createUsrDir (usr : Bytes) : Code Int := do
  let rt ← mkdir (fl.usrDir ++ usr)
  if rt = -1 then return -1 else return 1

/-- The `do … while (0)` of `Process`: the response message. -/
def regist (usr passwd : Bytes) : Code Bytes := do
  let rt ← usrNotExist usr
  if rt = -1 then
    return ascii "Fail: query failed"
  else if rt = 0 then
    return ascii "Fail: usr is existed, usr: " ++ usr
  else do
    let rt ← insertUsr usr passwd
    if rt = -1 then
      return ascii "Fail: insert Usr table failed"
    else do
      let rt ← createUsrDir fl usr
      if rt = -1 then
        return ascii "Fail: create usr dir failed"
      else
        return ascii "Success: regist usr " ++ usr

/-- `req_val["Name"].asString()`, then `req_val["Passwd"].asString()` -/
def readRequest (reqVal : Json ρ) : Except Crash (Bytes × Bytes) := do
  let (name, reqVal) ← reqVal.get "Name"
  let usr ← name.asString j
  let (passwd, _) ← reqVal.get "Passwd"
  let passwd ← passwd.asString j
  return (usr, passwd)

def Process (reqVal : Json ρ) (clientFd : Int) : Code (Except Crash Unit) :=
  match readRequest j reqVal with
  | .error crash => return .error crash
  | .ok (usr, passwd) => do
    let responseMsg ← regist fl usr passwd
    respond j clientFd .null responseMsg

end RegisterView

/-! ## `Control` -/

inductive MsgType where
  | register
  | login
  | exit
  | share
  | delete
  | upload
  | download
  | show
deriving DecidableEq

/-- `static_cast<int>` -/
def MsgType.toInt : MsgType → Int
  | .register => 0
  | .login => 1
  | .exit => 2
  | .share => 3
  | .delete => 4
  | .upload => 5
  | .download => 6
  | .show => 7

inductive View where
  | registerView

namespace Control

/-- `_view_map` after `Init` -/
def viewMap (type : Int) : Option View :=
  if type = MsgType.register.toInt then some .registerView else none

/-- `json_val["TYPE"].asInt()`, and `json_val` after it. -/
def readType (jsonVal : Json ρ) : Except Crash (Int × Json ρ) := do
  let (val, jsonVal) ← jsonVal.get "TYPE"
  let type ← val.asInt j
  return (type, jsonVal)

def Process (msg : Bytes) (clientFd : Int) : Code (Except Crash Unit) :=
  match j.parse (cStr msg) with
  | (false, jsonVal) => respond j clientFd jsonVal (ascii "parse msg failed")
  | (true, jsonVal) =>
    match readType j jsonVal with
    | .error crash => return .error crash
    | .ok (type, jsonVal) =>
      if type = MsgType.register.toInt ∨ type = MsgType.login.toInt ∨ type = MsgType.exit.toInt then
        match viewMap type with
        -- `_view_map[type]` makes a null pointer where there is no view.
        | none => return .error .nullView
        | some .registerView => RegisterView.Process j fl jsonVal clientFd
      else
        respond j clientFd jsonVal (ascii "error command!")

end Control

end NetDisk
