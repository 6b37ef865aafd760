import NetDisk.Code.Sys

/-!
# What the helpers open and close

`ExistDir` and `LsDir` of `file_sys.cpp`, `ShellOut` of `public.cpp` and `FetchRes` of `mmsql.cpp`, call by call: these
are the bodies of the operations that `Sys` takes as one.
-/

namespace NetDisk

/-- What a `DIR *` is a handle of. -/
structure Dir where
  path : Bytes
  entries : Finset Name

/-- The `FILE *` of a command that runs. -/
structure Command where
  cmd : Bytes
  output : Bytes

/-- `MYSQL_RES`, with the row that is fetched first. -/
structure MysqlRes where
  row : Option Row

/-- A null pointer is `none`. -/
inductive LibCall where
  | opendir (path : Bytes)
  /-- `readdir` to the end of the directory. -/
  | readdir (dir : Dir)
  | closedir (dir : Dir)
  | popen (cmd : Bytes)
  /-- `fread` until there is nothing left. -/
  | fread (fp : Command)
  | pclose (fp : Command)
  | storeResult
  | fetchRow (res : Option MysqlRes)
  | freeResult (res : Option MysqlRes)
  /-- A call that is an operation of its own. -/
  | sys (op : Sys)

abbrev LibCall.Res : LibCall → Type
  | .opendir _ => Option Dir
  | .readdir _ => Finset Name
  | .popen _ => Option Command
  | .fread _ => Bytes
  | .storeResult => Option MysqlRes
  | .fetchRow _ => Option Row
  | .closedir _ | .pclose _ | .freeResult _ => Unit
  | .sys op => op.Res

abbrev LibCode (α : Type) := Prog LibCall LibCall.Res α

namespace LibCalls

def call (c : LibCall) : LibCode c.Res := .lift c

/-- There is no `closedir`. -/
def existDir (dirName : Bytes) : LibCode Bool := do
  let dir : Option Dir ← call (.opendir dirName)
  return dir.isSome

/-- Nor here. -/
def lsDir (dirName : Bytes) : LibCode (Option (Finset Name)) := do
  let dir : Option Dir ← call (.opendir dirName)
  match dir with
  | none => return none
  | some dir => do
    let entries : Finset Name ← call (.readdir dir)
    return some entries

def shellOut (cmd : Bytes) : LibCode (Option Bytes) := do
  let fp : Option Command ← call (.popen cmd)
  match fp with
  | none => return none
  | some fp => do
    let out : Bytes ← call (.fread fp)
    let _ ← call (.pclose fp)
    return some out

/-- There is no `mysql_free_result`. -/
def fetchRes : LibCode (Option Row) := do
  let res : Option MysqlRes ← call .storeResult
  call (.fetchRow res)

def body : (op : Sys) → LibCode op.Res
  | .opendir path => existDir path
  | .readdir path => lsDir path
  | .shell cmd => shellOut cmd
  | .fetch => fetchRes
  | op => call (.sys op)

end LibCalls

end NetDisk
