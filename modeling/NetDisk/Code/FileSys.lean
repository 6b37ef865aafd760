import NetDisk.Code.Sys

/-! # `file_sys.cpp`, `public.cpp` and `mmsql.cpp` -/

namespace NetDisk

namespace FileSys

/-- `WRITE_LEN` -/
def writeLen : Nat := 4096

def mkdir (dirName : Bytes) : Code Int := do
  let err : Option Errno ← sys (.mkdir (cStr dirName))
  if err ≠ none ∧ err ≠ some .eexist then return -1 else return 0

def existDir (dirName : Bytes) : Code Bool := sys (.opendir (cStr dirName))

def existFile (filePath : Bytes) : Code Bool := sys (.access (cStr filePath))

/-- The return code, and the names that do not start with a dot. -/
def lsDir (dirName : Bytes) : Code (Int × Finset Name) := do
  let names : Option (Finset Name) ← sys (.readdir (cStr dirName))
  match names with
  | none => return (-1, ∅)
  | some names => return (0, names.filter fun d => d.head? ≠ some (ch '.'))

/-- `strlen(s)` as the `int` that counts the bytes left; `write` refuses a count below zero. -/
def intLen (n : Nat) : Nat := ((n : Int).bmod 4294967296).toNat

/-- The loop of `write`: whole chunks, each from the start of `s`. Ends with the length left. -/
def writeLoop (fd : Nat) (s : Bytes) : (fuel len : Nat) → Code Nat
  | 0, len => return len
  | fuel + 1, len =>
    if len > writeLen then do
      let _ ← sys (.write fd (s.take writeLen))
      writeLoop fd s fuel (len - writeLen)
    else
      return len

def write (str path : Bytes) : Code Int := do
  let s := cStr str
  let fd : Option Nat ← sys (.openFile (cStr path))
  match fd with
  | none => return -1
  | some fd =>
    -- Each round of the loop takes a chunk off the length, so `strlen(s)` rounds are enough.
    let len ← writeLoop fd s s.length (intLen s.length)
    let _ ← sys (.write fd (s.take len))
    let _ ← sys (.close fd)
    return 0

def deleteFile (path : Bytes) : Code Int := do
  let err : Option Errno ← sys (.remove (cStr path))
  if err = none then return 0 else return -1

def link (srcPath dstPath : Bytes) : Code Int := do
  let err : Option Errno ← sys (.symlink (cStr srcPath) (cStr dstPath))
  if err ≠ none ∧ err ≠ some .eexist then return -1 else return 0

end FileSys

/-- What the command prints, or `none` where `ShellOut` returns -1. Assumed of its array, which is in `Public.shellOut`: the
output fits, and there is a NUL behind it. -/
def shellOut (cmd : Bytes) : Code (Option Bytes) := sys (.shell (cStr cmd))

/-- The digest, or `none` where `Md5Sum` returns -1. -/
def md5Sum (filePath : Bytes) : Code (Option Bytes) := do
  let res ← shellOut (ascii "md5sum " ++ filePath)
  match res with
  | none => return none
  | some res => return some (res.take 32)

namespace Mmysql

def runQuery (cmd : Bytes) : Code Int := do
  let ok : Bool ← sys (.query cmd)
  if ok = true then return 0 else return 1

def fetchRes : Code (Option Row) := sys .fetch

end Mmysql

end NetDisk
