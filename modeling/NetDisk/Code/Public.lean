import NetDisk.Text

/-!
# `public.cpp`

`ShellOut` with its array: the pieces that `fread` gives are stored one behind the other, and the array is read back as
a string. A `none` is a store outside the array.
-/

namespace NetDisk

namespace Public

/-- `SHELLOUT_MAX_LEN` -/
def shelloutMaxLen : Nat := 256

/-- `out`, which is not initialised, and the stack behind it, where a read comes to a NUL at some point. -/
structure Stack where
  out : Bytes
  behind : Bytes
  size : out.length = shelloutMaxLen
  ends : (0 : Byte) ∈ behind

/-- What the calls of `fread` give, up to the one that gives nothing. -/
structure Pipe where
  pieces : List Bytes
  sized : ∀ piece ∈ pieces, 0 < piece.length ∧ piece.length ≤ 10

namespace Stack

def store (stack : Stack) (i : Nat) (piece : Bytes) (h : i + piece.length ≤ shelloutMaxLen) : Stack where
  out := stack.out.take i ++ piece ++ stack.out.drop (i + piece.length)
  behind := stack.behind
  size := by
    have hsize := stack.size
    rw [List.length_append, List.length_append, List.length_take, List.length_drop]
    omega
  ends := stack.ends

/-- `string(out)` -/
def str (stack : Stack) : Bytes := cStr (stack.out ++ stack.behind)

end Stack

/-- The rounds that are left. -/
def readLoop (stack : Stack) (writeIndex : Nat) : List Bytes → Option Stack
  | [] => some stack
  | piece :: pieces =>
    if h : writeIndex + piece.length ≤ shelloutMaxLen then
      readLoop (stack.store writeIndex piece h) (writeIndex + piece.length) pieces
    else none

section
variable (stack : Stack) (popen : Bytes → Option Pipe)

/-- The return code, and `res`. -/
def shellOut (cmd res : Bytes) : Option (Int × Bytes) :=
  match popen (cStr cmd) with
  | none => some (-1, res)
  | some fp => (readLoop stack 0 fp.pieces).map fun stack => (0, stack.str)

/-- The return code, and `md5`. -/
def md5Sum (filePath md5 : Bytes) : Option (Int × Bytes) :=
  (shellOut stack popen (ascii "md5sum " ++ filePath) []).map fun r =>
    if r.1 ≠ 0 then (-1, md5) else (0, r.2.take 32)

end

end Public

end NetDisk
