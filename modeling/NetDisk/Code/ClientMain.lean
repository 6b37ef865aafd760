import NetDisk.Code.Control
import NetDisk.Lib.Istream

/-!
# `clientMain.cpp`

The loop of the client. What it prints is left out, and so is what becomes of a request.
-/

namespace NetDisk

namespace ClientMain

/-- A request, and what it is made from. -/
inductive Request where
  | register (name passwd : Bytes)
  | upload (file usr : Bytes)
deriving DecidableEq

def gUsr : Bytes := ascii "lxw01"

/-- `g_is_login`, which nothing changes. -/
def gIsLogin : Bool := false

/-- `cin`, and what `op_type` holds each time that nothing is stored in it. -/
structure Client where
  cin : Istream
  garbage : Nat → Int

/-- A string that is read, or is still empty. -/
def readField (cin : Istream) : Bytes × Istream := (cin.readString.1.getD [], cin.readString.2)

/-- The request has `usr.c_str()` and `passwd.c_str()`; `repeat_passwd` is not looked at. -/
def registOp (cin : Istream) : List Request × Istream :=
  let (usr, cin) := readField cin
  let (passwd, cin) := readField cin
  let (_, cin) := readField cin
  ([.register (cStr usr) (cStr passwd)], cin)

def loginOp (cin : Istream) : List Request × Istream := ([], cin)

def exitOp (cin : Istream) : List Request × Istream := ([], cin)

/-- Without a login there is a message, and the upload all the same. -/
def uploadOp (cin : Istream) (usr : Bytes) : List Request × Istream :=
  let (uploadFile, cin) := readField cin
  ([.upload uploadFile usr], cin)

def downloadOp (cin : Istream) : List Request × Istream := ([], cin)

/-- The `switch`. -/
def operate (opType : Int) (cin : Istream) : List Request × Istream :=
  if opType = MsgType.register.toInt then registOp cin
  else if opType = MsgType.login.toInt then loginOp cin
  else if opType = MsgType.exit.toInt then exitOp cin
  else if opType = MsgType.upload.toInt then uploadOp cin gUsr
  else if opType = MsgType.download.toInt then downloadOp cin
  else ([], cin)

/-- One round of the loop: the requests, each with how many bytes there are from its command to the end of the input. -/
def round (c : Client) : List (Nat × Request) × Client :=
  let place := (Istream.skipWs c.cin.rest).length
  let (stored, cin) := c.cin.readInt Json.intMin Json.intMax
  let (requests, cin) := operate (stored.getD (c.garbage 0)) cin
  (requests.map fun r => (place, r), ⟨cin, if stored = none then fun n => c.garbage (n + 1) else c.garbage⟩)

/-- The requests of so many rounds. -/
def rounds : Nat → Client → List (Nat × Request)
  | 0, _ => []
  | n + 1, c => (round c).1 ++ rounds n (round c).2

def start (input : Bytes) (garbage : Nat → Int) : Client := ⟨⟨input, false⟩, garbage⟩

end ClientMain

end NetDisk
