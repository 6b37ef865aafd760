import NetDisk.Code.Md5
import NetDisk.Code.UploadRpc

/-!
# `brpc_client.cpp`

`BrpcClient::doUploadFile`, as the requests that it sends. `none` is a run that reads or closes what it
may not. `upload` is the same function with the responses, and what its caller sees of it.
-/

namespace NetDisk

namespace BrpcClient

/-- `MAX_SIZE_PER_SHARD` -/
def maxSizePerShard : Nat := 2

/-- `MSG_TYPE::UPLOAD` -/
def UPLOAD : UInt32 := 5

/-- What `malloc` gives: all that can be read from the pointer on, with what is left in it. -/
structure Memory where
  bytes : Bytes
  room : maxSizePerShard ≤ bytes.length

/-- A file that is open for reading. -/
structure File where
  content : Bytes
  pos : Nat

/-- What the client finds on its machine. -/
structure Local where
  /-- What `Md5Sum` makes of the file; `none` where it returns -1. -/
  md5Sum : Option Bytes
  /-- `none` where the file cannot be opened. -/
  content : Option Bytes
  /-- What `malloc` gives for each part. -/
  malloc : Nat → Memory

/-- A `long`. -/
def getFileSize (file : File) : Int := file.content.length

/-- The conversion to `int`. -/
def toInt (n : Int) : Int := n.bmod 4294967296

/-- The bytes, and the file behind them. -/
def fread (size : Nat) (fp : File) : Bytes × File :=
  let read := (fp.content.drop fp.pos).take size
  (read, { fp with pos := fp.pos + read.length })

/-- A `char*` as a `string`: the bytes up to the first NUL, if there is one. -/
def ofCharPtr (mem : Bytes) : Option Bytes := if 0 ∈ mem then some (cStr mem) else none

section
variable (m : Local) (file usr fileMd5 : Bytes) (shard : Int)

def partRequest (partIndex : Nat) (md5Val body : Bytes) : NetDiskRequest where
  opType := UPLOAD
  shard := UInt32.ofInt shard
  partIndex := UInt32.ofNat partIndex
  partSign := md5Val
  fileName := file
  fileSign := fileMd5
  usr := usr
  body := body

/-- One round of the loop. -/
def uploadPart (partIndex : Nat) (fp : File) : Option (NetDiskRequest × File) :=
  let r := fread maxSizePerShard fp
  let buffer := overlay (m.malloc partIndex).bytes r.1
  match ofCharPtr buffer with
  | none => none
  | some str => some (partRequest file usr fileMd5 shard partIndex (md5 str) str, r.2)

/-- The rounds from `partIndex` on. -/
def uploadParts : (count partIndex : Nat) → File → Option (List NetDiskRequest)
  | 0, _, _ => some []
  | count + 1, partIndex, fp =>
    match uploadPart m file usr fileMd5 shard partIndex fp with
    | none => none
    | some (request, fp) => (uploadParts count (partIndex + 1) fp).map (request :: ·)

end

def doUploadFile (m : Local) (file usr : Bytes) : Option (List NetDiskRequest) :=
  match m.md5Sum with
  | none => some []
  | some fileMd5 =>
    match m.content with
    -- `fclose` of a null pointer.
    | none => none
    | some content =>
      let size := toInt (getFileSize ⟨content, 0⟩)
      let shard := size.tdiv maxSizePerShard + 1
      uploadParts m file usr fileMd5 shard shard.toNat 0 ⟨content, 0⟩

/-! ## `DoRequest` -/

/-- The client's machine, and what comes of each RPC. -/
structure Session extends Local where
  /-- Whether `channel.Init` succeeds. -/
  init : Bool
  /-- Whether the second `fopen` of the file succeeds where the first has. -/
  reopens : Bool
  /-- The response to each part; `none` where `cntl.Failed()`. -/
  rpc : Nat → Option NetDiskResponse

/-- What a call has done. -/
structure Upload where
  /-- The return code; `none` where the call does not return. -/
  rt : Option Int
  /-- Whether there was a stream of the file for the parts. -/
  opened : Bool
  /-- Whether `fclose` was called with a null pointer. -/
  closesNull : Bool
  /-- The rounds of the loop. -/
  parts : Nat
  sent : List (NetDiskRequest × Option NetDiskResponse)

section
variable (s : Session) (file usr fileMd5 : Bytes) (shard : Int)

/-- The rounds from `partIndex` on, and whether they come to an end. A failed RPC is only logged, and `res` too. -/
def sendParts : (count partIndex : Nat) → File → Bool × List (NetDiskRequest × Option NetDiskResponse)
  | 0, _, _ => (true, [])
  | count + 1, partIndex, fp =>
    match uploadPart s.toLocal file usr fileMd5 shard partIndex fp with
    | none => (false, [])
    | some (request, fp) =>
      let rest := sendParts count (partIndex + 1) fp
      (rest.1, (request, s.rpc partIndex) :: rest.2)

end

/-- `doUploadFile` with the responses. -/
def upload (s : Session) (file usr : Bytes) : Upload :=
  match s.md5Sum with
  | none => ⟨some 0, false, false, 0, []⟩
  | some fileMd5 =>
    match s.content, s.reopens with
    | some content, true =>
      let size := toInt (getFileSize ⟨content, 0⟩)
      let shard := size.tdiv maxSizePerShard + 1
      let r := sendParts s file usr fileMd5 shard shard.toNat 0 ⟨content, 0⟩
      ⟨if r.1 then some 0 else none, true, false, shard.toNat, r.2⟩
    -- `fclose` of a null pointer.
    | _, _ => ⟨none, false, true, 0, []⟩

/-- The result of `doUploadFile` is dropped. -/
def DoRequest (s : Session) (type : UInt32) (file usr : Bytes) : Upload :=
  if s.init = false then ⟨some (-1), false, false, 0, []⟩
  else if type = UPLOAD then
    let u := upload s file usr
    { u with rt := u.rt.map fun _ => 0 }
  else ⟨some 0, false, false, 0, []⟩

end BrpcClient

end NetDisk
