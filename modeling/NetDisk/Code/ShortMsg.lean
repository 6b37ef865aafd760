import NetDisk.Code.BrpcClient
import NetDisk.Code.Control

/-!
# The two ends of a short connection

`clientMain.cpp` and `mpthread.cpp`. A `char` array is the memory from its start on: what is received
goes over its first bytes, and a C string in it ends at the first NUL, wherever that is.
-/

namespace NetDisk

open BrpcClient (ofCharPtr)

variable {ρ : Type} (j : Jsoncpp ρ) (fl : Flags)

/-! ## `clientMain.cpp` -/

namespace ClientMain

/-- `RESPONSE_MAX_LEN` -/
def responseMaxLen : Nat := 1024

/-- `req_json`; `registOp` has the type 0. -/
def reqJson (type : Int) (usr passwd : Bytes) : Except Crash (Json ρ) := do
  let reqJson ← Json.null.set "Type" (.int type)
  let reqJson ← reqJson.set "Name" (.str (cStr usr))
  reqJson.set "Passwd" (.str (cStr passwd))

/-- What `sendShortReq` puts on the stream. -/
def sendShortReq (reqMsg : Bytes) : Bytes := cStr reqMsg

/-- `res_buf`, which is not initialised, with what `recv` put into it. -/
def resBuf (stack received : Bytes) : Bytes := overlay stack received

/-- `json_val`, if the parse succeeds. `none` where the text in the buffer does not end. -/
def parseResponse (stack received : Bytes) : Option (Option (Json ρ)) :=
  (ofCharPtr (resBuf stack received)).map fun text =>
    match j.parse text with
    | (true, jsonVal) => some jsonVal
    | (false, _) => none

end ClientMain

/-! ## `mpthread.cpp` -/

namespace Mpthread

/-- `RECV_BUF_SIZE` -/
def recvBufSize : Nat := 512

/-- `buf`, all zero, with what `recv` put into it; `stack` is the memory behind it. -/
def recvBuf (stack received : Bytes) : Bytes := overlay (List.replicate recvBufSize 0 ++ stack) received

/-- `received` is empty where `recv` fails, which is only logged. The connection is closed after it. -/
def recvClientMsg (stack received : Bytes) (clientFd : Int) : Code (Except Crash Unit) :=
  Control.Process j fl (recvBuf stack received) clientFd

end Mpthread

end NetDisk
