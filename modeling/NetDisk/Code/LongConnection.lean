import NetDisk.Code.Control
import NetDisk.Code.UploadRpc

/-!
# `long_connection.cpp`

`NetDiskServiceImpl::Send`. The download is commented out in the source.
-/

namespace NetDisk

/-- No required field is missing. -/
def NetDiskResponse.IsInitialized (response : NetDiskResponse) : Bool :=
  response.res.isSome && response.shard.isSome && response.partIndex.isSome && response.fileName.isSome &&
    response.body.isSome

namespace NetDiskServiceImpl

/-- What is set before the `switch`. -/
def setRequest (request : NetDiskRequest) (response : NetDiskResponse) : NetDiskResponse :=
  { response with
    fileName := some request.fileName
    shard := some request.shard
    partIndex := some request.partIndex }

/-- `response->res()` of a response without it is `false`. -/
def setBody (response : NetDiskResponse) : NetDiskResponse :=
  if response.res.getD false = true then { response with body := some (ascii "upload success") } else response

/-- The `switch`. -/
def dispatch (fl : Flags) (request : NetDiskRequest) (response : NetDiskResponse) : Code NetDiskResponse :=
  if (request.opType.toNat : Int) = MsgType.upload.toInt then
    UploadRpc.Do fl request response
  else if (request.opType.toNat : Int) = MsgType.download.toInt then
    return response
  else
    return response.answer false "op not support"

def Send (fl : Flags) (request : NetDiskRequest) (response : NetDiskResponse) : Code NetDiskResponse := do
  let response ← dispatch fl request (setRequest request response)
  return setBody response

end NetDiskServiceImpl

end NetDisk
