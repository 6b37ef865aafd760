import Mathlib.Data.Finset.Card
import NetDisk.Code.FileSys

/-!
# `upload_rpc.cpp`

`UploadRpc::Do` is cut into the parts between its comments; each part ends the call or goes on
to the next.
-/

namespace NetDisk

structure NetDiskRequest where
  opType : UInt32
  shard : UInt32
  partIndex : UInt32
  partSign : Bytes
  fileName : Bytes
  fileSign : Bytes
  usr : Bytes
  body : Bytes
deriving DecidableEq

/-- A field that is not set is `none`. -/
structure NetDiskResponse where
  res : Option Bool
  shard : Option UInt32
  partIndex : Option UInt32
  fileName : Option Bytes
  body : Option Bytes
deriving DecidableEq

def NetDiskResponse.empty : NetDiskResponse := ⟨none, none, none, none, none⟩

/-- `set_res` and `set_body` -/
def NetDiskResponse.answer (response : NetDiskResponse) (res : Bool) (body : String) : NetDiskResponse :=
  { response with res := some res, body := some (ascii body) }

namespace UploadRpc

open FileSys Mmysql

/-! ## The statements -/

def insertSignCmd (sign fileName : Bytes) : Bytes :=
  ascii "INSERT INTO SignMap (sign, fileName, reference) VALUES('" ++ sign ++ ascii "','" ++ fileName ++
    ascii "',1);"

def selectSignCmd (sign : Bytes) : Bytes :=
  ascii "SELECT * FROM SignMap where sign = '" ++ sign ++ ascii "'"

def updateSignCmd (sign : Bytes) : Bytes :=
  ascii "UPDATE SignMap Set reference = reference + 1 where sign = '" ++ sign ++ ascii "'"

/-! ## The helpers -/

/-- `shard` as the `int` parameter, compared with a `size_t`. -/
def shardSize (shard : UInt32) : Nat := (shard.toBitVec.signExtend 64).toNat

def allPartArrived (dir : Bytes) (shard : UInt32) : Code Bool := do
  -- A failed `LsDir` is only logged, and leaves the list empty.
  let partNum ← lsDir dir
  return shardSize shard = partNum.2.card

/-- A query between `pthread_mutex_lock` and `pthread_mutex_unlock`. -/
def lockedQuery (cmd : Bytes) : Code Int := do
  let _ ← sys .lock
  let rt ← runQuery cmd
  let _ ← sys .unlock
  if rt ≠ 0 then return -1 else return 0

def addSignMap (sign fileName : Bytes) : Code Int := lockedQuery (insertSignCmd sign fileName)

def linkToUsr (src dst sign fileName : Bytes) : Code Int := do
  let rt ← link src dst
  if rt ≠ 0 then
    return -1
  else do
    let rt ← runQuery (selectSignCmd sign)
    if rt ≠ 0 then
      return -1
    else do
      let row ← fetchRes
      match row with
      | none => addSignMap sign fileName
      | some _ => lockedQuery (updateSignCmd sign)

/-! ## `Do` -/

section
variable (fl : Flags) (request : NetDiskRequest) (response : NetDiskResponse)

/-- `file_dir` -/
def fileDir : Bytes := fl.filesDir ++ request.fileSign

/-- Where the user's link to the file goes. -/
def linkPath : Bytes := fl.usrDir ++ request.usr ++ ascii "/files/" ++ request.fileSign

/-- `usr_upload_dir` -/
def usrUploadDir : Bytes := fl.usrDir ++ request.usr ++ ascii "/tmp/"

/-- `file_path` -/
def filePath : Bytes :=
  usrUploadDir fl request ++ request.fileSign ++ ascii "/" ++ toString request.partIndex.toNat

def mvCmd : Bytes :=
  ascii "mv " ++ (usrUploadDir fl request ++ request.fileSign) ++ ascii " " ++ fl.filesDir

/-- The file is stored already. -/
def speedUpload : Code NetDiskResponse := do
  let rt ← linkToUsr (fileDir fl request) (linkPath fl request) request.fileSign request.fileName
  if rt ≠ 0 then
    return response.answer false "speed upload link failed"
  else
    return response.answer true "file already in server, speed"

/-- All parts are there: move them to the stored files, and link the file to the user. -/
def publish : Code NetDiskResponse := do
  -- The return code of `ShellOut` is not looked at, only what the command printed.
  let shellRes ← shellOut (mvCmd fl request)
  if shellRes.getD [] ≠ [] then
    return response.answer false "mv failed"
  else do
    let rt ← linkToUsr (fileDir fl request) (linkPath fl request) request.fileSign request.fileName
    if rt ≠ 0 then
      return response.answer false "link failed"
    else
      return response.answer true "success"

def checkArrived : Code NetDiskResponse := do
  let arrived ← allPartArrived (usrUploadDir fl request ++ request.fileSign) request.shard
  if arrived = true then
    publish fl request response
  else
    return response.answer true "success"

/-- The digest of what is on disk now. -/
def checkSign : Code NetDiskResponse := do
  let curMd5 ← md5Sum (filePath fl request)
  match curMd5 with
  | none => return response.answer false "cal md5 failed"
  | some curMd5 =>
    if curMd5 ≠ request.partSign then
      return response.answer false "part sign check error"
    else
      checkArrived fl request response

def writePart : Code NetDiskResponse := do
  let rt ← write request.body (filePath fl request)
  if rt ≠ 0 then
    return response.answer false "write file failed"
  else
    checkSign fl request response

/-- A part that is there already: with the right digest it is kept, but written again all the same. -/
def existingPart : Code NetDiskResponse := do
  let curMd5 ← md5Sum (filePath fl request)
  match curMd5 with
  | none => return response.answer false "cal md5 failed"
  | some curMd5 =>
    if curMd5 = request.partSign then
      writePart fl request { response with body := some (ascii "this part already exist") }
    else do
      let _ ← deleteFile (filePath fl request)
      writePart fl request response

def storePart : Code NetDiskResponse := do
  let exist ← existFile (filePath fl request)
  if exist = true then
    existingPart fl request response
  else
    writePart fl request response

/-- Whether the user's directory, its `tmp` and the directory of this file in it are there. -/
def makeTmpDirs : Code Bool := do
  let rt ← mkdir (fl.usrDir ++ request.usr)
  if rt ≠ 0 then
    return false
  else do
    let rt ← mkdir (usrUploadDir fl request)
    if rt ≠ 0 then
      return false
    else do
      let rt ← mkdir (usrUploadDir fl request ++ request.fileSign ++ ascii "/")
      return rt = 0

def uploadPart : Code NetDiskResponse := do
  let made ← makeTmpDirs fl request
  if made = true then
    storePart fl request response
  else
    return response.answer false "create usr dir or usr file dir failed"

def Do : Code NetDiskResponse := do
  let rt ← mkdir (fl.usrDir ++ request.usr ++ ascii "/files")
  if rt ≠ 0 then
    return response.answer false "create usr files dir failed"
  else do
    let stored ← existDir (fileDir fl request)
    if stored = true then
      speedUpload fl request response
    else
      uploadPart fl request response

end

end UploadRpc

end NetDisk
