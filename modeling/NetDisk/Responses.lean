import NetDisk.Code.LongConnection
import NetDisk.Outside

/-!
# What a response has

Every way through `UploadRpc::Do` sets `res` and `body`, and `Send` the other fields before it; unless a command prints
more than `ShellOut` has room for.
-/

namespace NetDisk

open Prog

/-- The two fields that an answer sets, and the others as they were. -/
def NetDiskResponse.Answered (response answer : NetDiskResponse) : Prop :=
  ∃ res body, answer = { response with res := some res, body := some body }

theorem NetDiskResponse.answer_answers (response : NetDiskResponse) (res : Bool) (body : String) :
    response.Answered (response.answer res body) := ⟨res, ascii body, rfl⟩

namespace UploadRpc

open NetDiskResponse

variable (fl : Flags) (request : NetDiskRequest) (response : NetDiskResponse)

theorem speedUpload_yields : (speedUpload fl request response).Yields response.Answered := by
  unfold speedUpload
  apply Yields.after
  intro rt
  exact Yields.ite (fun _ => answer_answers _ _ _) fun _ => answer_answers _ _ _

theorem publish_yields : (publish fl request response).Yields response.Answered := by
  unfold publish
  apply Yields.after
  intro shellRes
  refine Yields.ite (fun _ => answer_answers _ _ _) fun _ => ?_
  apply Yields.after
  intro rt
  exact Yields.ite (fun _ => answer_answers _ _ _) fun _ => answer_answers _ _ _

theorem checkSign_yields : (checkSign fl request response).Yields response.Answered := by
  unfold checkSign
  apply Yields.after
  intro curMd5
  cases curMd5 with
  | none => exact answer_answers _ _ _
  | some curMd5 =>
    refine Yields.ite (fun _ => answer_answers _ _ _) fun _ => ?_
    unfold checkArrived
    apply Yields.after
    intro arrived
    exact Yields.ite (fun _ => publish_yields fl request response) fun _ => answer_answers _ _ _

theorem writePart_yields : (writePart fl request response).Yields response.Answered := by
  unfold writePart
  apply Yields.after
  intro rt
  exact Yields.ite (fun _ => answer_answers _ _ _) fun _ => checkSign_yields fl request response

theorem storePart_yields : (storePart fl request response).Yields response.Answered := by
  unfold storePart
  apply Yields.after
  intro exist
  refine Yields.ite (fun _ => ?_) fun _ => writePart_yields fl request response
  unfold existingPart
  apply Yields.after
  intro curMd5
  cases curMd5 with
  | none => exact answer_answers _ _ _
  | some curMd5 =>
    refine Yields.ite (fun _ => ?_) fun _ => ?_
    -- The body that is set here is set again at the end.
    · exact writePart_yields fl request { response with body := some (ascii "this part already exist") }
    · apply Yields.after
      intro rt
      exact writePart_yields fl request response

theorem Do_yields : (Do fl request response).Yields response.Answered := by
  unfold Do
  apply Yields.after
  intro rt
  refine Yields.ite (fun _ => answer_answers _ _ _) fun _ => ?_
  apply Yields.after
  intro stored
  refine Yields.ite (fun _ => speedUpload_yields fl request response) fun _ => ?_
  unfold uploadPart
  apply Yields.after
  intro made
  exact Yields.ite (fun _ => storePart_yields fl request response) fun _ => answer_answers _ _ _

end UploadRpc

/-! ## Any request -/

namespace NetDiskServiceImpl

open UploadRpc NetDiskResponse Public

variable (fl : Flags) (request : NetDiskRequest)

/-- All required fields are set, and those that belong to the request are its own. -/
structure Complete (request : NetDiskRequest) (response : NetDiskResponse) : Prop where
  initialized : response.IsInitialized = true
  shard_eq : response.shard = some request.shard
  partIndex_eq : response.partIndex = some request.partIndex
  fileName_eq : response.fileName = some request.fileName

theorem setBody_res (response : NetDiskResponse) : (setBody response).res = response.res := by
  unfold setBody
  split <;> rfl

theorem setBody_complete {response answer : NetDiskResponse} (h : (setRequest request response).Answered answer) :
    Complete request (setBody answer) := by
  obtain ⟨res, body, rfl⟩ := h
  unfold setBody
  cases res <;> exact ⟨rfl, rfl, rfl, rfl⟩

theorem dispatch_yields (response : NetDiskResponse) (h : (request.opType.toNat : Int) ≠ MsgType.download.toInt) :
    (dispatch fl request response).Yields response.Answered := by
  unfold dispatch
  refine Yields.ite (fun _ => Do_yields fl request response) fun _ => ?_
  exact Yields.ite (fun hdown => absurd hdown h) fun _ => answer_answers _ _ _

theorem Send_yields (h : (request.opType.toNat : Int) ≠ MsgType.download.toInt) :
    (Send fl request .empty).Yields (Complete request) :=
  (dispatch_yields fl request _ h).bind fun _ hanswer => setBody_complete request hanswer

/-- Other operations are not asked for. -/
theorem Send_quiet (h : (request.opType.toNat : Int) ≠ MsgType.upload.toInt) :
    (Send fl request .empty).Uses fun _ => False := by
  unfold Send dispatch
  rw [if_neg h]
  split
  · exact .pure
  · exact .pure

/-- All that is asked for is granted, no file is stored, each part is there already, and `popen` gives `fp`. -/
def granting (fp : Option Pipe) : Outside Unit where
  reply
    | .mkdir _, _ | .remove _, _ | .symlink _ _, _ => (none, ())
    | .opendir _, _ => (false, ())
    | .access _, _ | .send _ _, _ | .query _, _ => (true, ())
    | .readdir _, _ | .openFile _, _ | .write _ _, _ | .shell _, _ | .fetch, _ => (none, ())
    | .close _, _ | .lock, _ | .unlock, _ => ((), ())
  popen _ _ := fp
  stack _ _ := .filled 0

theorem Send_granting {fp : Pipe} (hup : (request.opType.toNat : Int) = MsgType.upload.toInt)
    (h : shelloutMaxLen < fp.output.length) : (Send fl request .empty).tryRun (granting (some fp)).exec () = none := by
  have hmd5 : (md5Sum (filePath fl request)).tryRun (granting (some fp)).exec () = none := by
    rw [Outside.md5Sum_tryRun, Public.md5Sum, shellOut_over _ _ rfl h]
    rfl
  have hmkdir : ∀ dirName, (FileSys.mkdir dirName).tryRun (granting (some fp)).exec () = some (0, ()) := fun _ => rfl
  have hnew : (FileSys.existDir (fileDir fl request)).tryRun (granting (some fp)).exec () = some (false, ()) := rfl
  have hthere : (FileSys.existFile (filePath fl request)).tryRun (granting (some fp)).exec () = some (true, ()) := rfl
  have hmade : (makeTmpDirs fl request).tryRun (granting (some fp)).exec () = some (true, ()) := rfl
  unfold Send dispatch
  rw [if_pos hup]
  apply tryRun_bind_none
  unfold Do
  rw [tryRun_bind_of _ (hmkdir _), if_neg (by simp), tryRun_bind_of _ hnew, if_neg (by simp)]
  unfold uploadPart storePart existingPart
  rw [tryRun_bind_of _ hmade, if_pos rfl, tryRun_bind_of _ hthere, if_pos rfl]
  exact tryRun_bind_none _ hmd5

/-- A download of the only part of `a.txt`. -/
def download : NetDiskRequest where
  opType := 6
  shard := 1
  partIndex := 0
  partSign := []
  fileName := ascii "a.txt"
  fileSign := []
  usr := ascii "bob"
  body := []

end NetDiskServiceImpl

end NetDisk
