import NetDisk.Messages
import NetDisk.Publish
import NetDisk.Responses

/-!
# One RPC

The client's stub writes the request and reads the response; the server reads the request, calls `Send` and writes
what it gives. An RPC fails where a text is no message with all its fields.

brpc is not in this repository. Assumed of it: it brings each text over once and unchanged, and it does with the
messages what is said at `receive` and `call`.
-/

namespace NetDisk

open Wire Prog

namespace Rpc

variable {υ σ : Type} (F : Format υ) (h : Handler Sys Sys.Res σ) (fl : Flags)

/-- The server's side, for brpc: the request is parsed, `CallMethod` calls `Send` with an empty response, and the response
is written where all its fields are set. -/
def receive (text : Bytes) (s : σ) : Option Bytes × σ :=
  match NetDiskRequest.ofText F text with
  | none => (none, s)
  | some request =>
    let r := (NetDiskServiceImpl.Send fl request .empty).run h s
    (if r.1.IsInitialized then some (NetDiskResponse.InternalSerialize F ⟨r.1, []⟩) else none, r.2)

/-- The client's side: `_stub->Send`, which is `CallMethod` of the channel. The request is written, and the response is
parsed. -/
def call (request : NetDiskRequest) (s : σ) : Option NetDiskResponse × σ :=
  let r := receive F h fl (PartialRequest.InternalSerialize F ⟨request.toPartial, []⟩) s
  (r.1.bind (NetDiskResponse.ofText F), r.2)

end Rpc

/-! ## What the server has to say is short -/

namespace UploadRpc

def Short (response : NetDiskResponse) : Prop := ∀ body, response.body = some body → body.length ≤ 64

variable (fl : Flags) (request : NetDiskRequest) (response : NetDiskResponse)

theorem short_answer (res : Bool) {body : String} (h : (ascii body).length ≤ 64) : Short (response.answer res body) := by
  intro body' hbody
  cases hbody
  exact h

theorem speedUpload_short : (speedUpload fl request response).Yields Short := by
  unfold speedUpload
  apply Yields.after
  intro rt
  exact Yields.ite (fun _ => short_answer response false (by decide)) fun _ => short_answer response true (by decide)

theorem publish_short : (publish fl request response).Yields Short := by
  unfold publish
  apply Yields.after
  intro shellRes
  refine Yields.ite (fun _ => short_answer response false (by decide)) fun _ => ?_
  apply Yields.after
  intro rt
  exact Yields.ite (fun _ => short_answer response false (by decide)) fun _ => short_answer response true (by decide)

theorem checkSign_short : (checkSign fl request response).Yields Short := by
  unfold checkSign
  apply Yields.after
  intro curMd5
  cases curMd5 with
  | none => exact short_answer response false (by decide)
  | some curMd5 =>
    refine Yields.ite (fun _ => short_answer response false (by decide)) fun _ => ?_
    unfold checkArrived
    apply Yields.after
    intro arrived
    exact Yields.ite (fun _ => publish_short fl request response) fun _ => short_answer response true (by decide)

theorem writePart_short : (writePart fl request response).Yields Short := by
  unfold writePart
  apply Yields.after
  intro rt
  exact Yields.ite (fun _ => short_answer response false (by decide)) fun _ => checkSign_short fl request response

theorem Do_short : (Do fl request response).Yields Short := by
  unfold Do
  apply Yields.after
  intro rt
  refine Yields.ite (fun _ => short_answer response false (by decide)) fun _ => ?_
  apply Yields.after
  intro stored
  refine Yields.ite (fun _ => speedUpload_short fl request response) fun _ => ?_
  unfold uploadPart
  apply Yields.after
  intro made
  refine Yields.ite (fun _ => ?_) fun _ => short_answer response false (by decide)
  unfold storePart
  apply Yields.after
  intro exist
  refine Yields.ite (fun _ => ?_) fun _ => writePart_short fl request response
  unfold existingPart
  apply Yields.after
  intro curMd5
  cases curMd5 with
  | none => exact short_answer response false (by decide)
  | some curMd5 =>
    refine Yields.ite (fun _ => writePart_short fl request _) fun _ => ?_
    apply Yields.after
    intro rt
    exact writePart_short fl request response

/-! ### The other fields of a response play no part -/

/-- The fields that an answer sets, in another response. -/
def carry (answer : NetDiskResponse) : NetDiskResponse := { response with res := answer.res, body := answer.body }

/-- The same program, with its answer put into the response. -/
def Carried (p q : Code NetDiskResponse) : Prop := q = p >>= fun answer => .pure (carry response answer)

variable {response}

theorem Carried.after {α : Type} (c : Code α) {f g : α → Code NetDiskResponse} (h : ∀ a, Carried response (f a) (g a)) :
    Carried response (c >>= f) (c >>= g) := by
  unfold Carried
  rw [bind_assoc']
  exact congrArg (c >>= ·) (funext h)

theorem Carried.ite {c : Prop} [Decidable c] {p p' q q' : Code NetDiskResponse} (hp : Carried response p p')
    (hq : Carried response q q') : Carried response (if c then p else q) (if c then p' else q') := by
  split
  · exact hp
  · exact hq

theorem Carried.answer (base : NetDiskResponse) (res : Bool) (body : String) :
    Carried response (.pure (base.answer res body)) (.pure (response.answer res body)) := rfl

variable (response) (base : NetDiskResponse)

theorem publish_carried : Carried response (publish fl request base) (publish fl request response) := by
  unfold publish
  apply Carried.after
  intro shellRes
  refine Carried.ite (Carried.answer base _ _) ?_
  apply Carried.after
  intro rt
  exact Carried.ite (Carried.answer base _ _) (Carried.answer base _ _)

theorem checkSign_carried : Carried response (checkSign fl request base) (checkSign fl request response) := by
  unfold checkSign
  apply Carried.after
  intro curMd5
  cases curMd5 with
  | none => exact Carried.answer base _ _
  | some curMd5 =>
    refine Carried.ite (Carried.answer base _ _) ?_
    unfold checkArrived
    apply Carried.after
    intro arrived
    exact Carried.ite (publish_carried fl request response base) (Carried.answer base _ _)

theorem writePart_carried : Carried response (writePart fl request base) (writePart fl request response) := by
  unfold writePart
  apply Carried.after
  intro rt
  exact Carried.ite (Carried.answer base _ _) (checkSign_carried fl request response base)

theorem existingPart_carried : Carried response (existingPart fl request base) (existingPart fl request response) := by
  unfold existingPart
  apply Carried.after
  intro curMd5
  cases curMd5 with
  | none => exact Carried.answer base _ _
  | some curMd5 =>
    refine Carried.ite ?_ ?_
    · -- The body that is set here is set again.
      exact writePart_carried fl request { response with body := some (ascii "this part already exist") } _
    · apply Carried.after
      intro rt
      exact writePart_carried fl request response base

theorem Do_carried : Carried response (Do fl request base) (Do fl request response) := by
  unfold Do
  apply Carried.after
  intro rt
  refine Carried.ite (Carried.answer base _ _) ?_
  apply Carried.after
  intro stored
  refine Carried.ite ?_ ?_
  · unfold speedUpload
    apply Carried.after
    intro rt
    exact Carried.ite (Carried.answer base _ _) (Carried.answer base _ _)
  · unfold uploadPart
    apply Carried.after
    intro made
    refine Carried.ite ?_ (Carried.answer base _ _)
    unfold storePart
    apply Carried.after
    intro exist
    exact Carried.ite (existingPart_carried fl request response base) (writePart_carried fl request response base)

theorem Do_run {σ : Type} (h : Handler Sys Sys.Res σ) (s : σ) : (Do fl request response).run h s =
    (carry response ((Do fl request base).run h s).1, ((Do fl request base).run h s).2) := by
  rw [Do_carried fl request response base, run_bind]
  rfl

end UploadRpc

namespace NetDiskServiceImpl

open UploadRpc

variable (fl : Flags) (request : NetDiskRequest)

theorem setBody_short {response : NetDiskResponse} (h : Short response) : Short (setBody response) := by
  unfold setBody
  split
  · intro body hbody
    cases hbody
    decide
  · exact h

theorem send_short : (Send fl request .empty).Yields Short := by
  have hset : Short (setRequest request .empty) := fun body hbody => nomatch hbody
  unfold Send
  refine Yields.bind ?_ fun response hresponse => setBody_short hresponse
  unfold dispatch
  refine Yields.ite (fun _ => Do_short fl request _) fun _ => ?_
  exact Yields.ite (fun _ => hset) fun _ => short_answer _ false (by decide)

theorem send_yields {request : NetDiskRequest} (hdown : (request.opType.toNat : Int) ≠ MsgType.download.toInt) :
    (Send fl request .empty).Yields (Complete request) :=
  (dispatch_yields fl request _ hdown).bind fun _ hanswer => setBody_complete request hanswer

theorem send_download {request : NetDiskRequest} (hdown : (request.opType.toNat : Int) = MsgType.download.toInt) :
    Send fl request .empty = .pure (setRequest request .empty) := by
  have hup : (request.opType.toNat : Int) ≠ MsgType.upload.toInt := by
    rw [hdown]
    decide
  unfold Send dispatch
  rw [if_neg hup, if_pos hdown]
  rfl

theorem send_upload {request : NetDiskRequest} (hup : (request.opType.toNat : Int) = MsgType.upload.toInt) {σ : Type}
    (h : Handler Sys Sys.Res σ) (s : σ) :
    ((Send fl request .empty).run h s).2 = ((Do fl request .empty).run h s).2 ∧
    ((Send fl request .empty).run h s).1.res = ((Do fl request .empty).run h s).1.res := by
  have hrun : (Send fl request .empty).run h s =
      (setBody ((Do fl request (setRequest request .empty)).run h s).1,
        ((Do fl request (setRequest request .empty)).run h s).2) := by
    unfold Send dispatch
    rw [if_pos hup, run_bind]
    rfl
  rw [hrun, setBody_res, Do_run fl request _ .empty]
  exact ⟨rfl, rfl⟩

end NetDiskServiceImpl

/-! ## The call as it looks to both sides -/

namespace Rpc

open NetDiskServiceImpl

variable {υ σ : Type} {F : Format υ}

section
variable (hmax : 64 ≤ F.maxSize) (h : Handler Sys Sys.Res σ) (fl : Flags) {request : NetDiskRequest}
  (hfits : request.Fits F) (s : σ)
include hmax hfits

theorem receive_eq (hdown : (request.opType.toNat : Int) ≠ MsgType.download.toInt) :
    receive F h fl (PartialRequest.InternalSerialize F ⟨request.toPartial, []⟩) s =
      (some (NetDiskResponse.InternalSerialize F ⟨((Send fl request .empty).run h s).1, []⟩),
        ((Send fl request .empty).run h s).2) ∧
    NetDiskResponse.ofText F (NetDiskResponse.InternalSerialize F ⟨((Send fl request .empty).run h s).1, []⟩) =
      some ((Send fl request .empty).run h s).1 := by
  have hc := Yields.run (send_yields fl hdown) h s
  unfold receive
  rw [NetDiskRequest.ofText_serialize hfits]
  dsimp only
  rw [if_pos hc.initialized]
  refine ⟨rfl, NetDiskResponse.ofText_serialize ⟨fun name hname => ?_, fun body hbody => ?_⟩ hc.initialized⟩
  · cases hc.fileName_eq.symm.trans hname
    exact hfits.fileName
  · exact Nat.le_trans (Yields.run (send_short fl request) h s body hbody) hmax

/-- The wire changes neither a request nor an answer: the client gets what `Send` gives it, and nothing for a download. -/
theorem call_eq : call F h fl request s =
    (if (request.opType.toNat : Int) = MsgType.download.toInt then none
      else some ((Send fl request .empty).run h s).1, ((Send fl request .empty).run h s).2) := by
  unfold call
  by_cases hdown : (request.opType.toNat : Int) = MsgType.download.toInt
  · unfold receive
    rw [NetDiskRequest.ofText_serialize hfits, if_pos hdown]
    dsimp only
    rw [send_download fl hdown]
    rfl
  · obtain ⟨hreceive, hresponse⟩ := receive_eq hmax h fl hfits s hdown
    rw [hreceive, if_neg hdown]
    exact congrArg (·, ((Send fl request .empty).run h s).2) hresponse

end

theorem call_bob : (call Base128.format (Machine.exec .bare 0) .short (TwoParts.request "bob" 0 "a") TwoParts.world).1 =
    some ((Send .short (TwoParts.request "bob" 0 "a") .empty).run (Machine.exec .bare 0) TwoParts.world).1 := by
  have hfits : (TwoParts.request "bob" 0 "a").Fits Base128.format := by
    refine ⟨?_, ?_, ?_, ?_, ?_⟩ <;> decide
  exact congrArg Prod.fst (call_eq (by decide) (Machine.exec .bare 0) .short hfits TwoParts.world)

end Rpc

end NetDisk
