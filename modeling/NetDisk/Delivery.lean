import NetDisk.Client
import NetDisk.Complete
import NetDisk.Lib.Base128
import NetDisk.Rpc

/-!
# From the client's disk to the server's

Clients upload their files, part by part, over a network that may lose a message, delay it, and bring it more than
once. The server handles one request at a time.
-/

namespace NetDisk

open Wire Machine UploadRpc Server BrpcClient

namespace Delivery

/-! ## The clients -/

/-- A call of `doUploadFile`. -/
structure Job where
  machine : Local
  content : Bytes
  file : Bytes
  usr : Name

def Job.sign (job : Job) : Name := Md5.hexDigest job.content

/-- The number of its parts. -/
def Job.count (job : Job) : Nat := job.content.length / maxSizePerShard + 1

def Job.sent (job : Job) : List NetDiskRequest := (doUploadFile job.machine job.file job.usr).getD []

/-! ## What is uploaded -/

theorem hex32_hexDigest (msg : Bytes) : Hex32 (Md5.hexDigest msg) := by
  have hdigit : ∀ n : Fin 256, isHex (Md5.hexDigit (UInt8.ofNat n.val / 16)) = true ∧
      isHex (Md5.hexDigit (UInt8.ofNat n.val % 16)) = true := by
    decide +kernel
  refine ⟨Md5.length_hexDigest msg, fun c hc => ?_⟩
  obtain ⟨b, -, hb⟩ := List.mem_flatMap.mp hc
  have hboth := hdigit ⟨b.toNat, b.toNat_lt⟩
  rw [UInt8.ofNat_toNat] at hboth
  simp only [List.mem_cons, List.not_mem_nil, or_false] at hb
  rcases hb with rfl | rfl
  · exact hboth.1
  · exact hboth.2

section
variable {υ ι : Type} (F : Format υ) (fl : Flags) (jobs : ι → Job)

/-- Files that the client splits without loss, whose digests do not collide, for users who are there, to a server that has
nothing yet. -/
structure Good (w : World) : Prop where
  md5Sum : ∀ i, (jobs i).machine.md5Sum = some (jobs i).sign
  content : ∀ i, (jobs i).machine.content = some (jobs i).content
  length_lt : ∀ i, (jobs i).content.length < 2147483648
  no_nul : ∀ i, (0 : Byte) ∉ (jobs i).content
  /-- The memory behind each slice starts with a NUL. -/
  ends : ∀ i, ∀ k < (jobs i).count,
    ((jobs i).machine.malloc k).bytes[(slice (jobs i).content k).length]? = some 0
  apart : ∀ i j, (jobs i).sign = (jobs j).sign → (jobs i).content = (jobs j).content
  usr_alnum : ∀ i, Alnum (jobs i).usr
  one_row : ∀ i, Stmt.OneRow (jobs i).sign (jobs i).file
  usr_fits : ∀ i, (jobs i).usr.length ≤ F.maxSize
  name_fits : ∀ i, (jobs i).file.length ≤ F.maxSize
  size : 64 ≤ F.maxSize
  user : ∀ i, w.fs.node (fl.usrRoot ++ [(jobs i).usr]) = some .dir
  empty : EmptyDirs fl w.fs
  rows : w.db.signMap = []

section
variable {jobs}

/-- The request of one round. -/
def Job.request (job : Job) (k : Nat) : NetDiskRequest :=
  partRequest job.file job.usr job.sign (job.count : Int) k (md5 (slice job.content k)) (slice job.content k)

open Classical in
/-- The file of a sign. -/
noncomputable def fileOf (jobs : ι → Job) (s : Name) : Bytes :=
  if h : ∃ i, (jobs i).sign = s then (jobs h.choose).content else []

noncomputable def pieceOf (jobs : ι → Job) (s : Name) (k : Nat) : Bytes := slice (fileOf jobs s) k

noncomputable def countOf (jobs : ι → Job) (s : Name) : Nat := (fileOf jobs s).length / maxSizePerShard + 1

variable {F fl} {w : World} (h : Good F fl jobs w)
include h

theorem Good.sent_eq (i : ι) : (jobs i).sent = (List.range' 0 (jobs i).count).map (jobs i).request := by
  unfold Job.sent
  have hsends : doUploadFile (jobs i).machine (jobs i).file (jobs i).usr =
      some ((List.range' 0 (jobs i).count).map (jobs i).request) := by
    rw [doUploadFile_spec _ _ (h.md5Sum i) (h.content i) (h.length_lt i), List.forall₂_map_right_iff]
    refine List.forall₂_same.mpr fun k hk => ⟨slice (jobs i).content k, ?_, rfl⟩
    rw [buffer, overlay, ofCharPtr_eq (slice_no_nul (h.no_nul i) k), List.head?_drop]
    exact h.ends i k (by
      unfold Job.count
      rw [List.mem_range'_1] at hk
      omega)
  rw [hsends]
  rfl

theorem Good.sent_some {i : ι} {k : Nat} {r : NetDiskRequest} :
    (jobs i).sent[k]? = some r ↔ k < (jobs i).count ∧ r = (jobs i).request k := by
  rw [h.sent_eq i, List.getElem?_map, Option.map_eq_some_iff]
  constructor
  · rintro ⟨k', hk', rfl⟩
    have hlt := (List.getElem?_eq_some_iff.mp hk').1
    rw [List.length_range'] at hlt
    rw [List.getElem?_range' hlt, Nat.zero_add, Nat.one_mul] at hk'
    obtain rfl := Option.some.inj hk'
    exact ⟨hlt, rfl⟩
  · rintro ⟨hlt, rfl⟩
    refine ⟨k, ?_, rfl⟩
    rw [List.getElem?_range' hlt, Nat.zero_add, Nat.one_mul]

theorem Good.length_sent (i : ι) : (jobs i).sent.length = (jobs i).count := by
  rw [h.sent_eq i, List.length_map, List.length_range']

theorem Good.fileOf_sign (i : ι) : fileOf jobs (jobs i).sign = (jobs i).content := by
  have hex : ∃ j, (jobs j).sign = (jobs i).sign := ⟨i, rfl⟩
  unfold fileOf
  rw [dif_pos hex]
  exact h.apart _ _ hex.choose_spec

theorem Good.countOf_sign (i : ι) : countOf jobs (jobs i).sign = (jobs i).count := by
  unfold countOf Job.count
  rw [h.fileOf_sign i]

theorem Good.pieceOf_sign (i : ι) (k : Nat) : pieceOf jobs (jobs i).sign k = slice (jobs i).content k := by
  unfold pieceOf
  rw [h.fileOf_sign i]

theorem Good.count_lt (i : ι) : (jobs i).count < 2147483648 := by
  have hlt := h.length_lt i
  unfold Job.count maxSizePerShard
  omega

theorem Good.fits (i : ι) (k : Nat) : ((jobs i).request k).Fits F := by
  have hsize := h.size
  have hslice : (slice (jobs i).content k).length ≤ 2 := List.length_take_le ..
  refine ⟨?_, h.name_fits i, ?_, h.usr_fits i, Nat.le_trans hslice (by omega)⟩
  · change (md5 (slice (jobs i).content k)).length ≤ _
    rw [md5_eq _ (by omega), Md5.length_hexDigest]
    omega
  · exact Nat.le_trans (Nat.le_of_eq (Md5.length_hexDigest _)) (by omega)

theorem Good.undamaged {i : ι} {k : Nat} (hk : k < (jobs i).count) :
    Undamaged (countOf jobs) (pieceOf jobs) ((jobs i).request k) := by
  have hlt := h.count_lt i
  have hindex : ((jobs i).request k).partIndex.toNat = k := by
    change (UInt32.ofNat k).toNat = k
    rw [UInt32.toNat_ofNat', Nat.mod_eq_of_lt (by omega)]
  have hslice : (slice (jobs i).content k).length ≤ 2 := List.length_take_le ..
  have hpiece := h.pieceOf_sign i k
  refine ⟨h.usr_alnum i, hex32_hexDigest _, ?_, ?_, ?_, ?_, h.one_row i⟩
  · change (UInt32.ofInt ((jobs i).count : Int)).toNat = countOf jobs (jobs i).sign
    rw [h.countOf_sign i, UInt32.ofInt, UInt32.toNat_ofNat']
    omega
  · rw [hindex]
    exact Nat.lt_of_lt_of_eq hk (h.countOf_sign i).symm
  · rw [hindex]
    exact hpiece.symm
  · rw [hindex]
    change md5 (slice (jobs i).content k) = Md5.hexDigest (pieceOf jobs (jobs i).sign k)
    rw [hpiece, md5_eq _ (by omega)]

theorem Good.writable : Writable (countOf jobs) (pieceOf jobs) := by
  have hfile : ∀ s, (0 : Byte) ∉ fileOf jobs s ∧ (fileOf jobs s).length < 2147483648 := by
    intro s
    unfold fileOf
    split
    · rename_i hex
      exact ⟨h.no_nul _, h.length_lt _⟩
    · exact ⟨List.not_mem_nil, Nat.zero_lt_succ _⟩
  refine ⟨fun s => Nat.succ_pos _, fun s => ?_, fun s k _ => slice_no_nul (hfile s).1 k, fun s k _ => ?_⟩
  · have hlt := (hfile s).2
    unfold countOf maxSizePerShard
    omega
  · exact Nat.le_trans (List.length_take_le ..) (by decide)

end

/-! ## The network -/

/-- A message belongs to one round of one client. -/
inductive Message (ι : Type) where
  | request (i : ι) (round : Nat) (text : Bytes)
  | response (i : ι) (round : Nat) (text : Bytes)

structure State (ι : Type) where
  world : World
  /-- All messages so far: each of them may still come, at any time and more than once. -/
  wire : List (Message ι)
  /-- The outcomes of a client's rounds; `none` where `cntl.Failed()`. -/
  done : ι → List (Option NetDiskResponse)

section
variable [DecidableEq ι] (env : Env)

inductive Step : State ι → State ι → Prop where
  /-- The first time, or again. -/
  | send {s : State ι} (i : ι) {r : NetDiskRequest} (h : (jobs i).sent[(s.done i).length]? = some r) :
    Step s { s with wire := .request i (s.done i).length (PartialRequest.InternalSerialize F ⟨r.toPartial, []⟩) :: s.wire }
  | handle {s : State ι} {i : ι} {round : Nat} {text : Bytes} (h : .request i round text ∈ s.wire) :
    Step s { s with
      world := (Rpc.receive F (exec env 0) fl text s.world).2
      wire := ((Rpc.receive F (exec env 0) fl text s.world).1.map (.response i round)).toList ++ s.wire }
  | answered {s : State ι} {i : ι} {text : Bytes} (h : .response i (s.done i).length text ∈ s.wire) :
    Step s { s with done := Function.update s.done i (s.done i ++ [NetDiskResponse.ofText F text]) }
  /-- The client waits no longer, and goes on with the next part. -/
  | failed {s : State ι} (i : ι) (h : (s.done i).length < (jobs i).sent.length) :
    Step s { s with done := Function.update s.done i (s.done i ++ [none]) }

def start (w : World) : State ι := ⟨w, [], fun _ => []⟩

def Reaches : State ι → State ι → Prop := Relation.ReflTransGen (Step F fl jobs env)

end

/-! ## The server's log -/

/-- What the server has handled, and what the others know of it. -/
structure Inv (env : Env) (w : World) (log : List NetDiskRequest) (s : State ι) : Prop where
  sent : ∀ r ∈ log, ∃ (i : ι) (k : Nat), k < (jobs i).count ∧ r = (jobs i).request k
  world : s.world = serve env fl w log
  request : ∀ i k text, .request i k text ∈ s.wire → k < (jobs i).count ∧
    text = PartialRequest.InternalSerialize F ⟨((jobs i).request k).toPartial, []⟩
  response : ∀ i k text, .response i k text ∈ s.wire → k < (jobs i).count ∧ (jobs i).request k ∈ log ∧
    ∃ response, NetDiskResponse.ofText F text = some response ∧ response.res = some true
  done : ∀ i k response, (s.done i)[k]? = some (some response) → response.res = some true ∧ (jobs i).request k ∈ log
  rounds : ∀ i, (s.done i).length ≤ (jobs i).count

section
variable {F fl jobs} {env : Env} {w : World} (h : Good F fl jobs w)
include h

variable (env) in
/-- What comes of a request that arrives, after some that were handled before. -/
theorem receive_spec {log : List NetDiskRequest} (hlog : ∀ r ∈ log, ∃ (i : ι) (k : Nat), k < (jobs i).count ∧
    r = (jobs i).request k) {i : ι} {k : Nat} (hk : k < (jobs i).count) : ∃ response,
      Rpc.receive F (exec env 0) fl (PartialRequest.InternalSerialize F ⟨((jobs i).request k).toPartial, []⟩)
        (serve env fl w log) =
        (some (NetDiskResponse.InternalSerialize F ⟨response, []⟩), serve env fl w (log ++ [(jobs i).request k])) ∧
      NetDiskResponse.ofText F (NetDiskResponse.InternalSerialize F ⟨response, []⟩) = some response ∧
      response.res = some true := by
  have hgood : ∀ r ∈ log ++ [(jobs i).request k], ∃ (i : ι) (k : Nat), k < (jobs i).count ∧ r = (jobs i).request k := by
    intro r hr
    rcases List.mem_append.mp hr with hr | hr
    · exact hlog r hr
    · exact ⟨i, k, hk, List.mem_singleton.mp hr⟩
  have hundamaged : ∀ r ∈ log ++ [(jobs i).request k], Undamaged (countOf jobs) (pieceOf jobs) r := by
    intro r hr
    obtain ⟨j, l, hl, rfl⟩ := hgood r hr
    exact h.undamaged hl
  have huser : ∀ r ∈ log ++ [(jobs i).request k], w.fs.node (fl.usrRoot ++ [r.usr]) = some .dir := by
    intro r hr
    obtain ⟨j, l, hl, rfl⟩ := hgood r hr
    exact h.user j
  have hanswer : ((Do fl ((jobs i).request k) .empty).run (exec env 0) (serve env fl w log)).1.res = some true :=
    serve_answers h.writable h.empty h.rows hundamaged huser log _ List.prefix_rfl
  have hup : (((jobs i).request k).opType.toNat : Int) = MsgType.upload.toInt := rfl
  have hdown : (((jobs i).request k).opType.toNat : Int) ≠ MsgType.download.toInt := by
    rw [hup]
    decide
  obtain ⟨hreceive, htext⟩ := Rpc.receive_eq h.size (exec env 0) fl (h.fits i k) (serve env fl w log) hdown
  obtain ⟨hworld, hres⟩ := NetDiskServiceImpl.send_upload fl hup (exec env 0) (serve env fl w log)
  refine ⟨_, hreceive.trans ?_, htext, hres.trans hanswer⟩
  rw [hworld, serve_append]
  rfl

omit h in
theorem inv_start : Inv F fl jobs env w [] (start w) where
  sent r hr := absurd hr List.not_mem_nil
  world := rfl
  request i k text hmem := absurd hmem List.not_mem_nil
  response i k text hmem := absurd hmem List.not_mem_nil
  done i k response hk := by
    change ([] : List (Option NetDiskResponse))[k]? = _ at hk
    cases hk
  rounds i := Nat.zero_le _

variable [DecidableEq ι]

omit h in
theorem done_cases {done : ι → List (Option NetDiskResponse)} {i j : ι} {o o' : Option NetDiskResponse} {k : Nat}
    (hk : (Function.update done i (done i ++ [o]) j)[k]? = some o') :
    (done j)[k]? = some o' ∨ j = i ∧ k = (done i).length ∧ o' = o := by
  by_cases hj : j = i
  · subst hj
    rw [Function.update_self, List.getElem?_append] at hk
    split at hk
    · exact Or.inl hk
    · obtain ⟨hlt, heq⟩ := List.getElem?_eq_some_iff.mp hk
      rw [List.length_singleton] at hlt
      refine Or.inr ⟨rfl, by omega, ?_⟩
      rw [List.getElem_singleton] at heq
      exact heq.symm
  · rw [Function.update_of_ne hj] at hk
    exact Or.inl hk

omit h in
theorem rounds_update {done : ι → List (Option NetDiskResponse)} {i : ι} {o : Option NetDiskResponse}
    (hrounds : ∀ j, (done j).length ≤ (jobs j).count) (hlt : (done i).length < (jobs i).count) (j : ι) :
    (Function.update done i (done i ++ [o]) j).length ≤ (jobs j).count := by
  by_cases hj : j = i
  · subst hj
    rw [Function.update_self, List.length_append, List.length_singleton]
    exact hlt
  · rw [Function.update_of_ne hj]
    exact hrounds j

theorem inv_step {log : List NetDiskRequest} {s s' : State ι} (hinv : Inv F fl jobs env w log s)
    (hstep : Step F fl jobs env s s') : ∃ log', log <+: log' ∧ Inv F fl jobs env w log' s' := by
  cases hstep with
  | send i hr =>
    obtain ⟨hk, rfl⟩ := (h.sent_some).mp hr
    refine ⟨log, List.prefix_rfl, { hinv with request := ?_, response := ?_ }⟩
    · intro j l text hmem
      rcases List.mem_cons.mp hmem with heq | hmem
      · cases heq
        exact ⟨hk, rfl⟩
      · exact hinv.request j l text hmem
    · intro j l text hmem
      rcases List.mem_cons.mp hmem with heq | hmem
      · cases heq
      · exact hinv.response j l text hmem
  | @handle i k text hmem =>
    obtain ⟨hk, rfl⟩ := hinv.request i k text hmem
    obtain ⟨response, hreceive, htext, hres⟩ := receive_spec env h hinv.sent hk
    refine ⟨log ++ [(jobs i).request k], List.prefix_append .., ?_⟩
    rw [hinv.world, hreceive]
    refine ⟨?_, rfl, ?_, ?_, ?_, hinv.rounds⟩
    · intro r hr
      rcases List.mem_append.mp hr with hr | hr
      · exact hinv.sent r hr
      · exact ⟨i, k, hk, List.mem_singleton.mp hr⟩
    · intro j l text hmem
      rcases List.mem_cons.mp hmem with heq | hmem
      · cases heq
      · exact hinv.request j l text hmem
    · intro j l text hmem
      rcases List.mem_cons.mp hmem with heq | hmem
      · cases heq
        exact ⟨hk, List.mem_append_right _ (List.mem_singleton.mpr rfl), response, htext, hres⟩
      · obtain ⟨hl, hlog, hrest⟩ := hinv.response j l text hmem
        exact ⟨hl, List.mem_append_left _ hlog, hrest⟩
    · intro j l response hdone
      obtain ⟨hres, hlog⟩ := hinv.done j l response hdone
      exact ⟨hres, List.mem_append_left _ hlog⟩
  | @answered i text hmem =>
    obtain ⟨hk, hlog, response, htext, hres⟩ := hinv.response i _ text hmem
    refine ⟨log, List.prefix_rfl, { hinv with done := ?_, rounds := rounds_update hinv.rounds hk }⟩
    intro j l response' hdone
    rcases done_cases hdone with hold | ⟨rfl, rfl, heq⟩
    · exact hinv.done j l response' hold
    · obtain rfl := Option.some.inj (heq.trans htext)
      exact ⟨hres, hlog⟩
  | failed i hlt =>
    rw [h.length_sent] at hlt
    refine ⟨log, List.prefix_rfl, { hinv with done := ?_, rounds := rounds_update hinv.rounds hlt }⟩
    intro j l response' hdone
    rcases done_cases hdone with hold | ⟨rfl, rfl, heq⟩
    · exact hinv.done j l response' hold
    · cases heq

theorem inv_reaches {s : State ι} (hreach : Reaches F fl jobs env (start w) s) :
    ∃ log, Inv F fl jobs env w log s := by
  induction hreach with
  | refl => exact ⟨[], inv_start⟩
  | tail _ hstep ih =>
    obtain ⟨log, hinv⟩ := ih
    obtain ⟨log', -, hinv'⟩ := inv_step h hinv hstep
    exact ⟨log', hinv'⟩

end

/-! ## What is delivered -/

/-- The file's parts, numbered from 0 on, with nothing beside them. -/
def Stored (fl : Flags) (w : World) (job : Job) : Prop :=
  w.fs.node (fl.filesRoot ++ [job.sign]) = some .dir ∧
  ∃ parts : List Bytes, parts.flatten = job.content ∧
    ∀ f n, w.fs.node (fl.filesRoot ++ [job.sign, f]) = some n ↔
      ∃ k part, parts[k]? = some part ∧ f = toString k ∧ n = .file part

/-- All parts have an answer. -/
def Finished (jobs : ι → Job) (s : State ι) (i : ι) : Prop :=
  (s.done i).length = (jobs i).sent.length ∧ none ∉ s.done i

section
variable {F fl jobs} {env : Env} {w : World} (h : Good F fl jobs w)
include h

theorem progress {log : List NetDiskRequest} {s : State ι} (hinv : Inv F fl jobs env w log s) :
    Shape fl s.world.fs ∧
    Disk.Progress (countOf jobs) (pieceOf jobs) (Sent log) (disk fl s.world) s.world.db.refs := by
  obtain ⟨hs, -, hprog⟩ := serve_progress env h.writable h.empty h.rows
    (fun r hr => by
      obtain ⟨j, l, hl, rfl⟩ := hinv.sent r hr
      exact h.undamaged hl)
    (fun r hr => by
      obtain ⟨j, l, hl, rfl⟩ := hinv.sent r hr
      exact h.user j) log List.prefix_rfl
  rw [hinv.world]
  exact ⟨hs, hprog⟩

theorem stored_of_stored {log : List NetDiskRequest} {s : State ι} (hinv : Inv F fl jobs env w log s) {i : ι}
    (hstored : (disk fl s.world).stored (jobs i).sign = true) : Stored fl s.world (jobs i) := by
  obtain ⟨hs, hprog⟩ := progress h hinv
  have hstore : ∀ k, (disk fl s.world).store (jobs i).sign k =
      if k < (jobs i).count then some (slice (jobs i).content k) else none := by
    intro k
    rw [hprog.store_eq _ hstored k, h.countOf_sign i, h.pieceOf_sign i]
  have hpart : ∀ k part, ((List.range' 0 (jobs i).count).map (slice (jobs i).content))[k]? = some part ↔
      (disk fl s.world).store (jobs i).sign k = some part := by
    intro k part
    rw [hstore k, List.getElem?_map]
    by_cases hk : k < (jobs i).count
    · rw [List.getElem?_range' hk, if_pos hk, Nat.zero_add, Nat.one_mul]
      rfl
    · rw [List.getElem?_eq_none (by rw [List.length_range']; omega), if_neg hk]
      rfl
  refine ⟨by simpa [disk, Disk.of] using hstored, _, flatten_all, fun f n => ?_⟩
  constructor
  · intro hn
    obtain ⟨c, k, rfl, rfl⟩ := hs.store_entry _ _ hn
    exact ⟨k, c, (hpart k c).mpr (Disk.store_eq_some.mpr hn), rfl, rfl⟩
  · rintro ⟨k, part, hk, rfl, rfl⟩
    exact Disk.store_eq_some.mp ((hpart k part).mp hk)

theorem stored_of_sent {log : List NetDiskRequest} {s : State ι} (hinv : Inv F fl jobs env w log s) {i : ι}
    (hall : ∀ k < (jobs i).count, (jobs i).request k ∈ log) : (disk fl s.world).stored (jobs i).sign = true ∧
      (disk fl s.world).linked (jobs i).usr (jobs i).sign = true := by
  obtain ⟨-, hprog⟩ := progress h hinv
  have hsent : ∀ k < countOf jobs (jobs i).sign, Sent log (jobs i).usr (jobs i).sign k := by
    intro k hk
    have hlt := h.count_lt i
    rw [h.countOf_sign i] at hk
    refine ⟨_, hall k hk, rfl, rfl, ?_⟩
    change (UInt32.ofNat k).toNat = k
    rw [UInt32.toNat_ofNat', Nat.mod_eq_of_lt (by omega)]
  refine ⟨?_, hprog.linked_all _ _ hsent⟩
  by_contra hno
  obtain ⟨k, hk, hmissing⟩ := hprog.missing (jobs i).usr _ (by simpa using hno)
  exact hmissing (hsent k hk)

variable [DecidableEq ι]

/-- A round in which nothing is lost. -/
theorem round {s : State ι} (hreach : Reaches F fl jobs env (start w) s) {i : ι}
    (hlt : (s.done i).length < (jobs i).count) : ∃ s' response, Reaches F fl jobs env s s' ∧
      s'.done = Function.update s.done i (s.done i ++ [some response]) := by
  have hsent := h.sent_some.mpr ⟨hlt, rfl⟩
  obtain ⟨log, hinv⟩ := inv_reaches h hreach
  obtain ⟨response, hreceive, htext, -⟩ := receive_spec env h hinv.sent hlt
  rw [← hinv.world] at hreceive
  -- The request goes out, comes in, and the response comes back.
  have hsend : Step F fl jobs env s _ := .send i hsent
  have hhandle : Step F fl jobs env { s with wire := _ :: s.wire } _ := .handle
    (List.mem_cons_self (a := Message.request i (s.done i).length
      (PartialRequest.InternalSerialize F ⟨((jobs i).request (s.done i).length).toPartial, []⟩)))
  dsimp only at hhandle
  rw [hreceive] at hhandle
  have hpath := (Relation.ReflTransGen.single hsend).tail hhandle
  exact ⟨_, response, hpath.tail (.answered List.mem_cons_self),
    congrArg (fun o => Function.update s.done i (s.done i ++ [o])) htext⟩

theorem finishable {s : State ι} (hreach : Reaches F fl jobs env (start w) s) {i : ι} (hnone : none ∉ s.done i) :
    ∃ s', Reaches F fl jobs env s s' ∧ Finished jobs s' i ∧ ∀ j, j ≠ i → s'.done j = s.done j := by
  obtain ⟨log, hinv⟩ := inv_reaches h hreach
  generalize hn : (jobs i).count - (s.done i).length = n
  induction n generalizing s log with
  | zero =>
    refine ⟨s, .refl, ⟨?_, hnone⟩, fun j _ => rfl⟩
    have hle := hinv.rounds i
    rw [h.length_sent]
    omega
  | succ n ih =>
    obtain ⟨s1, response, hround, hdone⟩ := round h hreach (i := i) (by omega)
    have hreach1 := hreach.trans hround
    obtain ⟨log1, hinv1⟩ := inv_reaches h hreach1
    have hdone1 : s1.done i = s.done i ++ [some response] := by rw [hdone, Function.update_self]
    obtain ⟨s', hrest, hfinished, hothers⟩ := ih hreach1
      (by
        rw [hdone1]
        simpa using hnone) log1 hinv1
      (by
        rw [hdone1, List.length_append, List.length_singleton]
        omega)
    refine ⟨s', hround.trans hrest, hfinished, fun j hj => ?_⟩
    rw [hothers j hj, hdone, Function.update_of_ne hj]

end

end

/-! ### Two users, one file -/

namespace TwoUsers

def job (usr : String) : Job := ⟨Small.cleared, ascii "abc", ascii "abc.txt", ascii usr⟩

def jobs (bob : Bool) : Job := if bob = true then job "bob" else job "alice"

theorem good : Good Base128.format .short jobs TwoParts.world where
  md5Sum i := by cases i <;> rfl
  content i := by cases i <;> rfl
  length_lt := by decide
  no_nul := by decide
  ends := by decide
  apart := by decide +kernel
  usr_alnum := by decide +kernel
  one_row i := .of_litSafe (hex32_hexDigest _).plain.litSafe (by revert i; decide)
  usr_fits := by decide
  name_fits := by decide
  size := by decide
  user := by decide
  empty := EmptyDirs.start _ _
  rows := rfl

end TwoUsers

end Delivery

end NetDisk
