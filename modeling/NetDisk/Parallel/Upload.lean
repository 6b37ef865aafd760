import NetDisk.Parallel.Moving
import NetDisk.Parallel.Waiting
import NetDisk.Publish

/-!
# The upload of all parts at the same time

Of the calls that list the directory once every part has a file, a second one waits for the `mv` of
the first; and the `mv` waits until every call has checked its part. Then the parts are moved once,
complete and checked, and counted once, and every call succeeds.
-/

namespace NetDisk.Parallel

open Machine UploadRpc FileSys Mmysql Prog

section
variable {fl : Flags} {u s : Name} {n : Nat} {request : Fin n → NetDiskRequest} (env : Env)
  (hp : Parts u s request) {i : Fin n} {k : Nat} {qs : List Path} {t : Calls n}

/-! ## The reference -/

theorem link_sat (hmem : [u, FILES] ∈ qs) (ht : Moves fl u s i qs none t) :
    (calls hp fl env).Sat i (fun rt t => rt = 0 ∧ Moves fl u s i qs none t)
      (link (fileDir fl (request i)) (linkPath fl (request i))) t := by
  have hmoves : (calls hp fl env).Stable i (Moves fl u s i qs none) := moves_stable env hp none
  have hsource : cStr (fl.filesDir ++ s) = fl.filesDir ++ s := cStr_name fl.files_plain hp.sign_plain
  have hpath := cStr_name (plain_files fl hp.usr_plain) hp.sign_plain
  rw [linkPath_text, fileDir, hp.usr_eq, hp.sign_eq]
  refine Proto.Sat.once ?_ hmoves ht (fun rt => Proto.Stable.const.and hmoves) ?_
  · intro err
    split <;> exact ⟨_, rfl⟩
  · rintro t hinv _ hok ⟨hhas, hrefs⟩
    have hdir := hhas.dirs _ hmem
    have hmine := hhas.marked.moved.mpr (by omega)
    have hrun := (link_ensures env i t.state.db (plain_files fl hp.usr_plain) hp.sign_plain hsource
      (by simp [Flags.filesDir, dirText]) hdir t.state rfl rfl).1
    unfold link at hrun
    rw [hsource, hpath] at hok hrun ⊢
    have hpro : (calls hp fl env).promise t i
        (.symlink (fl.filesDir ++ s) (dirText (fl.usrRoot ++ [u, FILES]) ++ s)) := ⟨rfl, rfl, hdir, i, hmine⟩
    exact ⟨hpro, hrun, has_same env hp hinv hok hpro (not_mem_marks rfl) hhas, hrefs⟩

/-- There is no row, and the call has still to fetch that. -/
def Reads (fl : Flags) (u s : Name) (i : Fin n) (qs : List Path) (t : Calls n) : Prop :=
  Moves fl u s i qs none t ∧ (t.state.pending i).bind List.head? = none

theorem reads_stable : (calls hp fl env).Stable i (Reads fl u s i qs) := by
  rintro t j op hj hinv hready hok hpro ⟨hmoves, hpending⟩
  have hother : (i : Nat) ≠ j := fun h => hj (Fin.ext h).symm
  refine ⟨moves_stable env hp none t j op hj hinv hready hok hpro hmoves, ?_⟩
  have hkept : ((calls hp fl env).after t j op).state.pending i = t.state.pending i :=
    exec_pending env j op t.state hother
  rw [hkept]
  exact hpending

theorem select_sat (ht : Moves fl u s i qs none t) :
    (calls hp fl env).Sat i (fun rt t => rt = 0 ∧ Reads fl u s i qs t) (runQuery (selectSignCmd s)) t := by
  unfold runQuery
  refine Proto.Sat.once ?_ (moves_stable env hp none) ht (fun rt => Proto.Stable.const.and (reads_stable env hp)) ?_
  · intro ok
    split <;> exact ⟨_, rfl⟩
  · rintro t hinv _ hok ⟨hhas, hrefs⟩
    have hpro : (calls hp fl env).promise t i (.query (selectSignCmd s)) :=
      ⟨hhas.marked.moved.mpr (by omega), Or.inl rfl⟩
    obtain ⟨rows, hexec, hnone⟩ := exec_select env hp.sign_plain.litSafe i t.state
    have hstate : ((calls hp fl env).after t i (.query (selectSignCmd s))).state = _ := congrArg Prod.snd hexec
    refine ⟨hpro, runQuery_zero env i (congrArg Prod.fst hexec),
      ⟨has_same env hp hinv hok hpro (not_mem_marks rfl) hhas, ?_⟩, ?_⟩
    · rw [hstate]
      exact hrefs
    · rw [hstate]
      dsimp only
      rw [Function.update_self]
      exact hnone.mpr hrefs

theorem fetch_sat (ht : Reads fl u s i qs t) :
    (calls hp fl env).Sat i (fun row t => row = none ∧ Moves fl u s i qs none t) fetchRes t := by
  unfold fetchRes
  refine Proto.Sat.lift (reads_stable env hp) ht (fun row => Proto.Stable.const.and (moves_stable env hp none)) ?_
  rintro t hinv _ hok ⟨⟨hhas, hrefs⟩, hpending⟩
  have hpro : (calls hp fl env).promise t i .fetch := trivial
  exact ⟨hpro, hpending, has_same env hp hinv hok hpro (not_mem_marks rfl) hhas, hrefs⟩

theorem insert_sat (ht : Moves fl u s i qs none t) :
    (calls hp fl env).Sat i (fun rt t => rt = 0 ∧ Moves fl u s i qs (some 1) t)
      (runQuery (insertSignCmd s (request i).fileName)) t := by
  have hmoves : ∀ x, (calls hp fl env).Stable i (Moves fl u s i qs x) := moves_stable env hp
  unfold runQuery
  refine Proto.Sat.once ?_ (hmoves none) ht (fun rt => Proto.Stable.const.and (hmoves (some 1))) ?_
  · intro ok
    split <;> exact ⟨_, rfl⟩
  · rintro t hinv _ hok ⟨hhas, hrefs⟩
    have hpro : (calls hp fl env).promise t i (.query (insertSignCmd s (request i).fileName)) :=
      ⟨hhas.marked.moved.mpr (by omega), Or.inr ⟨rfl, hrefs⟩⟩
    obtain ⟨name, hread⟩ := hp.one_row i
    obtain ⟨db, hq, -, hcount⟩ := insertRow_spec env hread hrefs
    obtain ⟨rows, hexec⟩ := exec_query env i hq
    have hstate : ((calls hp fl env).after t i (.query (insertSignCmd s (request i).fileName))).state = _ :=
      congrArg Prod.snd hexec
    refine ⟨hpro, runQuery_zero env i (congrArg Prod.fst hexec),
      has_same env hp hinv hok hpro (not_mem_marks rfl) hhas, ?_⟩
    rw [hstate, hcount s, if_pos rfl, hrefs]
    rfl

theorem mutex_sat {op : Sys} (hop : op = .lock ∨ op = .unlock) (x : Option Nat) (ht : Moves fl u s i qs x t) :
    (calls hp fl env).Sat i (fun _ t => Moves fl u s i qs x t) (sys op) t := by
  refine Proto.Sat.lift (moves_stable env hp x) ht (fun _ => moves_stable env hp x) ?_
  rintro t hinv _ hok ⟨hhas, hrefs⟩
  rcases hop with rfl | rfl
  · have hpro : (calls hp fl env).promise t i .lock := trivial
    exact ⟨hpro, has_same env hp hinv hok hpro (not_mem_marks rfl) hhas, hrefs⟩
  · have hpro : (calls hp fl env).promise t i .unlock := trivial
    exact ⟨hpro, has_same env hp hinv hok hpro (not_mem_marks rfl) hhas, hrefs⟩

theorem addSignMap_sat (hinv : (calls hp fl env).inv t) (ht : Moves fl u s i qs none t) :
    (calls hp fl env).Sat i (fun rt t => rt = 0 ∧ Moves fl u s i qs (some 1) t)
      (addSignMap s (request i).fileName) t := by
  unfold addSignMap lockedQuery
  refine Proto.Sat.bind (mutex_sat env hp (Or.inl rfl) none ht) hinv ?_
  intro _ t hinv ht
  refine Proto.Sat.bind (insert_sat env hp ht) hinv ?_
  rintro rt t hinv ⟨rfl, ht⟩
  refine Proto.Sat.bind (mutex_sat env hp (Or.inr rfl) (some 1) ht) hinv ?_
  intro _ t _ ht
  rw [if_neg (by simp)]
  exact Proto.Sat.pure (moves_stable env hp (some 1)) ht fun t _ ht => ⟨rfl, ht⟩

theorem linkToUsr_sat (hmem : [u, FILES] ∈ qs) (hinv : (calls hp fl env).inv t) (ht : Moves fl u s i qs none t) :
    (calls hp fl env).Sat i (fun rt t => rt = 0 ∧ Moves fl u s i qs (some 1) t)
      (linkToUsr (fileDir fl (request i)) (linkPath fl (request i)) (request i).fileSign (request i).fileName) t := by
  unfold linkToUsr
  refine Proto.Sat.bind (link_sat env hp hmem ht) hinv ?_
  rintro rt t hinv ⟨rfl, ht⟩
  rw [if_neg (by simp), hp.sign_eq]
  refine Proto.Sat.bind (select_sat env hp ht) hinv ?_
  rintro rt t hinv ⟨rfl, ht⟩
  rw [if_neg (by simp)]
  refine Proto.Sat.bind (fetch_sat env hp ht) hinv ?_
  rintro row t hinv ⟨rfl, ht⟩
  exact addSignMap_sat env hp hinv ht

/-! ## The whole call -/

/-- The call has listed the directory; if it has found all parts there, they are moved, and the call that has
moved them has counted the reference. -/
structure Ended (fl : Flags) (u s : Name) (i : Fin n) (t : Calls n) : Prop where
  listed : Listed fl u s t.trace i
  moved : Found fl u s t.trace i → Moved fl u s t.trace
  counted : (i, mvOp fl u s) ∈ t.trace → t.state.db.refs s = some 1

variable (response : NetDiskResponse)

theorem publish_sat (hmem : [u, FILES] ∈ qs) (hinv : (calls hp fl env).inv t) (ht : Has fl u s i 3 qs t)
    (hmover : Mover fl u s i t) :
    (calls hp fl env).Sat i (fun response t => response.res = some true ∧ Ended fl u s i t)
      (publish fl (request i) response) t := by
  unfold publish
  refine Proto.Sat.bind (mv_sat env hp ht hmover) hinv ?_
  rintro shellRes t hinv ⟨rfl, ht⟩
  rw [if_neg (by simp)]
  refine Proto.Sat.bind (linkToUsr_sat env hp hmem hinv ht) hinv ?_
  rintro rt t hinv ⟨rfl, ht⟩
  rw [if_neg (by simp)]
  refine Proto.Sat.pure (moves_stable env hp (some 1)) ht ?_
  rintro t _ ⟨hhas, hrefs⟩
  have hmine := hhas.marked.moved.mpr (by omega)
  exact ⟨rfl, hhas.marked.listed.mpr (by omega), fun _ => ⟨i, hmine⟩, fun _ => hrefs⟩

theorem checkArrived_sat (htmp : [u, TMP] ∈ qs) (hfiles : [u, FILES] ∈ qs) (hinv : (calls hp fl env).inv t)
    (ht : Has fl u s i 2 qs t) :
    (calls hp fl env).Sat i (fun response t => response.res = some true ∧ Ended fl u s i t)
      (checkArrived fl (request i) response) t := by
  unfold checkArrived
  refine Proto.Sat.bind (allPartArrived_sat env hp htmp hinv ht) hinv ?_
  rintro arrived t hinv ⟨ht, hknows⟩
  split
  · rename_i h
    exact publish_sat env hp response hfiles hinv ht (hknows.1 h)
  · rename_i h
    refine Proto.Sat.pure ((has_stable env hp).and (knows_stable env hp _)) ⟨ht, hknows⟩ ?_
    rintro t _ ⟨hhas, hknows⟩
    refine ⟨rfl, hhas.marked.listed.mpr (by omega), hknows.2 h, fun hmine => ?_⟩
    exact absurd (hhas.marked.moved.mp hmine) (by omega)

theorem writePart_sat (hsign : [u, TMP, s] ∈ qs) (htmp : [u, TMP] ∈ qs) (hfiles : [u, FILES] ∈ qs)
    (hinv : (calls hp fl env).inv t) (ht : Has fl u s i 0 qs t) :
    (calls hp fl env).Sat i (fun response t => response.res = some true ∧ Ended fl u s i t)
      (writePart fl (request i) response) t := by
  unfold writePart
  refine Proto.Sat.bind (write_sat env hp hsign hinv ht) hinv ?_
  rintro rt t hinv ⟨rfl, ht⟩
  rw [if_neg (by simp)]
  unfold checkSign
  have hsub : [[u, TMP], [u, FILES]] ⊆ qs := by simp [htmp, hfiles]
  refine Proto.Sat.bind (md5Sum_sat env hp hsub (by simp) ht) hinv ?_
  rintro curMd5 t hinv ⟨rfl, ht⟩
  dsimp only
  rw [if_neg (by simp)]
  exact checkArrived_sat env hp response (by simp) (by simp) hinv ht

theorem Do_sat (hinv : (calls hp fl env).inv t) (ht : Has fl u s i 0 [[], [u]] t) :
    (calls hp fl env).Sat i (fun response t => response.res = some true ∧ Ended fl u s i t)
      (Do fl (request i) response) t := by
  have husr := hp.usr_eq i
  unfold Do
  refine Proto.Sat.bind (mkdir_sat env hp .files (by simp) (Or.inl (by rw [usrFiles_text, husr])) ht) hinv ?_
  rintro rt t hinv ⟨rfl, ht⟩
  rw [if_neg (by simp)]
  refine Proto.Sat.bind (existDir_sat env hp ht) hinv ?_
  rintro stored t hinv ⟨rfl, ht⟩
  rw [if_neg (by simp)]
  unfold uploadPart
  refine Proto.Sat.bind (Q := fun made t => made = true ∧
    Has fl u s i 0 [[u, TMP, s], [u, TMP], [u], [u, FILES], [], [u]] t) ?_ hinv ?_
  · unfold makeTmpDirs
    refine Proto.Sat.bind (mkdir_sat env hp .user (by simp) (Or.inl (by rw [husr, List.append_nil]; rfl)) ht) hinv ?_
    rintro rt t hinv ⟨rfl, ht⟩
    rw [if_neg (by simp)]
    refine Proto.Sat.bind (mkdir_sat env hp .tmp (by simp) (Or.inr (by rw [usrUploadDir_text, husr])) ht) hinv ?_
    rintro rt t hinv ⟨rfl, ht⟩
    rw [if_neg (by simp)]
    refine Proto.Sat.bind (mkdir_sat env hp .sign (by simp)
      (Or.inr (by rw [signDir_slash_text, husr, hp.sign_eq])) ht) hinv ?_
    rintro rt t _ ⟨rfl, ht⟩
    exact Proto.Sat.pure (has_stable env hp) ht fun t _ ht => ⟨by simp, ht⟩
  · rintro made t hinv ⟨rfl, ht⟩
    rw [if_pos rfl]
    unfold storePart
    refine Proto.Sat.bind (existFile_sat env hp (by simp) ht) hinv ?_
    rintro exist t hinv ⟨rfl, ht⟩
    rw [if_neg (by simp)]
    exact writePart_sat env hp response (by simp) (by simp) (by simp) hinv ht

end

/-! ## All calls -/

/-- All calls at their start, from the state `w`. -/
def start (fl : Flags) {n : Nat} (request : Fin n → NetDiskRequest) (w : World) :
    Pool World (Fin n) Sys Sys.Res NetDiskResponse := ⟨⟨[], w⟩, fun i => Do fl (request i) .empty⟩

/-- A user with a directory, and nothing of the file yet. -/
structure New (fl : Flags) (u s : Name) (w : World) : Prop where
  shape : Shape fl w.fs
  user : w.fs.node (fl.usrRoot ++ [u]) = some .dir
  fresh : ∀ k, w.fds k ≠ none → k < w.nextFd
  part_none : ∀ m, w.fs.node (fl.usrRoot ++ [u, TMP, s, toString m]) = none
  not_stored : w.fs.node (fl.filesRoot ++ [s]) = none
  no_row : w.db.refs s = none

theorem New.inv {fl : Flags} {u s : Name} {n : Nat} {body : Fin n → Bytes} {w : World} (hw : New fl u s w)
    (hn : 0 < n) : Inv fl u s body ⟨[], w⟩ where
  shape := hw.shape
  user := hw.user
  fresh := hw.fresh
  opened i h := absurd h List.not_mem_nil
  found h := absurd (h ⟨0, hn⟩) List.not_mem_nil
  once := Nat.zero_le 1
  mover i j h := absurd h List.not_mem_nil
  before _ := by
    refine ⟨by simp [Disk.of, hw.not_stored], fun m => ?_, fun i h => absurd h List.not_mem_nil, hw.no_row⟩
    simp [Disk.of, fileAt, hw.part_none, Opened]
  after h := by
    obtain ⟨i, hi⟩ := h
    exact absurd hi List.not_mem_nil

theorem New.has {fl : Flags} {u s : Name} {n : Nat} {w : World} (hw : New fl u s w) (i : Fin n) :
    Has fl u s i 0 [[], [u]] ⟨[], w⟩ := by
  refine ⟨fun m op _ => iff_of_false List.not_mem_nil (Nat.not_lt_zero m), ?_, Or.inl (by omega)⟩
  intro q hq
  simp only [List.mem_cons, List.not_mem_nil, or_false] at hq
  rcases hq with rfl | rfl
  · rw [List.append_nil]
    exact hw.shape.usr_root
  · exact hw.user

/-- The parts are moved at most once, and only when all of them are written and checked. Every call that ends
succeeds; and when all have ended, the file is stored with all its parts, and has one reference. With the mutex free at
the start, all calls can be run to their ends so. -/
theorem moved_once (env : Env) (fl : Flags) {u s : Name} {n : Nat} {request : Fin n → NetDiskRequest} {w : World}
    (hn : 0 < n) (hp : Parts u s request) (hw : New fl u s w) {d : Pool World (Fin n) Sys Sys.Res NetDiskResponse}
    (hr : Pool.Runs (sched fl u s env n) (start fl request w) d) :
    (∀ i next, d.thread i = .call (mvOp fl u s) next → (sched fl u s env n).ok d.hist i (mvOp fl u s) →
      ¬ Moved fl u s d.hist.trace ∧ ∀ j : Fin n, Summed fl u s d.hist.trace j ∧
        d.hist.state.fs.node (fl.usrRoot ++ [u, TMP, s, toString j]) = some (.file (request j).body)) ∧
    (∀ i response, d.thread i = .pure response → response.res = some true) ∧
    ((∀ i, ∃ response, d.thread i = .pure response) →
      d.hist.trace.countP (fun e => e.2 = mvOp fl u s) = 1 ∧ d.hist.state.db.refs s = some 1 ∧
      ∀ i : Fin n, d.hist.state.fs.node (fl.filesRoot ++ [s, toString i]) = some (.file (request i).body)) ∧
    (w.locked = false →
      ∃ e, Pool.Runs (sched fl u s env n) d e ∧ ∀ i, ∃ response, e.thread i = .pure response) := by
  have hinv : (calls hp fl env).inv (start fl request w).hist := hw.inv hn
  have hspec : ∀ {e : Pool World (Fin n) Sys Sys.Res NetDiskResponse},
      Pool.Runs (sched fl u s env n) (start fl request w) e → (calls hp fl env).inv e.hist ∧ ∀ i,
        (calls hp fl env).Sat i (fun response t => response.res = some true ∧ Ended fl u s i t) (e.thread i) e.hist :=
    fun he => Proto.runs (calls hp fl env) he hinv fun i => Do_sat env hp .empty hinv (hw.has i)
  have hvalue : ∀ {e : Pool World (Fin n) Sys Sys.Res NetDiskResponse},
      Pool.Runs (sched fl u s env n) (start fl request w) e → ∀ i response, e.thread i = .pure response →
        response.res = some true ∧ Ended fl u s i e.hist := by
    intro e he i response hi
    obtain ⟨hend, hsat⟩ := hspec he
    have h := hsat i
    rw [hi] at h
    exact h e.hist .refl hend
  obtain ⟨hend, hsat⟩ := hspec hr
  refine ⟨?_, fun i response hi => (hvalue hr i response hi).1, ?_, fun hfree => ?_⟩
  · intro i next hi hok
    have h := hsat i
    rw [hi] at h
    obtain ⟨hpro, _⟩ := h d.hist .refl hend rfl hok
    have hpro' : Promise fl u s (fun i => (request i).body) (fun i => (request i).fileName) d.hist i (mvOp fl u s) :=
      hpro
    obtain ⟨_, hnot⟩ := hpro'.of_mv hp.usr_plain hp.sign_plain
    refine ⟨hnot, fun j => ⟨hok.2 rfl j, ?_⟩⟩
    have hnode := node_part_some ((hend.before hnot).summed j (hok.2 rfl j))
    simpa [signDir] using hnode
  · intro hall
    have hended : ∀ i, Ended fl u s i d.hist := by
      intro i
      obtain ⟨response, hi⟩ := hall i
      exact (hvalue hr i response hi).2
    -- One of the calls has found all parts, and they are moved.
    obtain ⟨i, hfound⟩ := hend.found fun i => (hended i).listed
    have hmoved := (hended i).moved hfound
    obtain ⟨j, hj⟩ := hmoved
    refine ⟨le_antisymm hend.once ?_, (hended j).counted hj, fun m => ?_⟩
    · rw [Nat.one_le_iff_ne_zero, ← Nat.pos_iff_ne_zero, List.countP_pos_iff]
      exact ⟨_, hj, by simp⟩
    · exact Disk.store_eq_some.mp ((hend.after ⟨j, hj⟩).store m)
  · refine Pool.completes (fun e he hstuck => ?_) hr
    have hphased : Pool.Phased (fun i => Order.Turns fl (request i)) (· ≠ .locked) (fun _ => .start)
        (start fl request w) := fun i => Order.Do_ends .empty
    have hfits : ∀ i : Fin n, Fits fl u s .start [] i :=
      fun i => ⟨fun h => absurd h List.not_mem_nil, fun _ h => absurd h List.not_mem_nil, by simp, by simp⟩
    have htells : Tells fl u s (fun _ => .start) (start fl request w).hist :=
      ⟨fun h => absurd (hfree.symm.trans h) (by simp), hfits⟩
    obtain ⟨phase, hphased, htells⟩ := hphased.runs (I := Tells fl u s) htells
      (fun _ _ _ _ _ h hturn => tells_step env hp h hturn) he
    refine ended_of_stuck env hp hphased htells (fun i response hi => ?_) hstuck
    have hended := (hvalue he i response hi).2
    exact ⟨hended.listed, hended.moved⟩

/-! ### Two parts -/

namespace Two

open TwoParts (first second)

def request (i : Fin 2) : NetDiskRequest :=
  if i = first then TwoParts.request "bob" 0 "a" else TwoParts.request "bob" 1 "b"

theorem parts : Parts (ascii "bob") TwoParts.sign request where
  usr_plain := by decide +kernel
  sign_plain := by decide +kernel
  usr_eq := by decide
  sign_eq := by decide +kernel
  shard_eq := by decide
  index_eq := by decide
  digest_eq := by decide +kernel
  count_lt := by decide
  body_nul := by decide
  body_length := by decide
  one_row i := by
    have hname : (request i).fileName = ascii "ab.txt" := by revert i; decide
    rw [hname]
    exact TwoParts.one_row

theorem new : New .short (ascii "bob") TwoParts.sign TwoParts.world where
  shape := (EmptyDirs.start _ _).shape
  user := by decide
  fresh k h := absurd rfl h
  part_none m := (EmptyDirs.start _ _).usr_none (by simp)
  not_stored := (EmptyDirs.start _ _).files_none (by simp)
  no_row := rfl

/-- Both check their parts; the first one lists and moves before the second one lists. -/
def inTurn : List (Fin 2) := List.replicate 10 first ++ List.replicate 10 second ++ List.replicate 8 first ++ [second]

/-- Both list all parts before either moves them. -/
def bothList : List (Fin 2) :=
  List.replicate 10 first ++ List.replicate 10 second ++ [first, second] ++ List.replicate 7 first ++
    List.replicate 7 second

def allowed (t : Calls 2) (_ : Fin 2) (op : Sys) : Bool :=
  let ran (op : Sys) := t.trace.any fun e => e.2 = op
  (op ≠ listOp .short (ascii "bob") TwoParts.sign ∨ ran (mvOp .short (ascii "bob") TwoParts.sign) ∨
    ¬ ran (listOp .short (ascii "bob") TwoParts.sign)) ∧
  (op ≠ mvOp .short (ascii "bob") TwoParts.sign ∨
    ∀ j : Fin 2, t.trace.any fun e => e = (j, sumOp .short (ascii "bob") TwoParts.sign j))

theorem allowed_ok (t : Calls 2) (i : Fin 2) (op : Sys) (h : allowed t i op = true) :
    (sched .short (ascii "bob") TwoParts.sign .bare 2).ok t i op := by
  obtain ⟨hlist, hmv⟩ := of_decide_eq_true h
  refine ⟨fun hop _ => ?_, fun hop j => ?_⟩
  · rcases hlist.resolve_left fun hne => hne hop with hmoved | hnone
    · obtain ⟨⟨j, op'⟩, hmem, he⟩ := List.any_eq_true.mp hmoved
      obtain rfl := of_decide_eq_true he
      exact Or.inl ⟨j, hmem⟩
    · refine Or.inr fun j hfound => hnone (List.any_eq_true.mpr ⟨_, hfound.listed, by simp⟩)
  · obtain ⟨e, hmem, he⟩ := List.any_eq_true.mp (hmv.resolve_left (fun hne => hne hop) j)
    rwa [of_decide_eq_true he] at hmem

end Two

theorem moved_once_two : ∃ d : Pool World (Fin 2) Sys Sys.Res NetDiskResponse,
    Pool.Runs (sched .short (ascii "bob") TwoParts.sign .bare 2) (start .short Two.request TwoParts.world) d ∧
      (∀ i, ∃ response, d.thread i = .pure response ∧ response.res = some true) ∧
      d.hist.state.db.refs TwoParts.sign = some 1 := by
  obtain ⟨d, hr, hd⟩ := Pool.play_shows Two.allowed_ok Two.inTurn (start .short Two.request TwoParts.world)
    (fun d i => (d.thread i).value.isSome) (fun _ => true) (by decide +kernel)
  have hall : ∀ i, ∃ response, d.thread i = .pure response := by
    intro i
    obtain ⟨response, hvalue⟩ := Option.isSome_iff_exists.mp (congrFun hd i)
    exact ⟨response, eq_pure_of_value hvalue⟩
  obtain ⟨_, hres, hend, _⟩ := moved_once .bare .short (by decide) Two.parts Two.new hr
  refine ⟨d, hr, fun i => ?_, (hend hall).2.1⟩
  obtain ⟨response, hi⟩ := hall i
  exact ⟨response, hi, hres i response hi⟩

/-- Both calls find all parts: both run the `mv`, and both count a reference. -/
theorem moved_twice : ¬ ∀ d : Pool World (Fin 2) Sys Sys.Res NetDiskResponse,
    Pool.Runs (sched .short (ascii "bob") TwoParts.sign .bare 2).free (start .short Two.request TwoParts.world) d →
    (∀ i, ∃ response, d.thread i = .pure response) →
      d.hist.trace.countP (fun e => e.2 = mvOp .short (ascii "bob") TwoParts.sign) = 1 ∧
      d.hist.state.db.refs TwoParts.sign = some 1 ∧ ∀ i response, d.thread i = .pure response → response.res = some true := by
  intro h
  have hany : ∀ t i op, (fun _ _ _ => true : Calls 2 → Fin 2 → Sys → Bool) t i op = true →
      (sched .short (ascii "bob") TwoParts.sign .bare 2).free.ok t i op := fun _ _ _ _ => trivial
  obtain ⟨d, hr, hd⟩ := Pool.play_shows hany Two.bothList (start .short Two.request TwoParts.world)
    (fun d => (fun i => (d.thread i).value.isSome,
      d.hist.trace.countP (fun e => e.2 = mvOp .short (ascii "bob") TwoParts.sign),
      d.hist.state.db.refs TwoParts.sign)) (fun _ => true, 2, some 2) (by decide +kernel)
  rw [Prod.mk.injEq, Prod.mk.injEq] at hd
  have hall : ∀ i, ∃ response, d.thread i = .pure response := by
    intro i
    obtain ⟨response, hvalue⟩ := Option.isSome_iff_exists.mp (congrFun hd.1 i)
    exact ⟨response, eq_pure_of_value hvalue⟩
  have hone := (h d hr hall).1
  rw [hd.2.1] at hone
  omega

end NetDisk.Parallel
