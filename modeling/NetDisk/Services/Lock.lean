import NetDisk.Lib.Mutex
import NetDisk.Order
import NetDisk.Services.Kept

/-!
# The mutex of `SignMap`

Whatever the calls are, whatever goes wrong with them and in whatever order they come: `SignMap` is written under the
mutex only, by one thread at a time, and no thread waits for the mutex for ever.
-/

namespace NetDisk.Services

open Machine UploadRpc RegisterView Prog FileSys Mmysql

/-- The statement inserts a file or counts a link. -/
def WritesSigns (cmd : Bytes) : Prop := ascii "INSERT INTO SignMap" <+: cmd ∨ ascii "UPDATE SignMap" <+: cmd

theorem writes_insert (sign fileName : Bytes) : WritesSigns (insertSignCmd sign fileName) := by
  have hcmd : ascii "INSERT INTO SignMap" <+: ascii "INSERT INTO SignMap (sign, fileName, reference) VALUES('" := by
    decide
  exact Or.inl (by simp only [insertSignCmd, List.append_assoc]; exact hcmd.trans (List.prefix_append ..))

theorem writes_update (sign : Bytes) : WritesSigns (updateSignCmd sign) := by
  have hcmd : ascii "UPDATE SignMap" <+: ascii "UPDATE SignMap Set reference = reference + 1 where sign = '" := by
    decide
  exact Or.inr (by simp only [updateSignCmd, List.append_assoc]; exact hcmd.trans (List.prefix_append ..))

/-- Texts that begin in different ways. -/
def Differ (p q : Bytes) : Prop := ¬p <+: q ∧ ¬q <+: p

theorem Differ.not_prefix {p q : Bytes} (h : Differ p q) (rest : Bytes) : ¬p <+: q ++ rest := fun hp =>
  (List.prefix_or_prefix_of_prefix hp (List.prefix_append q rest)).elim h.1 h.2

theorem not_writes {q : Bytes} (hi : Differ (ascii "INSERT INTO SignMap") q) (hu : Differ (ascii "UPDATE SignMap") q)
    (rest : Bytes) : ¬WritesSigns (q ++ rest) := fun h => h.elim (hi.not_prefix rest) (hu.not_prefix rest)

theorem not_writes_select (sign : Bytes) : ¬WritesSigns (selectSignCmd sign) := by
  simp only [selectSignCmd, List.append_assoc]
  exact not_writes ⟨by decide, by decide⟩ ⟨by decide, by decide⟩ _

theorem not_writes_usr (usr : Bytes) : ¬WritesSigns (usrNotExistCmd usr) := by
  simp only [usrNotExistCmd, List.append_assoc]
  exact not_writes ⟨by decide, by decide⟩ ⟨by decide, by decide⟩ _

theorem not_writes_register (usr passwd : Bytes) : ¬WritesSigns (insertUsrCmd usr passwd) := by
  simp only [insertUsrCmd, List.append_assoc]
  exact not_writes ⟨by decide, by decide⟩ ⟨by decide, by decide⟩ _

namespace Load

variable {ρ ι : Type} {S : Load ρ ι}

/-! ## It is a lock -/

theorem failed_locked (f : Fault) (env : Env) (tid : Nat) {op : Sys} (hl : op ≠ .lock) (hu : op ≠ .unlock) (w : World) :
    (failed f env tid op w).2.locked = w.locked := by
  cases op with
  | lock => exact absurd rfl hl
  | unlock => exact absurd rfl hu
  | write fd buf => exact exec_locked env tid w (show Sys.write fd (buf.take f.written) ≠ .lock by simp) (by simp)
  | shell cmd =>
    simp only [failed]
    split
    · exact exec_locked env tid w (show Sys.shell cmd ≠ .lock by simp) (by simp)
    · rfl
  | _ => rfl

variable (S) in
def mutex : Lock S.sched where
  lock := .lock
  unlock := .unlock
  inside op := ∃ cmd, op = .query cmd ∧ WritesSigns cmd
  held s := s.world.locked
  ne := by simp
  inside_ne := by
    rintro op ⟨cmd, rfl, -⟩
    simp
  ready_lock s h := by simp [sched, ready, h]
  lock_ready s h := by simpa [sched, ready] using h
  ready_other _ _ h := Machine.ready_other h
  held_lock i s := faulty_spec (Q := fun _ w => w.locked = true) rfl fun _ _ => rfl
  held_unlock i s := faulty_spec (Q := fun _ w => w.locked = false) rfl fun _ _ => rfl
  held_other i op s hl hu := faulty_spec (Q := fun _ w => w.locked = s.world.locked) (exec_locked _ _ _ hl hu)
    fun _ f => failed_locked f _ _ hl hu _
  ok _ _ _ := trivial

/-! ## Every call keeps to it -/

/-- Neither the mutex, nor what is kept under it. -/
def Apart : Sys → Prop
  | .lock | .unlock => False
  | .query cmd => ¬WritesSigns cmd
  | _ => True

theorem Apart.outside {op : Sys} (h : Apart op) : S.mutex.Outside op := by
  refine ⟨?_, ?_, ?_⟩
  · rintro rfl
    exact h
  · rintro rfl
    exact h
  · rintro ⟨cmd, rfl, hcmd⟩
    exact h hcmd

section
variable {α β : Type}

/-- The program ends without the mutex when it starts without it. -/
def Neat (S : Load ρ ι) (p : Code α) : Prop := S.mutex.Guards false false p

theorem neat_of_uses {p : Code α} (h : p.Uses Apart) : Neat S p :=
  Phased.of_uses h fun _ h => .outside h.outside false

theorem neat_pure (a : α) : Neat S (.pure a : Code α) := rfl

theorem Neat.bind {p : Code α} {f : α → Code β} (hp : Neat S p) (hf : ∀ a, Neat S (f a)) : Neat S (p >>= f) :=
  Phased.seq hp hf

theorem Neat.ite {c : Prop} [Decidable c] {p q : Code α} (hp : Neat S p) (hq : Neat S q) :
    Neat S (if c then p else q) :=
  Phased.ite hp hq

end

/-- In the order of its operations, an upload has the mutex in one phase. -/
theorem turns_mutex {r : NetDiskRequest} {op : Sys} {x y : Order.Phase} (h : Order.Turns S.fl r op x y) :
    S.mutex.Turns op (decide (x = .locked)) (decide (y = .locked)) := by
  cases h with
  | check hx =>
    have hout : S.mutex.Outside (md5SumOp S.fl r) := Apart.outside trivial
    rcases hx with rfl | rfl <;> exact .outside hout false
  | list =>
    have hout : S.mutex.Outside (lsDirOp S.fl r) := Apart.outside trivial
    exact .outside hout false
  | move =>
    have hout : S.mutex.Outside (mvOp S.fl r) := Apart.outside trivial
    exact .outside hout false
  | read hx =>
    have hout : S.mutex.Outside (selectOp r) := Apart.outside (not_writes_select r.fileSign)
    rcases hx with rfl | rfl <;> exact .outside hout false
  | lock => exact .lock
  | @write cmd hcmd =>
    have hwrites : WritesSigns cmd := by
      rcases hcmd with rfl | rfl
      · exact writes_insert ..
      · exact writes_update ..
    exact .inside ⟨cmd, rfl, hwrites⟩
  | unlock => exact .unlock
  | other hop =>
    refine .outside (Apart.outside ?_) _
    cases op <;> first | exact trivial | exact absurd hop id

theorem Do_neat (r : NetDiskRequest) (response : NetDiskResponse) : Neat S (Do S.fl r response) := by
  have hends : Order.Ends S.fl r .start (Do S.fl r response) := Order.Do_ends response
  refine hends.map (fun x => decide (x = .locked)) (fun _ _ _ => turns_mutex) fun y hy => ?_
  exact decide_eq_false hy

theorem Send_neat (r : NetDiskRequest) (response : NetDiskResponse) : Neat S (NetDiskServiceImpl.Send S.fl r response) := by
  refine Neat.bind ?_ fun _ => neat_pure _
  exact Neat.ite (Do_neat r _) (Neat.ite (neat_pure _) (neat_pure _))

theorem mkdir_uses (dirName : Bytes) : (FileSys.mkdir dirName).Uses Apart :=
  Uses.bind (Uses.lift trivial) fun _ => Uses.ite .pure .pure

theorem runQuery_uses {cmd : Bytes} (h : ¬WritesSigns cmd) : (runQuery cmd).Uses Apart :=
  Uses.bind (Uses.lift h) fun _ => Uses.ite .pure .pure

theorem regist_uses (fl : Flags) (usr passwd : Bytes) : (regist fl usr passwd).Uses Apart := by
  unfold regist usrNotExist insertUsr createUsrDir
  refine Uses.bind (Uses.bind (runQuery_uses (not_writes_usr usr)) fun _ => Uses.ite .pure ?_) fun _ => ?_
  · refine Uses.bind (Uses.lift trivial) fun row => ?_
    cases row <;> exact .pure
  refine Uses.ite .pure (Uses.ite .pure ?_)
  refine Uses.bind (Uses.bind (runQuery_uses (not_writes_register usr passwd)) fun _ => Uses.ite .pure .pure) fun _ => ?_
  refine Uses.ite .pure (Uses.bind (Uses.bind (mkdir_uses _) fun _ => Uses.ite .pure .pure) fun _ => ?_)
  exact Uses.ite .pure .pure

theorem respond_uses (j : Jsoncpp ρ) (fd : Int) (val : Json ρ) (msg : Bytes) : (respond j fd val msg).Uses Apart := by
  unfold respond
  split
  · exact .pure
  · exact Uses.bind (Uses.bind (Uses.lift trivial) fun _ => .pure) fun _ => .pure

theorem Control_uses (j : Jsoncpp ρ) (fl : Flags) (msg : Bytes) (fd : Int) : (Control.Process j fl msg fd).Uses Apart := by
  unfold Control.Process
  split
  · exact respond_uses ..
  split
  · exact .pure
  split
  · split
    · exact .pure
    · unfold RegisterView.Process
      split
      · exact .pure
      · exact Uses.bind (regist_uses ..) fun _ => respond_uses ..
  · exact respond_uses ..

theorem code_neat (call : Call) : Neat S (call.code S.j S.fl) := by
  cases call with
  | send r => exact Neat.bind (Send_neat r _) fun _ => neat_pure _
  | control msg fd => exact Neat.bind (neat_of_uses (Control_uses ..)) fun _ => neat_pure _

/-! ## All calls together -/

section
variable [DecidableEq ι] {s : Faulty} (hs : s.world.locked = false) {d : Pool Faulty ι Sys Sys.Res Reply}
  (hrun : Pool.Runs S.sched (S.start s) d)
include hs

theorem start_holds : S.mutex.Holds none (S.start s) := .start hs fun _ => code_neat _

include hrun

/-- The mutex is locked as often as it is unlocked, but for one thread when it is taken; each statement that writes
`SignMap` is run by that thread. -/
theorem exclusive : (∃ holder : Option ι, d.hist.state.world.locked = holder.isSome ∧
      ∀ i, d.hist.trace.count (i, .lock) = d.hist.trace.count (i, .unlock) + if holder = some i then 1 else 0) ∧
    ∀ before i cmd later, d.hist.trace = before ++ (i, .query cmd) :: later → WritesSigns cmd →
      ∀ k, before.count (k, .lock) = before.count (k, .unlock) + if i = k then 1 else 0 := by
  obtain ⟨holder, hd, hcounts, hexclusive⟩ := (start_holds hs).counts rfl hrun
  refine ⟨⟨holder, hd.held, hcounts⟩, fun before i cmd later htrace hcmd k => ?_⟩
  refine (hexclusive before i (.query cmd) later htrace ⟨cmd, rfl, hcmd⟩ k).trans ?_
  simp only [Option.some.injEq]
  rfl

/-- From any point of any run, all of any number of calls can still be run to their ends. -/
theorem all_can_end (threads : List ι) : ∃ e, Pool.Runs S.sched d e ∧ ∀ i ∈ threads, ∃ reply, e.thread i = .pure reply := by
  obtain ⟨holder, hd⟩ := (start_holds hs).runs hrun
  exact hd.finishable threads

/-- Whatever the order: no run of finitely many calls goes on for ever, and where none can go on, all have ended. -/
theorem all_end [Finite ι] :
    (∀ run : Nat → Pool Faulty ι Sys Sys.Res Reply, ∃ n, ¬Pool.Step S.sched (run n) (run (n + 1))) ∧
    ((∀ e, ¬Pool.Step S.sched d e) → ∀ i, ∃ reply, d.thread i = .pure reply) := by
  obtain ⟨holder, hd⟩ := (start_holds hs).runs hrun
  exact ⟨Pool.ends, hd.ended⟩

end

/-- Bob's file is inserted under the mutex. -/
theorem exclusive_bob : ∃ e before later, Pool.Runs Bob.setup.sched (Bob.setup.start Bob.state) e ∧
    e.hist.trace = before ++ (false, .query (insertSignCmd Bob.request.fileSign Bob.request.fileName)) :: later ∧
    before.count (false, .lock) = before.count (false, .unlock) + 1 := by
  have hplay : ((Pool.play Bob.setup.sched Bob.any (List.replicate 4 true ++ List.replicate 18 false)
      (Bob.setup.start Bob.state)).map fun e =>
        decide ((false, .query (insertSignCmd Bob.request.fileSign Bob.request.fileName)) ∈ e.hist.trace)) = some true := by
    decide +kernel
  obtain ⟨e, he, hmem⟩ := Pool.play_shows (fun _ _ _ _ => trivial) _ _ _ _ hplay
  obtain ⟨before, later, htrace⟩ := List.append_of_mem (of_decide_eq_true hmem)
  exact ⟨e, before, later, he, htrace, (exclusive rfl he).2 before false _ later htrace (writes_insert ..) false⟩

theorem all_can_end_bob : ∃ e, Pool.Runs Bob.setup.sched (Bob.setup.start Bob.state) e ∧
    ∀ i, ∃ reply, e.thread i = .pure reply := by
  have hplay : ((Pool.play Bob.setup.sched Bob.any Bob.before (Bob.setup.start Bob.state)).map fun _ => ()) = some () := by
    decide +kernel
  obtain ⟨d, hd, -⟩ := Pool.play_shows (fun _ _ _ _ => trivial) _ _ _ _ hplay
  obtain ⟨e, he, hends⟩ := all_can_end rfl hd [false, true]
  exact ⟨e, hd.trans he, fun i => hends i (by cases i <;> simp)⟩

/-- Both calls are at their ends. -/
theorem all_end_bob : ∃ e, Pool.Runs Bob.setup.sched (Bob.setup.start Bob.state) e ∧
    ∀ i, ∃ reply, e.thread i = .pure reply := by
  obtain ⟨e, he, hends⟩ := (start_holds (S := Bob.setup.toLoad) (s := Bob.state) rfl).finishable [false, true]
  refine ⟨e, he, (all_end rfl he).2 fun e' hstep => ?_⟩
  cases hstep with
  | @run i op k hthread _ _ =>
    obtain ⟨reply, hreply⟩ := hends i (by cases i <;> simp)
    cases hreply.symm.trans hthread

end Load

end NetDisk.Services
