import NetDisk.Linking

/-!
# One connection for all calls

All threads have the same connection: it holds one result, and refuses a query until that result is fetched.
The mutex is held for the `INSERT` and the `UPDATE`, but not from the `SELECT` to its fetch.
-/

namespace NetDisk

open Machine UploadRpc FileSys Mmysql Prog

namespace Shared

/-- The connection is number 0. -/
def shared (env : Env) : Prog.Handler Sys Sys.Res World
  | .query cmd, w => if w.pending 0 ≠ none then (false, w) else exec env 0 (.query cmd) w
  | op, w => exec env 0 op w

theorem shared_query_fs (env : Env) (cmd : Bytes) (w : World) : (shared env (.query cmd) w).2.fs = w.fs := by
  simp only [shared, exec]
  split
  · rfl
  · split <;> rfl

def isQuery : Sys → Bool
  | .query _ => true
  | _ => false

section
variable (env : Env) (fl : Flags)

def link (r : NetDiskRequest) : Sys := .symlink (cStr (fileDir fl r)) (cStr (linkPath fl r))

def select (r : NetDiskRequest) : Sys := .query (selectSignCmd r.fileSign)

/-- What the `SELECT` finds. -/
def result (db : DB) (r : NetDiskRequest) : Option Row :=
  ((sql env db (selectSignCmd r.fileSign)).bind Prod.snd).bind List.head?

/-- What follows a `SELECT` that has found `row`. -/
def writeCmd (r : NetDiskRequest) (row : Option Row) : Bytes :=
  if row = none then insertSignCmd r.fileSign r.fileName else updateSignCmd r.fileSign

/-- The call gets past its `symlink`. -/
def Links (fs : FS) (r : NetDiskRequest) : Prop :=
  (Machine.symlink env fs (cStr (fileDir fl r)) (cStr (linkPath fl r))).1 ∈ [none, some .eexist]

instance (fs : FS) (r : NetDiskRequest) : Decidable (Links env fl fs r) := inferInstanceAs (Decidable (_ ∈ _))

def linked (fs : FS) (r : NetDiskRequest) : FS :=
  (Machine.symlink env fs (cStr (fileDir fl r)) (cStr (linkPath fl r))).2

/-- A connection with no result to be fetched. -/
def idle (w : World) : World := { w with pending := fun _ => none }

variable {k : Nat} (request : Fin k → NetDiskRequest) (w : World)

def sched : Sched World (Fin k) Sys Sys.Res where
  handler _ := shared env
  ready := Machine.ready
  ok _ _ _ := True

/-- All calls at their start, from the state `w`. -/
def start : Pool World (Fin k) Sys Sys.Res Int := ⟨⟨[], idle w⟩, fun i => Linking.linkCall fl (request i)⟩

/-- The state after a part of the run. -/
abbrev ran (trace : List (Fin k × Sys)) : World := (sched env).ran (idle w) trace

/-- Each fetch comes after the call's own `SELECT`, with no other query in between, and gives what that found; and
each call writes as its own `SELECT` found, which is whether the sign has a row. -/
structure OwnAnswers (trace : List (Fin k × Sys)) : Prop where
  fetched : ∀ before i later, trace = before ++ (i, .fetch) :: later →
    ∃ a b, before = a ++ (i, select (request i)) :: b ∧ (∀ e ∈ b, isQuery e.2 = false) ∧
      (shared env .fetch (ran env w before)).1 = result env (ran env w a).db (request i)
  written : ∀ before i cmd later, trace = before ++ (i, .query cmd) :: later → cmd ≠ selectSignCmd (request i).fileSign →
    ∃ a b, before = a ++ (i, select (request i)) :: b ∧
      cmd = writeCmd (request i) (result env (ran env w a).db (request i)) ∧
      (SqlText.litSafe (request i).fileSign = true →
        (result env (ran env w a).db (request i) = none ↔ (ran env w a).db.refs (request i).fileSign = none))

/-- Two calls both get past their `symlink`. -/
def TwoLink : Prop :=
  ∃ i i', i ≠ i' ∧ Links env fl w.fs (request i) ∧ Links env fl (linked env fl w.fs (request i)) (request i')

/-! ## What each call promises -/

/-- At some point of the run, the call got past its `symlink`. -/
def Passed (i : Fin k) (trace : List (Fin k × Sys)) : Prop :=
  ∃ a b, trace = a ++ (i, link fl (request i)) :: b ∧ Links env fl (ran env w a).fs (request i)

/-- The call has made its `SELECT`, and no query has followed. -/
def Selected (i : Fin k) (t : Hist World (Fin k) Sys) : Prop :=
  ∃ a b, t.trace = a ++ (i, select (request i)) :: b ∧ (∀ e ∈ b, isQuery e.2 = false) ∧
    (t.state.pending 0).bind List.head? = result env (ran env w a).db (request i)

/-- The call has read `row`. -/
def Read (i : Fin k) (row : Option Row) (trace : List (Fin k × Sys)) : Prop :=
  ∃ a b, trace = a ++ (i, select (request i)) :: b ∧ row = result env (ran env w a).db (request i)

def Promise (t : Hist World (Fin k) Sys) (i : Fin k) : Sys → Prop
  | .symlink target path => .symlink target path = link fl (request i) ∧ ∀ op, (i, op) ∉ t.trace
  | .query cmd => Passed env fl request w i t.trace ∧
      (cmd = selectSignCmd (request i).fileSign ∨ ∃ row, Read env request w i row t.trace ∧ cmd = writeCmd (request i) row)
  | .fetch => Passed env fl request w i t.trace ∧ Selected env request w i t
  | .lock | .unlock => True
  | _ => False

structure Inv (t : Hist World (Fin k) Sys) : Prop where
  state_eq : (sched env).From (idle w) t
  /-- As long as no call has got past its `symlink`, there is no new link. -/
  fs_none : (∀ i, ¬ Passed env fl request w i t.trace) → t.state.fs = w.fs
  fs_passed : ∀ i, Passed env fl request w i t.trace →
    Links env fl w.fs (request i) ∧ t.state.fs = linked env fl w.fs (request i)
  alone : ∀ i i', Passed env fl request w i t.trace → Passed env fl request w i' t.trace → i = i'
  queries : ∀ e ∈ t.trace, isQuery e.2 = true → Passed env fl request w e.1 t.trace
  idle : (∀ e ∈ t.trace, isQuery e.2 = false) → t.state.pending 0 = none

end

/-! ## What holds all along -/

section
variable {env : Env} {fl : Flags} {k : Nat} {request : Fin k → NetDiskRequest} {w : World}

theorem passed_append {i i' : Fin k} {op : Sys} {trace : List (Fin k × Sys)} :
    Passed env fl request w i (trace ++ [(i', op)]) ↔
      Passed env fl request w i trace ∨
        (i' = i ∧ op = link fl (request i) ∧ Links env fl (ran env w trace).fs (request i)) := by
  constructor
  · rintro ⟨a, b, h, hlinks⟩
    rcases (sched env).split_after (t := ⟨trace, w⟩) h with ⟨rfl, he⟩ | ⟨b', h⟩
    · obtain ⟨rfl, rfl⟩ := Prod.mk.inj he
      exact Or.inr ⟨rfl, rfl, hlinks⟩
    · exact Or.inl ⟨a, b', h, hlinks⟩
  · rintro (⟨a, b, rfl, hlinks⟩ | ⟨rfl, rfl, hlinks⟩)
    · exact ⟨a, b ++ [(i', op)], by simp, hlinks⟩
    · exact ⟨trace, [], rfl, hlinks⟩

theorem result_eq_none {r : NetDiskRequest} (db : DB) (hs : SqlText.litSafe r.fileSign = true) :
    result env db r = none ↔ db.refs r.fileSign = none := by
  have hsql : sql env db (selectSignCmd r.fileSign) =
      some (db, some ((db.signMap.filter (·.sign = r.fileSign)).map SignRow.columns)) :=
    sql_of_read (Stmt.read_selectSignCmd hs)
  unfold result
  rw [hsql, Option.bind_some, Option.bind_some, List.head?_map, List.head?_filter, DB.refs]
  simp

theorem linked_of_not_links {fs : FS} {r : NetDiskRequest} (h : ¬ Links env fl fs r) : linked env fl fs r = fs := by
  unfold Links at h
  unfold linked
  unfold Machine.symlink at h ⊢
  by_cases htarget : cStr (fileDir fl r) = []
  · rw [if_pos htarget]
  rw [if_neg htarget] at h ⊢
  split at h
  · rfl
  · rename_i p _
    by_cases hnew : fs.CanPut p ∧ fs.node p = none
    · rw [dif_pos hnew] at h ⊢
      split at h
      · exact absurd List.mem_cons_self h
      · rename_i hslash
        rw [if_neg hslash]
    · rw [dif_neg hnew]

theorem not_passed_of_fresh {i : Fin k} {trace : List (Fin k × Sys)} (h : ∀ op, (i, op) ∉ trace) :
    ¬ Passed env fl request w i trace := by
  rintro ⟨a, b, rfl, _⟩
  exact h _ (List.mem_append_right _ List.mem_cons_self)

section
variable {t : Hist World (Fin k) Sys} (hinv : Inv env fl request w t)
include hinv

theorem inv_other {i : Fin k} {op : Sys} (hpass : isQuery op = true → Passed env fl request w i t.trace)
    (hop : op ≠ link fl (request i)) (hfs : (shared env op t.state).2.fs = t.state.fs)
    (hidle : isQuery op = false → t.state.pending 0 = none → (shared env op t.state).2.pending 0 = none) :
    Inv env fl request w ((sched env).after t i op) := by
  have hsame : ∀ i', Passed env fl request w i' (t.trace ++ [(i, op)]) ↔ Passed env fl request w i' t.trace := by
    intro i'
    rw [passed_append, or_iff_left]
    rintro ⟨rfl, h, _⟩
    exact hop h
  refine ⟨hinv.state_eq.after i op, ?_, ?_, ?_, ?_, ?_⟩
  · intro h
    exact hfs.trans (hinv.fs_none fun i' hp => h i' ((hsame i').mpr hp))
  · intro i' hp
    obtain ⟨hlinks, heq⟩ := hinv.fs_passed i' ((hsame i').mp hp)
    exact ⟨hlinks, hfs.trans heq⟩
  · intro i' i'' hp hp'
    exact hinv.alone i' i'' ((hsame i').mp hp) ((hsame i'').mp hp')
  · intro e he hq
    refine (hsame e.1).mpr ?_
    rcases List.mem_append.mp he with he | he
    · exact hinv.queries e he hq
    · rw [List.mem_singleton.mp he] at hq ⊢
      exact hpass hq
  · intro h
    refine hidle (h (i, op) (List.mem_append_right _ (List.mem_singleton.mpr rfl))) (hinv.idle fun e he => ?_)
    exact h e (List.mem_append_left _ he)

section
variable (hone : ¬ TwoLink env fl request w)
include hone

theorem none_passed {i : Fin k} (hfresh : ∀ op, (i, op) ∉ t.trace) (hlinks : Links env fl t.state.fs (request i)) :
    ∀ i', ¬ Passed env fl request w i' t.trace := by
  intro i' hpassed
  obtain ⟨hlinks', hfs⟩ := hinv.fs_passed i' hpassed
  refine hone ⟨i', i, ?_, hlinks', hfs ▸ hlinks⟩
  rintro rfl
  exact not_passed_of_fresh hfresh hpassed

theorem inv_link {i : Fin k} (hfresh : ∀ op, (i, op) ∉ t.trace) :
    Inv env fl request w ((sched env).after t i (link fl (request i))) := by
  have hfs : ((sched env).after t i (link fl (request i))).state.fs = linked env fl t.state.fs (request i) := rfl
  have hran : (ran env w t.trace).fs = t.state.fs := congrArg World.fs hinv.state_eq.symm
  have hidle : (∀ e ∈ t.trace ++ [(i, link fl (request i))], isQuery e.2 = false) →
      ((sched env).after t i (link fl (request i))).state.pending 0 = none := by
    intro h
    exact hinv.idle fun e he => h e (List.mem_append_left _ he)
  have hqueries : ∀ e ∈ t.trace ++ [(i, link fl (request i))], isQuery e.2 = true →
      Passed env fl request w e.1 (t.trace ++ [(i, link fl (request i))]) := by
    intro e he hq
    rcases List.mem_append.mp he with he | he
    · exact passed_append.mpr (Or.inl (hinv.queries e he hq))
    · rw [List.mem_singleton.mp he] at hq
      exact absurd hq Bool.false_ne_true
  by_cases hlinks : Links env fl t.state.fs (request i)
  · -- It is the first one.
    have hnone := none_passed hinv hone hfresh hlinks
    have hbase := hinv.fs_none hnone
    have honly : ∀ i', Passed env fl request w i' (t.trace ++ [(i, link fl (request i))]) → i' = i := by
      intro i' hp
      rcases passed_append.mp hp with hp | ⟨h, _⟩
      · exact absurd hp (hnone i')
      · exact h.symm
    refine ⟨hinv.state_eq.after i _, ?_, ?_, ?_, hqueries, hidle⟩
    · intro h
      exact absurd (passed_append.mpr (Or.inr ⟨rfl, rfl, hran ▸ hlinks⟩)) (h i)
    · intro i' hp
      rw [honly i' hp, hfs, hbase]
      exact ⟨hbase ▸ hlinks, rfl⟩
    · intro i' i'' hp hp'
      rw [honly i' hp, honly i'' hp']
  · have hsame : ∀ i', Passed env fl request w i' (t.trace ++ [(i, link fl (request i))]) →
        Passed env fl request w i' t.trace := by
      intro i' hp
      rcases passed_append.mp hp with hp | ⟨rfl, _, h⟩
      · exact hp
      · exact absurd (hran ▸ h) hlinks
    have hkeep := linked_of_not_links hlinks
    refine ⟨hinv.state_eq.after i _, ?_, ?_, ?_, hqueries, hidle⟩
    · intro h
      rw [hfs, hkeep]
      exact hinv.fs_none fun i' hp => h i' (passed_append.mpr (Or.inl hp))
    · intro i' hp
      rw [hfs, hkeep]
      exact hinv.fs_passed i' (hsame i' hp)
    · intro i' i'' hp hp'
      exact hinv.alone i' i'' (hsame i' hp) (hsame i'' hp')

theorem inv_after (i : Fin k) (op : Sys) (hop : Promise env fl request w t i op) :
    Inv env fl request w ((sched env).after t i op) := by
  unfold Promise at hop
  split at hop
  · rw [hop.1]
    exact inv_link hinv hone hop.2
  · rename_i cmd
    exact inv_other hinv (fun _ => hop.1) (by simp [link]) (shared_query_fs env cmd t.state) fun h => absurd h (by simp [isQuery])
  · refine inv_other hinv (fun h => absurd h (by simp [isQuery])) (by simp [link]) rfl fun _ _ => ?_
    simp only [shared, exec, Function.update_self]
  · exact inv_other hinv (fun h => absurd h (by simp [isQuery])) (by simp [link]) rfl fun _ h => h
  · exact inv_other hinv (fun h => absurd h (by simp [isQuery])) (by simp [link]) rfl fun _ h => h
  · exact absurd hop not_false

end

end

variable (env fl request w) in
def proto (hone : ¬ TwoLink env fl request w) : Proto World (Fin k) Sys Sys.Res where
  toSched := sched env
  inv := Inv env fl request w
  promise := Promise env fl request w
  inv_after _ i op hinv _ _ hop := inv_after hinv hone i op hop

/-! ## Each call among the others -/

section
variable {hone : ¬ TwoLink env fl request w} {i : Fin k}

theorem fresh_stable : (proto env fl request w hone).Stable i fun t => ∀ op, (i, op) ∉ t.trace := by
  intro t i' op hi' _ _ _ _ h op' hmem
  rcases List.mem_append.mp hmem with hmem | hmem
  · exact h op' hmem
  · exact hi' (Prod.mk.inj (List.mem_singleton.mp hmem)).1.symm

/-- While one call is past its `symlink`, the others leave the connection alone. -/
theorem others_calm {t : Hist World (Fin k) Sys} {i' : Fin k} {op : Sys} (hinv : Inv env fl request w t) (hi' : i' ≠ i)
    (hpassed : Passed env fl request w i t.trace) (hop : Promise env fl request w t i' op) :
    isQuery op = false ∧ (shared env op t.state).2.pending = t.state.pending := by
  unfold Promise at hop
  split at hop
  · exact ⟨rfl, rfl⟩
  · exact absurd (hinv.alone i' i hop.1 hpassed) hi'
  · exact absurd (hinv.alone i' i hop.1 hpassed) hi'
  · exact ⟨rfl, rfl⟩
  · exact ⟨rfl, rfl⟩
  · exact absurd hop not_false

/-- The call can make its `SELECT`. -/
def Ready (env : Env) (fl : Flags) (request : Fin k → NetDiskRequest) (w : World) (i : Fin k)
    (t : Hist World (Fin k) Sys) : Prop :=
  Passed env fl request w i t.trace ∧ (∀ e ∈ t.trace, isQuery e.2 = false) ∧ t.state.pending 0 = none

theorem ready_stable : (proto env fl request w hone).Stable i (Ready env fl request w i) := by
  rintro t i' op hi' hinv _ _ hop ⟨hpassed, hquiet, hnone⟩
  obtain ⟨hq, hpending⟩ := others_calm hinv hi' hpassed hop
  refine ⟨passed_append.mpr (Or.inl hpassed), ?_, ?_⟩
  · intro e he
    rcases List.mem_append.mp he with he | he
    · exact hquiet e he
    · rw [List.mem_singleton.mp he]
      exact hq
  · exact (congrFun hpending 0).trans hnone

theorem selected_stable : (proto env fl request w hone).Stable i fun t =>
    Passed env fl request w i t.trace ∧ Selected env request w i t := by
  rintro t i' op hi' hinv _ _ hop ⟨hpassed, a, b, htrace, hquiet, hrows⟩
  obtain ⟨hq, hpending⟩ := others_calm hinv hi' hpassed hop
  refine ⟨passed_append.mpr (Or.inl hpassed), a, b ++ [(i', op)], ?_, ?_, ?_⟩
  · change t.trace ++ [(i', op)] = _
    rw [htrace]
    simp
  · intro e he
    rcases List.mem_append.mp he with he | he
    · exact hquiet e he
    · rw [List.mem_singleton.mp he]
      exact hq
  · rw [← hrows]
    exact congrArg (fun rows => (rows 0).bind List.head?) hpending

theorem read_append {row : Option Row} {trace : List (Fin k × Sys)} (h : Read env request w i row trace)
    (e : Fin k × Sys) : Read env request w i row (trace ++ [e]) := by
  obtain ⟨a, b, rfl, hrow⟩ := h
  exact ⟨a, b ++ [e], by simp, hrow⟩

theorem link_sat {t : Hist World (Fin k) Sys} (hfresh : ∀ op, (i, op) ∉ t.trace) :
    (proto env fl request w hone).Sat i (fun rt t => rt = 0 → Ready env fl request w i t)
      (FileSys.link (fileDir fl (request i)) (linkPath fl (request i))) t := by
  refine Proto.Sat.once ?_ fresh_stable hfresh (fun rt => Proto.Stable.imp fun _ => ready_stable) ?_
  · intro err
    split <;> exact ⟨_, rfl⟩
  · intro t hinv _ _ hfresh
    refine ⟨⟨rfl, hfresh⟩, ?_⟩
    intro hrt
    have hran : ran env w t.trace = t.state := hinv.state_eq.symm
    have hlinks : Links env fl t.state.fs (request i) := by
      by_contra h
      have herr : (Machine.symlink env t.state.fs (cStr (fileDir fl (request i))) (cStr (linkPath fl (request i)))).1 ≠ none ∧
          (Machine.symlink env t.state.fs (cStr (fileDir fl (request i))) (cStr (linkPath fl (request i)))).1 ≠
            some .eexist := by simpa [Links] using h
      rw [lift_bind, run_call, if_pos] at hrt
      · simp at hrt
      · exact herr
    have hnone := none_passed hinv hone hfresh hlinks
    have hquiet : ∀ e ∈ t.trace, isQuery e.2 = false := by
      intro e he
      by_contra hq
      exact hnone e.1 (hinv.queries e he (by simpa using hq))
    refine ⟨passed_append.mpr (Or.inr ⟨rfl, rfl, hran ▸ hlinks⟩), ?_, hinv.idle hquiet⟩
    intro e he
    rcases List.mem_append.mp he with he | he
    · exact hquiet e he
    · rw [List.mem_singleton.mp he]
      rfl

theorem select_sat {t : Hist World (Fin k) Sys} (hready : Ready env fl request w i t) :
    (proto env fl request w hone).Sat i
      (fun rt t => rt = 0 → Passed env fl request w i t.trace ∧ Selected env request w i t)
      (runQuery (selectSignCmd (request i).fileSign)) t := by
  refine Proto.Sat.once ?_ ready_stable hready (fun rt => Proto.Stable.imp fun _ => selected_stable) ?_
  · intro ok
    split <;> exact ⟨_, rfl⟩
  · rintro t hinv _ _ ⟨hpassed, _, hnone⟩
    refine ⟨⟨hpassed, Or.inl rfl⟩, ?_⟩
    intro hrt
    have hran : ran env w t.trace = t.state := hinv.state_eq.symm
    refine ⟨passed_append.mpr (Or.inl hpassed), t.trace, [], rfl, by simp, ?_⟩
    rw [hran]
    unfold result
    cases hsql : sql env t.state.db (selectSignCmd (request i).fileSign) with
    | none =>
      have hreply : (shared env (select (request i)) t.state).1 = false := by
        simp only [select, shared, hnone, exec, hsql, ne_eq, not_true_eq_false, if_false]
      rw [lift_bind, run_call, if_neg] at hrt
      · simp at hrt
      · exact fun h => Bool.false_ne_true (hreply.symm.trans h)
    | some out =>
      obtain ⟨db, rows⟩ := out
      have hstate : ((sched env).after t i (select (request i))).state =
          { t.state with db := db, pending := Function.update t.state.pending 0 rows } := by
        change (shared env (select (request i)) t.state).2 = _
        simp only [select, shared, hnone, exec, hsql, ne_eq, not_true_eq_false, if_false]
      change (((sched env).after t i (select (request i))).state.pending 0).bind List.head? = _
      rw [hstate]
      simp only [Function.update_self, Option.bind_some]

theorem fetch_sat {t : Hist World (Fin k) Sys} (hpassed : Passed env fl request w i t.trace)
    (hsel : Selected env request w i t) :
    (proto env fl request w hone).Sat i
      (fun row t => Passed env fl request w i t.trace ∧ Read env request w i row t.trace) fetchRes t := by
  refine Proto.Sat.lift selected_stable ⟨hpassed, hsel⟩ ?_ ?_
  · intro row t i' op _ _ _ _ _ h
    exact ⟨passed_append.mpr (Or.inl h.1), read_append h.2 _⟩
  · rintro t _ _ _ ⟨hpassed, hsel⟩
    refine ⟨⟨hpassed, hsel⟩, passed_append.mpr (Or.inl hpassed), ?_⟩
    obtain ⟨a, b, htrace, _, hrows⟩ := hsel
    refine ⟨a, b ++ [(i, .fetch)], ?_, hrows⟩
    change t.trace ++ [(i, .fetch)] = _
    rw [htrace]
    simp

theorem write_sat {t : Hist World (Fin k) Sys} {row : Option Row} (hpassed : Passed env fl request w i t.trace)
    (hread : Read env request w i row t.trace) :
    (proto env fl request w hone).Sat i (fun _ t => Passed env fl request w i t.trace ∧ Read env request w i row t.trace)
      (lockedQuery (writeCmd (request i) row)) t := by
  have huses : (lockedQuery (writeCmd (request i) row)).Uses
      fun op => op = .lock ∨ op = .unlock ∨ op = .query (writeCmd (request i) row) := by
    unfold lockedQuery runQuery
    refine Uses.bind (Uses.lift (Or.inl rfl)) fun _ => ?_
    refine Uses.bind (Uses.bind (Uses.lift (Or.inr (Or.inr rfl))) fun _ => Uses.ite .pure .pure) fun _ => ?_
    exact Uses.bind (Uses.lift (Or.inr (Or.inl rfl))) fun _ => Uses.ite .pure .pure
  refine Proto.Sat.uses huses ?_ ?_ ?_ ⟨hpassed, hread⟩
  · rintro t op ⟨hpassed, hread⟩ (rfl | rfl | rfl)
    · trivial
    · trivial
    · exact ⟨hpassed, Or.inr ⟨row, hread, rfl⟩⟩
  · intro t i' op _ _ _ _ _ h
    exact ⟨passed_append.mpr (Or.inl h.1), read_append h.2 _⟩
  · intro t op h
    exact ⟨passed_append.mpr (Or.inl h.1), read_append h.2 _⟩

theorem call_sat {t : Hist World (Fin k) Sys} (hinv : Inv env fl request w t) (hfresh : ∀ op, (i, op) ∉ t.trace) :
    (proto env fl request w hone).Sat i (fun _ _ => True) (Linking.linkCall fl (request i)) t := by
  have hend : ∀ {rt : Int} {t : Hist World (Fin k) Sys},
      (proto env fl request w hone).Sat i (fun _ _ => True) (.pure rt) t := by
    intro rt t
    exact Proto.Sat.pure (P := fun _ => True) Proto.Stable.const trivial fun _ _ _ => trivial
  unfold Linking.linkCall linkToUsr
  refine Proto.Sat.bind (link_sat hfresh) hinv fun rt t hinv hready => ?_
  split
  · exact hend
  · rename_i hrt
    refine Proto.Sat.bind (select_sat (hready (not_not.mp hrt))) hinv fun rt t hinv hsel => ?_
    split
    · exact hend
    · rename_i hrt
      obtain ⟨hpassed, hsel⟩ := hsel (not_not.mp hrt)
      refine Proto.Sat.bind (fetch_sat hpassed hsel) hinv fun row t _ h => ?_
      obtain ⟨hpassed, hread⟩ := h
      cases row with
      | none => exact (write_sat hpassed hread).weaken fun _ _ _ _ => trivial
      | some row => exact (write_sat hpassed hread).weaken fun _ _ _ _ => trivial

end

variable (env fl request w) in
/-- As long as no two calls get past their `symlink`, each has the connection for itself. -/
theorem own_answers (hone : ¬ TwoLink env fl request w) {d : Pool World (Fin k) Sys Sys.Res Int}
    (hr : Pool.Runs (sched env) (start fl request w) d) : OwnAnswers env request w d.hist.trace := by
  have hnone : ∀ i, ¬ Passed env fl request w i (start fl request w).hist.trace :=
    fun i => not_passed_of_fresh fun op => List.not_mem_nil
  have hstart : Inv env fl request w (start fl request w).hist :=
    ⟨rfl, fun _ => rfl, fun i h => absurd h (hnone i), fun i _ h => absurd h (hnone i),
      fun e he => absurd he List.not_mem_nil, fun _ => rfl⟩
  obtain ⟨-, hkept⟩ := (proto env fl request w hone).kept hr rfl hstart fun i =>
    call_sat hstart fun op => List.not_mem_nil
  constructor
  · intro before i later h
    obtain ⟨_, a, b, htrace, hquiet, hrows⟩ := hkept before i .fetch later h
    exact ⟨a, b, htrace, hquiet, hrows⟩
  · intro before i cmd later h hcmd
    obtain ⟨_, hsel | ⟨row, ⟨a, b, htrace, rfl⟩, rfl⟩⟩ := hkept before i (.query cmd) later h
    · exact absurd hsel hcmd
    · exact ⟨a, b, htrace, rfl, result_eq_none _⟩

/-! ## Two calls past their `symlink` -/

/-- What a call does once it has made its `SELECT`. -/
def afterSelect (r : NetDiskRequest) (ok : Bool) : Code Int :=
  if ok = true then do
    let row ← fetchRes
    match row with
    | none => addSignMap r.fileSign r.fileName
    | some _ => lockedQuery (updateSignCmd r.fileSign)
  else
    return -1

/-- What a call does once it has made its `symlink`. -/
def afterLink (r : NetDiskRequest) (err : Option Errno) : Code Int :=
  if err ≠ none ∧ err ≠ some .eexist then return -1 else countLink r.fileSign r.fileName

theorem linkCall_eq (r : NetDiskRequest) : Linking.linkCall fl r = .call (link fl r) (afterLink r) := by
  unfold Linking.linkCall linkToUsr FileSys.link
  rw [bind_assoc']
  refine congrArg (Prog.call (link fl r)) (funext fun err => ?_)
  unfold afterLink
  change ((if err ≠ none ∧ err ≠ some .eexist then .pure (-1) else .pure 0 : Code Int) >>= _) = _
  split <;> rfl

theorem countLink_eq (r : NetDiskRequest) : countLink r.fileSign r.fileName = .call (select r) (afterSelect r) := by
  unfold countLink runQuery
  rw [bind_assoc']
  refine congrArg (Prog.call (select r)) (funext fun ok => ?_)
  cases ok <;> rfl

theorem afterLink_eq {r : NetDiskRequest} {err : Option Errno} (h : err ∈ [none, some .eexist]) :
    afterLink r err = .call (select r) (afterSelect r) := by
  unfold afterLink
  rw [if_neg, countLink_eq]
  rintro ⟨hne, hne'⟩
  rcases List.mem_pair.mp h with rfl | rfl
  · exact hne rfl
  · exact hne' rfl

theorem afterSelect_eq (r : NetDiskRequest) : ∃ next, afterSelect r true = .call .fetch next := ⟨_, rfl⟩

/-- Both make their `SELECT` before the first one fetches its row. -/
def bothSelect (fl : Flags) (request : Fin k → NetDiskRequest) (i i' : Fin k) : List (Fin k × Sys) :=
  [(i, link fl (request i)), (i', link fl (request i')), (i, select (request i)), (i', select (request i'))]

theorem bothSelect_runs {i i' : Fin k} (hne : i ≠ i')
    (haccept : (sql env w.db (selectSignCmd (request i).fileSign)).isSome = true) (hlinks : Links env fl w.fs (request i))
    (hlinks' : Links env fl (linked env fl w.fs (request i)) (request i')) :
    ∃ d, Pool.Runs (sched env) (start fl request w) d ∧ d.hist.trace = bothSelect fl request i i' ++ [(i, .fetch)] := by
  let π : Sched World (Fin k) Sys Sys.Res := sched env
  let c := start fl request w
  let c1 := c.next π i (link fl (request i)) (afterLink (request i))
  have h0 : c.thread i = .call (link fl (request i)) (afterLink (request i)) := linkCall_eq _
  have hr1 : Pool.Runs π c c1 := .step .start h0 rfl trivial
  have hthread : c1.thread i = .call (select (request i)) (afterSelect (request i)) :=
    (Function.update_self ..).trans (afterLink_eq hlinks)
  have h1 : c1.thread i' = .call (link fl (request i')) (afterLink (request i')) :=
    (Function.update_of_ne hne.symm ..).trans (linkCall_eq _)
  let c2 := c1.next π i' (link fl (request i')) (afterLink (request i'))
  have hr2 : Pool.Runs π c c2 := .step hr1 h1 rfl trivial
  have hthread' : c2.thread i' = .call (select (request i')) (afterSelect (request i')) :=
    (Function.update_self ..).trans (afterLink_eq hlinks')
  have h2 : c2.thread i = .call (select (request i)) (afterSelect (request i)) :=
    (Function.update_of_ne hne ..).trans hthread
  let c3 := c2.next π i (select (request i)) (afterSelect (request i))
  have hr3 : Pool.Runs π c c3 := .step hr2 h2 rfl trivial
  have hreply : (shared env (select (request i)) c2.hist.state).1 = true := by
    obtain ⟨out, hout⟩ := Option.isSome_iff_exists.mp haccept
    have hidle : c2.hist.state.pending 0 = none := rfl
    have hdb : c2.hist.state.db = w.db := rfl
    simp only [select, shared, hidle, exec, hdb, hout, ne_eq, not_true_eq_false, if_false]
  obtain ⟨next, hnext⟩ := afterSelect_eq (request i)
  have hfetch : c3.thread i = .call .fetch next := by
    refine (Function.update_self ..).trans (Eq.trans ?_ hnext)
    exact congrArg (afterSelect (request i)) hreply
  have h3 : c3.thread i' = .call (select (request i')) (afterSelect (request i')) :=
    (Function.update_of_ne hne.symm ..).trans hthread'
  let c4 := c3.next π i' (select (request i')) (afterSelect (request i'))
  have hr4 : Pool.Runs π c c4 := .step hr3 h3 rfl trivial
  have h4 : c4.thread i = .call .fetch next := (Function.update_of_ne hne ..).trans hfetch
  exact ⟨c4.next π i .fetch next, .step hr4 h4 rfl trivial, rfl⟩

/-- The `SELECT` of the other call is between the `SELECT` and the fetch. -/
theorem not_own_answers {i i' : Fin k} (hne : i ≠ i') :
    ¬ OwnAnswers env request w (bothSelect fl request i i' ++ [(i, .fetch)]) := by
  intro h
  obtain ⟨a, b, htrace, hquiet, -⟩ := h.fetched (bothSelect fl request i i') i [] rfl
  rcases List.eq_nil_or_concat b with rfl | ⟨b, last, rfl⟩
  · have hlast := congrArg List.getLast? htrace
    rw [List.getLast?_concat] at hlast
    exact hne (Prod.mk.inj (Option.some.inj hlast)).1.symm
  · have hlast := congrArg List.getLast? htrace
    have hlist : a ++ (i, select (request i)) :: b.concat last = (a ++ (i, select (request i)) :: b) ++ [last] := by simp
    rw [hlist, List.getLast?_concat] at hlast
    have hq := hquiet last (by simp)
    rw [← Option.some.inj hlast] at hq
    exact Bool.false_ne_true hq.symm

end

/-! ### Two calls -/

end Shared

end NetDisk
