import NetDisk.Order
import NetDisk.Publish
import NetDisk.Lib.Ending
import Mathlib.Algebra.BigOperators.Fin

/-!
# Linking at the same time

Several calls of `linkToUsr` for one sign, in any order of their operations. The choice between the
`INSERT` and the `UPDATE` is made before the mutex is locked: no reference is lost as long as no call
reads that there is no row while another, which has read the same, has still to write it.
-/

namespace NetDisk

open Machine UploadRpc FileSys Mmysql Prog

namespace Linking

/-- No row, or a row with `n` references. -/
def counted (n : Nat) : Option Nat := if n = 0 then none else some n

theorem countUp_counted (n : Nat) : countUp (counted n) = counted (n + 1) := by
  unfold counted countUp
  cases n <;> rfl

section
variable (env : Env) (fl : Flags) {k : Nat} (s : Name) (request : Fin k → NetDiskRequest)

def linkCall (request : NetDiskRequest) : Code Int :=
  linkToUsr (fileDir fl request) (linkPath fl request) request.fileSign request.fileName

/-- The `SELECT` of every call. -/
def select : Sys := .query (selectSignCmd s)

/-- The `INSERT` or the `UPDATE` of a call. -/
def wrote (e : Fin k × Sys) : Bool :=
  e.2 = .query (insertSignCmd s (request e.1).fileName) ∨ e.2 = .query (updateSignCmd s)

/-- A call reads whether there is a row when there is one, or when no other call has read yet. -/
def sched : Sched World (Fin k) Sys Sys.Res where
  handler i := exec env i
  ready := Machine.ready
  ok t _ op := op = select s → t.state.db.refs s ≠ none ∨ ∀ j, (j, select s) ∉ t.trace

/-- All calls at their start, from the state `w`. -/
def start (w : World) : Pool World (Fin k) Sys Sys.Res Int := ⟨⟨[], w⟩, fun i => linkCall fl (request i)⟩

/-! ## What each call promises -/

/-- Every write so far is one reference, and the links have a directory to stand in. -/
structure Inv (t : Hist World (Fin k) Sys) : Prop where
  refs : t.state.db.refs s = counted (t.trace.countP (wrote s request))
  dirs : ∀ i, t.state.fs.node (fl.usrRoot ++ [(request i).usr, FILES]) = some .dir

/-- An `INSERT` is for the row that is missing, and an `UPDATE` for a row that is there. -/
def Promise (t : Hist World (Fin k) Sys) (i : Fin k) : Sys → Prop
  | .symlink _ _ | .fetch | .lock | .unlock => True
  | .query cmd => cmd = selectSignCmd s ∨
      cmd = insertSignCmd s (request i).fileName ∧ t.state.db.refs s = none ∧ (i, select s) ∈ t.trace ∨
      cmd = updateSignCmd s ∧ t.state.db.refs s ≠ none
  | _ => False

end

/-! ## One step -/

section
variable (env : Env) {fl : Flags} {k : Nat} {s : Name} {request : Fin k → NetDiskRequest}
  (hs : SqlText.litSafe s = true) (hrows : ∀ i, Stmt.OneRow s (request i).fileName)
include hs hrows

theorem select_not_wrote (i : Fin k) : wrote s request (i, select s) = false := by
  have hsel := Stmt.read_selectSignCmd hs
  have hne : selectSignCmd s ≠ insertSignCmd s (request i).fileName := by
    intro h
    obtain ⟨name, hread⟩ := hrows i
    rw [h, hread] at hsel
    simp at hsel
  have hne' : selectSignCmd s ≠ updateSignCmd s := by
    intro h
    rw [h, Stmt.read_updateSignCmd hs] at hsel
    simp at hsel
  simp [wrote, select, hne, hne']

theorem write_spec {t : Hist World (Fin k) Sys} {i : Fin k} {cmd : Bytes} (hcmd : cmd ≠ selectSignCmd s)
    (hpro : Promise s request t i (.query cmd)) : ∃ db rows,
    exec env i (.query cmd) t.state =
      (true, { t.state with db := db, pending := Function.update t.state.pending i rows }) ∧
      db.refs s = countUp (t.state.db.refs s) ∧ wrote s request (i, .query cmd) = true := by
  rcases hpro with h | ⟨rfl, hnone, _⟩ | ⟨rfl, hrow⟩
  · exact absurd h hcmd
  · obtain ⟨name, hread⟩ := hrows i
    obtain ⟨db', hq, -, hrefs⟩ := insertRow_spec env hread hnone
    obtain ⟨rows, hexec⟩ := exec_query env i hq
    exact ⟨db', rows, hexec, by rw [hrefs, if_pos rfl], by simp [wrote]⟩
  · obtain ⟨hq, hrefs⟩ := updateRow_spec env hs hrow
    obtain ⟨rows, hexec⟩ := exec_query env i hq
    exact ⟨t.state.db.countUp s, rows, hexec, by rw [hrefs, if_pos rfl], by simp [wrote]⟩

/-- What an operation that keeps the promise leaves of the references and the directories. -/
theorem step_spec {t : Hist World (Fin k) Sys} {i : Fin k} {op : Sys} (hpro : Promise s request t i op) :
    ((sched env s).after t i op).state.db.refs s =
      (if wrote s request (i, op) = true then countUp (t.state.db.refs s) else t.state.db.refs s) ∧
    ∀ p, t.state.fs.node p = some .dir → ((sched env s).after t i op).state.fs.node p = some .dir := by
  cases op with
  | symlink target path =>
    refine ⟨by simp [Sched.after, sched, exec, wrote], ?_⟩
    intro p hp
    simp only [Sched.after, sched, exec, symlink]
    by_cases htarget : target = []
    · rw [if_pos htarget]
      exact hp
    rw [if_neg htarget]
    split
    · exact hp
    · split_ifs with hcan hslash
      · -- Nothing was where the link goes.
        have hne : p ≠ _ := fun h => by rw [h, hcan.2] at hp; cases hp
        dsimp only
        rw [FileTree.node_put, if_neg hne]
        exact hp
      · exact hp
      · exact hp
  | query cmd =>
    by_cases hsel : cmd = selectSignCmd s
    · subst hsel
      obtain ⟨rows, hexec, _⟩ := exec_select env hs i t.state
      have hnot := select_not_wrote hs hrows i
      unfold select at hnot
      simp only [Sched.after, sched, hexec, hnot, Bool.false_eq_true, if_false]
      exact ⟨trivial, fun p hp => hp⟩
    · obtain ⟨db, rows, hexec, hrefs, hwrote⟩ := write_spec env hs hrows hsel hpro
      simp only [Sched.after, sched, hexec, hwrote, if_true]
      exact ⟨hrefs, fun p hp => hp⟩
  | fetch => exact ⟨by simp [Sched.after, sched, exec, wrote], fun p hp => hp⟩
  | lock => exact ⟨by simp [Sched.after, sched, exec, wrote], fun p hp => hp⟩
  | unlock => exact ⟨by simp [Sched.after, sched, exec, wrote], fun p hp => hp⟩
  | _ => exact hpro.elim

theorem inv_step {t : Hist World (Fin k) Sys} {i : Fin k} {op : Sys} (hinv : Inv fl s request t)
    (hpro : Promise s request t i op) : Inv fl s request ((sched env s).after t i op) := by
  obtain ⟨hrefs, hdirs⟩ := step_spec env hs hrows hpro
  refine ⟨?_, fun j => hdirs _ (hinv.dirs j)⟩
  rw [hrefs, hinv.refs]
  by_cases hw : wrote s request (i, op) = true
  · simp only [Sched.after, List.countP_append, List.countP_singleton, hw, if_true]
    exact countUp_counted _
  · simp only [Sched.after, List.countP_append, List.countP_singleton, hw]
    rfl

/-- How the calls work together. -/
def proto (env : Env) (fl : Flags) : Proto World (Fin k) Sys Sys.Res where
  toSched := sched env s
  inv := Inv fl s request
  promise := Promise s request
  inv_after _ _ _ hinv _ _ hpro := inv_step env hs hrows hinv hpro

/-! ## What one call knows -/

/-- The writes of call `i`. -/
def writes (s : Name) (request : Fin k → NetDiskRequest) (i : Fin k) (t : Hist World (Fin k) Sys) : Nat :=
  t.trace.countP fun e => e.1 = i ∧ wrote s request e = true

/-- No row, and no call but `i` has read so. -/
def First (s : Name) (i : Fin k) (t : Hist World (Fin k) Sys) : Prop :=
  t.state.db.refs s = none ∧ (i, select s) ∈ t.trace ∧ ∀ j, j ≠ i → (j, select s) ∉ t.trace

section
variable (i : Fin k)

variable (fl) in
theorem writes_stable (n : Nat) : (proto hs hrows env fl).Stable i fun t => writes s request i t = n := by
  intro t j op hj _ _ _ _ ht
  have hnot : ¬ (j = i ∧ wrote s request (j, op) = true) := fun h => hj h.1
  unfold writes at ht ⊢
  rw [Sched.after, List.countP_append, ht, List.countP_singleton, if_neg (by simpa using hnot)]
  rfl

theorem row_stable : (proto hs hrows env fl).Stable i fun t => t.state.db.refs s ≠ none := by
  intro t j op hj _ _ _ hpro ht
  obtain ⟨hrefs, _⟩ := step_spec env hs hrows hpro
  change ((sched env s).after t j op).state.db.refs s ≠ none
  rw [hrefs]
  split
  · exact countUp_ne_none _
  · exact ht

theorem first_stable : (proto hs hrows env fl).Stable i (First s i) := by
  rintro t j op hj _ _ hok hpro ⟨hnone, hmine, hothers⟩
  obtain ⟨hrefs, _⟩ := step_spec env hs hrows hpro
  -- Another call can neither read nor write.
  have hsel : op ≠ select s := by
    intro h
    rcases hok h with hrow | hfree
    · exact hrow hnone
    · exact hfree i hmine
  have hwrote : wrote s request (j, op) = false := by
    rw [← Bool.not_eq_true]
    intro hw
    simp only [wrote, decide_eq_true_eq] at hw
    have hq : ∃ cmd, op = .query cmd := by
      rcases hw with h | h <;> exact ⟨_, h⟩
    obtain ⟨cmd, rfl⟩ := hq
    rcases hpro with h | ⟨_, _, hread⟩ | ⟨_, hrow⟩
    · exact hsel (by rw [h]; rfl)
    · exact hothers j hj hread
    · exact hrow hnone
  refine ⟨?_, ?_, ?_⟩
  · change ((sched env s).after t j op).state.db.refs s = none
    rw [hrefs, hwrote]
    exact hnone
  · exact List.mem_append_left _ hmine
  · intro m hm hmem
    rcases List.mem_append.mp hmem with hmem | hmem
    · exact hothers m hm hmem
    · rw [List.mem_singleton, Prod.mk.injEq] at hmem
      exact hsel hmem.2.symm

theorem pending_stable (rows : List Row) :
    (proto hs hrows env fl).Stable i fun t => t.state.pending i = some rows := by
  intro t j op hj _ _ _ _ ht
  have hother : (i : Nat) ≠ j := fun h => hj (Fin.ext h).symm
  exact (exec_pending env j op t.state hother).trans ht

/-! ## One call -/

/-- What the call has read, and what follows for its write. -/
def Read (s : Name) (request : Fin k → NetDiskRequest) (i : Fin k) (row : Option Row)
    (t : Hist World (Fin k) Sys) : Prop :=
  writes s request i t = 0 ∧ (row = none → First s i t) ∧ (row ≠ none → t.state.db.refs s ≠ none)

theorem read_stable (row : Option Row) : (proto hs hrows env fl).Stable i (Read s request i row) := by
  rintro t j op hj hinv hready hok hpro ⟨hw, hnone, hsome⟩
  refine ⟨writes_stable env fl hs hrows i 0 t j op hj hinv hready hok hpro hw, ?_, ?_⟩
  · exact fun h => first_stable env hs hrows i t j op hj hinv hready hok hpro (hnone h)
  · exact fun h => row_stable env hs hrows i t j op hj hinv hready hok hpro (hsome h)

omit hs hrows in
theorem writes_after {t : Hist World (Fin k) Sys} {op : Sys} (h : wrote s request (i, op) = false) :
    writes s request i ((sched env s).after t i op) = writes s request i t := by
  unfold writes
  rw [Sched.after, List.countP_append, List.countP_singleton, if_neg (by simp [h])]
  rfl

omit hs hrows in
theorem first_after {t : Hist World (Fin k) Sys} {op : Sys} (hdb : (exec env i op t.state).2.db = t.state.db)
    (h : First s i t) : First s i ((sched env s).after t i op) := by
  obtain ⟨hrefs, hmine, hothers⟩ := h
  refine ⟨?_, List.mem_append_left _ hmine, ?_⟩
  · change (exec env i op t.state).2.db.refs s = none
    rw [hdb]
    exact hrefs
  · intro j hj hmem
    rcases List.mem_append.mp hmem with hmem | hmem
    · exact hothers j hj hmem
    · rw [List.mem_singleton, Prod.mk.injEq] at hmem
      exact hj hmem.1

theorem link_sat {target : Bytes} {p : Path} {n : Name} (hp : ∀ m ∈ p, Plain m) (hn : Plain n)
    (htarget : cStr target = target) (htarget0 : target ≠ [])
    (hdir : ∀ t, Inv fl s request t → t.state.fs.node p = some .dir)
    {t : Hist World (Fin k) Sys} (ht : writes s request i t = 0) :
    (proto hs hrows env fl).Sat i (fun rt t => rt = 0 ∧ writes s request i t = 0) (link target (dirText p ++ n)) t := by
  have hzero := writes_stable env fl hs hrows i 0
  refine Proto.Sat.once ?_ hzero ht (fun rt => Proto.Stable.const.and hzero) ?_
  · intro err
    split <;> exact ⟨_, rfl⟩
  · intro t hinv _ _ ht
    have hrun := (link_ensures env i t.state.db hp hn htarget htarget0 (hdir t hinv) t.state rfl rfl).1
    exact ⟨trivial, hrun, (writes_after env i (by simp [wrote])).trans ht⟩

theorem select_sat {t : Hist World (Fin k) Sys} (hinv : Inv fl s request t) (ht : writes s request i t = 0) :
    (proto hs hrows env fl).Sat i (fun rt t => rt = 0 ∧ ∃ rows, t.state.pending i = some rows ∧
      Read s request i rows.head? t) (runQuery (selectSignCmd s)) t := by
  have hzero := writes_stable env fl hs hrows i 0
  have hreads : (proto hs hrows env fl).Stable i fun t => ∃ rows, t.state.pending i = some rows ∧
      Read s request i rows.head? t := by
    rintro t j op hj hinv hready hok hpro ⟨rows, hpending, hread⟩
    exact ⟨rows, pending_stable env hs hrows i rows t j op hj hinv hready hok hpro hpending,
      read_stable env hs hrows i _ t j op hj hinv hready hok hpro hread⟩
  unfold runQuery
  refine Proto.Sat.bind (Q := fun ok t => ok = true ∧ ∃ rows, t.state.pending i = some rows ∧
    Read s request i rows.head? t) (Proto.Sat.lift hzero ht (fun ok => Proto.Stable.const.and hreads) ?_) hinv ?_
  · intro t hinv _ hok ht
    obtain ⟨rows, hexec, hnone⟩ := exec_select env hs i t.state
    have hnot := select_not_wrote hs hrows i
    have hstate : ((sched env s).after t i (select s)).state =
        { t.state with pending := Function.update t.state.pending i (some rows) } := congrArg Prod.snd hexec
    refine ⟨Or.inl rfl, congrArg Prod.fst hexec, rows, ?_, ?_, ?_, ?_⟩
    · change ((sched env s).after t i (select s)).state.pending i = some rows
      rw [hstate]
      exact Function.update_self ..
    · exact (writes_after env i hnot).trans ht
    · intro hhead
      have hrefs : t.state.db.refs s = none := hnone.mp hhead
      refine ⟨?_, ?_, ?_⟩
      · change ((sched env s).after t i (select s)).state.db.refs s = none
        rw [hstate]
        exact hrefs
      · exact List.mem_append_right _ (List.mem_singleton.mpr rfl)
      · intro j hj hmem
        rcases List.mem_append.mp hmem with hmem | hmem
        · exact ((hok rfl).resolve_left fun h => h hrefs) j hmem
        · rw [List.mem_singleton, Prod.mk.injEq] at hmem
          exact hj hmem.1
    · intro hhead
      change ((sched env s).after t i (select s)).state.db.refs s ≠ none
      rw [hstate]
      exact fun h => hhead (hnone.mpr h)
  · rintro ok t hinv ⟨rfl, hread⟩
    rw [if_pos rfl]
    exact Proto.Sat.pure hreads hread fun t _ h => ⟨rfl, h⟩

theorem fetch_sat {t : Hist World (Fin k) Sys} {rows : List Row} (hpending : t.state.pending i = some rows)
    (hread : Read s request i rows.head? t) :
    (proto hs hrows env fl).Sat i (Read s request i) fetchRes t := by
  unfold fetchRes
  refine Proto.Sat.lift ((pending_stable env hs hrows i rows).and (read_stable env hs hrows i _))
    ⟨hpending, hread⟩ (fun row => read_stable env hs hrows i row) ?_
  rintro t _ _ _ ⟨hpending, hw, hnone, hsome⟩
  have hreply : (exec env i .fetch t.state).1 = rows.head? := by simp only [exec, hpending, Option.bind_some]
  refine ⟨trivial, ?_⟩
  change Read s request i (exec env i .fetch t.state).1 _
  rw [hreply]
  refine ⟨(writes_after env i (by simp [wrote])).trans hw, ?_, hsome⟩
  intro hhead
  exact first_after env i rfl (hnone hhead)

/-- The write that fits what the call has read. -/
def Fits (s : Name) (request : Fin k → NetDiskRequest) (i : Fin k) (cmd : Bytes) (t : Hist World (Fin k) Sys) :
    Prop :=
  cmd = insertSignCmd s (request i).fileName ∧ First s i t ∨ cmd = updateSignCmd s ∧ t.state.db.refs s ≠ none

theorem fits_stable (cmd : Bytes) : (proto hs hrows env fl).Stable i (Fits s request i cmd) := by
  rintro t j op hj hinv hready hok hpro (⟨hcmd, hfirst⟩ | ⟨hcmd, hrow⟩)
  · exact Or.inl ⟨hcmd, first_stable env hs hrows i t j op hj hinv hready hok hpro hfirst⟩
  · exact Or.inr ⟨hcmd, row_stable env hs hrows i t j op hj hinv hready hok hpro hrow⟩

theorem lockedQuery_sat {cmd : Bytes} {t : Hist World (Fin k) Sys} (hinv : Inv fl s request t)
    (ht : writes s request i t = 0) (hfits : Fits s request i cmd t) :
    (proto hs hrows env fl).Sat i (fun rt t => rt = 0 ∧ writes s request i t = 1) (lockedQuery cmd) t := by
  have hzero := writes_stable env fl hs hrows i 0
  have hone := writes_stable env fl hs hrows i 1
  have hbefore := hzero.and (fits_stable env hs hrows i cmd)
  unfold lockedQuery
  refine Proto.Sat.bind (Q := fun _ t => writes s request i t = 0 ∧ Fits s request i cmd t)
    (Proto.Sat.lift hbefore ⟨ht, hfits⟩ (fun _ => hbefore) ?_) hinv ?_
  · rintro t _ _ _ ⟨ht, hfits⟩
    refine ⟨trivial, (writes_after env i (by simp [wrote])).trans ht, ?_⟩
    rcases hfits with ⟨hcmd, hfirst⟩ | ⟨hcmd, hrow⟩
    · exact Or.inl ⟨hcmd, first_after env i rfl hfirst⟩
    · exact Or.inr ⟨hcmd, hrow⟩
  rintro _ t hinv ⟨ht, hfits⟩
  refine Proto.Sat.bind (Q := fun rt t => rt = 0 ∧ writes s request i t = 1) ?_ hinv ?_
  · unfold runQuery
    refine Proto.Sat.bind (Q := fun ok t => ok = true ∧ writes s request i t = 1)
      (Proto.Sat.lift hbefore ⟨ht, hfits⟩ (fun ok => Proto.Stable.const.and hone) ?_) hinv ?_
    · rintro t _ _ _ ⟨ht, hfits⟩
      have hpro : Promise s request t i (.query cmd) := by
        rcases hfits with ⟨hcmd, hnone, hread, _⟩ | ⟨hcmd, hrow⟩
        · exact Or.inr (Or.inl ⟨hcmd, hnone, hread⟩)
        · exact Or.inr (Or.inr ⟨hcmd, hrow⟩)
      have hcmd : cmd ≠ selectSignCmd s := by
        rintro rfl
        have hnot := of_decide_eq_false (select_not_wrote hs hrows i)
        rcases hfits with ⟨hcmd, _⟩ | ⟨hcmd, _⟩
        · exact hnot (Or.inl (congrArg Sys.query hcmd))
        · exact hnot (Or.inr (congrArg Sys.query hcmd))
      obtain ⟨db, rows, hexec, _, hwrote⟩ := write_spec env hs hrows hcmd hpro
      refine ⟨hpro, congrArg Prod.fst hexec, ?_⟩
      unfold writes at ht ⊢
      change (t.trace ++ [(i, Sys.query cmd)]).countP _ = 1
      rw [List.countP_append, ht, List.countP_singleton, if_pos (by simpa using hwrote)]
    · rintro ok t hinv ⟨rfl, ht⟩
      rw [if_pos rfl]
      exact Proto.Sat.pure hone ht fun t _ ht => ⟨rfl, ht⟩
  · rintro rt t hinv ⟨rfl, ht⟩
    refine Proto.Sat.bind (Q := fun _ t => writes s request i t = 1)
      (Proto.Sat.lift hone ht (fun _ => hone) ?_) hinv ?_
    · exact fun t _ _ _ ht => ⟨trivial, (writes_after env i (by simp [wrote])).trans ht⟩
    · intro _ t hinv ht
      rw [if_neg (by simp)]
      exact Proto.Sat.pure hone ht fun t _ ht => ⟨rfl, ht⟩

theorem countLink_sat {t : Hist World (Fin k) Sys} (hinv : Inv fl s request t) (ht : writes s request i t = 0) :
    (proto hs hrows env fl).Sat i (fun rt t => rt = 0 ∧ writes s request i t = 1)
      (countLink s (request i).fileName) t := by
  unfold countLink
  refine Proto.Sat.bind (select_sat env hs hrows i hinv ht) hinv ?_
  rintro rt t hinv ⟨rfl, rows, hpending, hread⟩
  rw [if_neg (by simp)]
  refine Proto.Sat.bind (fetch_sat env hs hrows i hpending hread) hinv ?_
  rintro row t hinv ⟨hw, hnone, hsome⟩
  cases row with
  | none => exact lockedQuery_sat env hs hrows i hinv hw (Or.inl ⟨rfl, hnone rfl⟩)
  | some row => exact lockedQuery_sat env hs hrows i hinv hw (Or.inr ⟨rfl, hsome (by simp)⟩)

theorem linkCall_sat (hu : Plain (request i).usr) (hsign : (request i).fileSign = s) (hplain : Plain s)
    {t : Hist World (Fin k) Sys} (hinv : Inv fl s request t) (ht : writes s request i t = 0) :
    (proto hs hrows env fl).Sat i (fun rt t => rt = 0 ∧ writes s request i t = 1) (linkCall fl (request i)) t := by
  have hn : Plain (request i).fileSign := hsign ▸ hplain
  unfold linkCall linkToUsr
  rw [linkPath_text]
  refine Proto.Sat.bind
    (link_sat env hs hrows i (plain_files fl hu) hn (fileDir_cStr fl hn) (fileDir_ne_nil fl _)
      (fun t hinv => hinv.dirs i) ht) hinv ?_
  rintro rt t hinv ⟨rfl, ht⟩
  rw [if_neg (by simp), hsign]
  exact countLink_sat env hs hrows i hinv ht

end

end

/-! ## All calls -/

theorem countP_eq_sum {k : Nat} (wrote : Fin k × Sys → Bool) (trace : List (Fin k × Sys)) :
    trace.countP wrote = ∑ i, trace.countP fun e => e.1 = i ∧ wrote e = true := by
  induction trace with
  | nil => simp
  | cons e trace ih =>
    simp only [List.countP_cons, ih, Finset.sum_add_distrib]
    congr 1
    by_cases hw : wrote e = true
    · simp [hw]
    · simp [hw]

/-! ## To the end -/

/-- The call has run its `SELECT`. -/
def After (x : Order.Phase) : Prop := x = .read ∨ x = .locked ∨ x = .written

/-- What the history tells of the calls. -/
structure Tells (s : Name) {k : Nat} (phase : Fin k → Order.Phase) (t : Hist World (Fin k) Sys) : Prop where
  locked : t.state.locked = true → ∃ i, phase i = .locked
  read : ∀ i, (i, select s) ∈ t.trace → After (phase i)

section
variable (env : Env) {fl : Flags} {k : Nat} {s : Name} {request : Fin k → NetDiskRequest}
  (hs : SqlText.litSafe s = true) (hrows : ∀ i, Stmt.OneRow s (request i).fileName) (hsign : ∀ i, (request i).fileSign = s)

theorem After.turns {r : NetDiskRequest} {op : Sys} {x y : Order.Phase} (h : Order.Turns fl r op x y)
    (hx : After x) : After y := by
  cases h with
  | check hstart | read hstart =>
    rcases hstart with rfl | rfl <;> rcases hx with hx | hx | hx <;> cases hx
  | list | move => rcases hx with hx | hx | hx <;> cases hx
  | lock => exact Or.inr (Or.inl rfl)
  | write | unlock => exact Or.inr (by simp)
  | other => exact hx

include hs hrows hsign

theorem turns_select {i : Fin k} {x y : Order.Phase} (h : Order.Turns fl (request i) (select s) x y) :
    ¬After x ∧ After y := by
  have hnot := of_decide_eq_false (select_not_wrote hs hrows i)
  generalize hop : select s = op at h hnot
  cases h with
  | check hx | list | move | lock | unlock => cases hop
  | read hx =>
    refine ⟨?_, Or.inl rfl⟩
    rcases hx with rfl | rfl <;> rintro (h | h | h) <;> cases h
  | write hcmd =>
    rw [hsign i] at hcmd
    exact absurd (hcmd.imp (congrArg Sys.query) (congrArg Sys.query)) hnot
  | other hfiles =>
    rw [← hop] at hfiles
    exact hfiles.elim

theorem tells_step {phase : Fin k → Order.Phase} {t : Hist World (Fin k) Sys} {i : Fin k} {op : Sys} {y : Order.Phase}
    (h : Tells s phase t) (hturn : Order.Turns fl (request i) op (phase i) y) :
    Tells s (Function.update phase i y) ((sched env s).after t i op) := by
  refine ⟨hturn.locked h.locked, fun j hj => ?_⟩
  by_cases hji : j = i
  · subst hji
    rw [Function.update_self]
    rcases (Sched.mem_after ..).mp hj with hj | ⟨-, rfl⟩
    · exact After.turns hturn (h.read j hj)
    · exact (turns_select hs hrows hsign hturn).2
  · rw [Function.update_of_ne hji]
    exact h.read j (((Sched.mem_after ..).mp hj).resolve_right fun h => hji h.1)

/-- A call that has to wait for ever would be at its `SELECT`, and the one that has read before it is not. -/
theorem ended_of_stuck {phase : Fin k → Order.Phase} {d : Pool World (Fin k) Sys Sys.Res Int}
    (hphased : Pool.Phased (fun i => Order.Turns fl (request i)) (· ≠ .locked) phase d) (htells : Tells s phase d.hist)
    (hended : ∀ i rt, d.thread i = .pure rt → d.hist.state.db.refs s ≠ none)
    (hstuck : ∀ e, ¬Pool.Step (sched env s) d e) (i : Fin k) : ∃ rt, d.thread i = .pure rt := by
  have hwaits : ∀ j op next, d.thread j = .call op next → op ≠ .lock ∨ d.hist.state.locked = false →
      op = select s ∧ d.hist.state.db.refs s = none ∧ ∃ m, (m, select s) ∈ d.hist.trace := by
    intro j op next hthread hfree
    have hready : Machine.ready op d.hist.state = true := by
      by_cases hl : op = .lock
      · subst hl
        simpa [Machine.ready] using hfree
      · exact ready_other hl
    by_contra hnot
    refine hstuck _ (.run hthread hready fun hop => ?_)
    by_contra hno
    push Not at hno
    exact hnot ⟨hop, hno.1, hno.2⟩
  have hfree : d.hist.state.locked = false := by
    rw [← Bool.not_eq_true]
    intro hlocked
    obtain ⟨m, hm⟩ := htells.locked hlocked
    have hcall := hphased m
    rw [hm] at hcall
    obtain ⟨op, next, hthread, hinside⟩ := Order.Ends.next hcall
    obtain ⟨rfl, -⟩ := hwaits m op next hthread (Or.inl hinside.ne_lock)
    rw [hthread] at hcall
    obtain ⟨y, hturn, -⟩ := hcall
    exact (turns_select hs hrows hsign hturn).1 (Or.inr (Or.inl rfl))
  cases hi : d.thread i with
  | pure rt => exact ⟨rt, rfl⟩
  | call op next =>
    obtain ⟨rfl, hnone, m, hm⟩ := hwaits i op next hi (Or.inr hfree)
    -- The call that has read the row has still to write it, and need not wait.
    cases hthread : d.thread m with
    | pure rt => exact absurd hnone (hended m rt hthread)
    | call op' next' =>
      obtain ⟨rfl, -⟩ := hwaits m op' next' hthread (Or.inr hfree)
      have hcall := hphased m
      rw [hthread] at hcall
      obtain ⟨y, hturn, -⟩ := hcall
      exact absurd (htells.read m hm) (turns_select hs hrows hsign hturn).1

end

/-- With a directory for each link and names that the `INSERT` takes, and as long as each call reads the row when it is
there or when no other call has read yet, all calls return 0, and `k` calls are `k` references. With the mutex free at
the start, all calls can be run to their ends so. -/
theorem references_counted (env : Env) (fl : Flags) {k : Nat} (s : Name) (request : Fin k → NetDiskRequest)
    {w : World} (hplain : Plain s) (hsign : ∀ i, (request i).fileSign = s) (hu : ∀ i, Plain (request i).usr)
    (hrows : ∀ i, Stmt.OneRow s (request i).fileName) (hrow : w.db.refs s = none)
    (hdirs : ∀ i, w.fs.node (fl.usrRoot ++ [(request i).usr, FILES]) = some .dir)
    {d : Pool World (Fin k) Sys Sys.Res Int} (hr : Pool.Runs (sched env s) (start fl request w) d) :
    (∀ i rt, d.thread i = .pure rt → rt = 0) ∧
      ((∀ i, ∃ rt, d.thread i = .pure rt) → d.hist.state.db.refs s = counted k) ∧
      (w.locked = false → ∃ e, Pool.Runs (sched env s) d e ∧ ∀ i, ∃ rt, e.thread i = .pure rt) := by
  have hinv : Inv fl s request (start fl request w).hist := ⟨hrow, hdirs⟩
  have hspec : ∀ {e : Pool World (Fin k) Sys Sys.Res Int}, Pool.Runs (sched env s) (start fl request w) e →
      Inv fl s request e.hist ∧ ∀ i rt, e.thread i = .pure rt → rt = 0 ∧ writes s request i e.hist = 1 := by
    intro e he
    obtain ⟨hend, hsat⟩ := Proto.runs (proto hplain.litSafe hrows env fl) he hinv fun i =>
      linkCall_sat env hplain.litSafe hrows i (hu i) (hsign i) hplain hinv rfl
    refine ⟨hend, fun i rt hi => ?_⟩
    have h := hsat i
    rw [hi] at h
    exact h e.hist .refl hend
  refine ⟨fun i rt hi => ((hspec hr).2 i rt hi).1, fun hall => ?_, fun hfree => ?_⟩
  · obtain ⟨hend, hvalue⟩ := hspec hr
    rw [hend.refs, countP_eq_sum]
    congr 1
    have hone : ∀ i, writes s request i d.hist = 1 := by
      intro i
      obtain ⟨rt, hi⟩ := hall i
      exact (hvalue i rt hi).2
    exact (Finset.sum_congr rfl fun i _ => hone i).trans (by simp)
  · refine Pool.completes (fun e he hstuck => ?_) hr
    obtain ⟨hend, hvalue⟩ := hspec he
    have hphased : Pool.Phased (fun i => Order.Turns fl (request i)) (· ≠ .locked) (fun _ => .start)
        (start fl request w) := fun i => Order.linkToUsr_ends _ _ (Or.inl rfl)
    have htells : Tells s (fun _ => .start) (start fl request w).hist :=
      ⟨fun h => absurd (hfree.symm.trans h) (by simp), fun i hi => absurd hi List.not_mem_nil⟩
    obtain ⟨phase, hphased, htells⟩ := hphased.runs (I := Tells s) htells
      (fun _ _ _ _ _ h hturn => tells_step env hplain.litSafe hrows hsign h hturn) he
    refine ended_of_stuck env hplain.litSafe hrows hsign hphased htells (fun i rt hi => ?_) hstuck
    -- The reference of a call that has ended is in the row.
    have hle : writes s request i e.hist ≤ e.hist.trace.countP (wrote s request) :=
      List.countP_mono_left fun x _ hx => (of_decide_eq_true hx).2
    rw [(hvalue i rt hi).2] at hle
    rw [hend.refs, counted, if_neg (Nat.ne_of_gt hle)]
    simp

/-! ### Two users -/

namespace Two

open TwoParts (first second)

def request (i : Fin 2) : NetDiskRequest := TwoParts.request (if i = first then "alice" else "bob") 0 "a"

/-- Both users have a directory for links. -/
def world : World :=
  { TwoParts.world with
    fs := ensureDir (ensureDir TwoParts.world.fs (Flags.short.usrRoot ++ [ascii "alice", FILES]))
      (Flags.short.usrRoot ++ [ascii "bob", FILES]) }

theorem dirs (i : Fin 2) : world.fs.node (Flags.short.usrRoot ++ [(request i).usr, FILES]) = some .dir := by
  revert i
  decide

/-- The first call reads and writes before the second one reads. -/
def inTurn : List (Fin 2) := first :: second :: List.replicate 5 first ++ List.replicate 5 second

/-- Both calls read before either writes. -/
def bothFirst : List (Fin 2) := [first, second, first, second] ++ List.replicate 4 first ++ List.replicate 4 second

def allowed (t : Hist World (Fin 2) Sys) (_ : Fin 2) (op : Sys) : Bool :=
  op ≠ select TwoParts.sign ∨ t.state.db.refs TwoParts.sign ≠ none ∨ ∀ j, (j, select TwoParts.sign) ∉ t.trace

end Two

theorem references_counted_two : ∃ d : Pool World (Fin 2) Sys Sys.Res Int,
    Pool.Runs (sched .bare TwoParts.sign) (start .short Two.request Two.world) d ∧
      (∀ i, d.thread i = .pure 0) ∧ d.hist.state.db.refs TwoParts.sign = counted 2 := by
  have hok : ∀ t i op, Two.allowed t i op = true → (sched .bare TwoParts.sign).ok t i op := by
    intro t i op h hsel
    exact (of_decide_eq_true h).resolve_left fun hne => hne hsel
  obtain ⟨d, hr, hd⟩ := Pool.play_values hok Two.inTurn (start .short Two.request Two.world) (fun _ => 0)
    (by decide +kernel)
  refine ⟨d, hr, hd, ?_⟩
  exact (references_counted .bare .short TwoParts.sign Two.request (by decide +kernel) (fun _ => rfl)
    (by decide +kernel) (fun _ => TwoParts.one_row) rfl Two.dirs hr).2.1 fun i => ⟨0, hd i⟩

/-- Both `INSERT`: the second one fails, and its reference is lost. -/
theorem reference_lost : ¬ ∀ d : Pool World (Fin 2) Sys Sys.Res Int,
    Pool.Runs (sched .bare TwoParts.sign).free (start .short Two.request Two.world) d → (∀ i, ∃ rt, d.thread i = .pure rt) →
      (∀ i, d.thread i = .pure 0) ∧ d.hist.state.db.refs TwoParts.sign = counted 2 := by
  intro h
  have hany : ∀ t i op, (fun _ _ _ => true : Hist World (Fin 2) Sys → Fin 2 → Sys → Bool) t i op = true →
      (sched (k := 2) .bare TwoParts.sign).free.ok t i op := fun _ _ _ _ => trivial
  obtain ⟨d, hr, hd⟩ := Pool.play_values hany Two.bothFirst (start .short Two.request Two.world)
    (fun i => if i = 0 then 0 else -1) (by decide +kernel)
  have hzero := (h d hr fun i => ⟨_, hd i⟩).1 1
  rw [hd 1] at hzero
  cases hzero

end Linking

end NetDisk
