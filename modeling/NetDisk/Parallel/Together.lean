import NetDisk.Parallel.Steps

/-!
# The calls together

Every operation that keeps its promise keeps the invariant, and leaves what the other calls rely on.
-/

namespace NetDisk.Parallel

open Machine UploadRpc Prog

section
variable {fl : Flags} {u s : Name} {n : Nat} {body name : Fin n → Bytes} (env : Env) {t : Calls n} {i : Fin n}
  {op : Sys}

theorem moved_after : Moved fl u s ((sched fl u s env n).after t i op).trace ↔
    Moved fl u s t.trace ∨ op = mvOp fl u s := by
  unfold Moved
  simp only [Sched.mem_after, exists_or]
  refine or_congr_right ⟨?_, fun h => ⟨i, rfl, h.symm⟩⟩
  rintro ⟨_, _, h⟩
  exact h.symm

theorem Promise.not_query (hpro : Promise fl u s body name t i op) (h : (i, mvOp fl u s) ∉ t.trace) (cmd : Bytes) :
    op ≠ .query cmd := by
  rintro rfl
  exact h hpro.1

/-- Only the first call that lists all parts moves them, and only once. -/
theorem Promise.of_mv (hu : Plain u) (hsg : Plain s) (hpro : Promise fl u s body name t i (mvOp fl u s)) :
    Found fl u s t.trace i ∧ ¬ Moved fl u s t.trace := by
  rcases hpro with ⟨h, _⟩ | ⟨_, h⟩
  · exact absurd h.symm (sum_ne_mv hu hsg i)
  · exact h

section
variable (hu : Plain u) (hsg : Plain s) (hinv : Inv fl u s body t) (hok : (sched fl u s env n).ok t i op)
  (hpro : Promise fl u s body name t i op)
include hu hsg hinv hok hpro

theorem before_step (hnot : ¬ Moved fl u s ((sched fl u s env n).after t i op).trace) :
    Before fl u s body ((sched fl u s env n).after t i op) := by
  have hchange := step_change hu hsg hinv hok hpro
  obtain ⟨hnotm, hne⟩ := not_or.mp (mt (moved_after env).mpr hnot)
  have hbefore := hinv.before hnotm
  refine ⟨?_, ?_, ?_, ?_⟩
  · rw [(hchange.store_kept hne).1]
    exact hbefore.stored
  · intro m
    by_cases hm : m = i
    · subst hm
      have hmine : (Disk.of fl t.state.fs).part u s i ≠ none ↔ Opened fl u s t.trace i := by
        rw [hbefore.part_iff i]
        refine ⟨?_, fun h => ⟨i, rfl, h⟩⟩
        rintro ⟨j, hj, h⟩
        rwa [Fin.ext hj] at h
      rw [hchange.part_own hne hmine]
      constructor
      · rintro (h | h)
        · exact ⟨i, rfl, (Sched.mem_after ..).mpr (Or.inl h)⟩
        · exact ⟨i, rfl, (Sched.mem_after ..).mpr (Or.inr ⟨rfl, h.symm⟩)⟩
      · rintro ⟨j, hj, h⟩
        rw [Fin.ext hj] at h
        exact ((Sched.mem_after ..).mp h).imp_right fun h => h.2.symm
    · rw [hchange.part_kept hne (Or.inl hm), hbefore.part_iff m]
      constructor
      · rintro ⟨j, hj, h⟩
        exact ⟨j, hj, (Sched.mem_after ..).mpr (Or.inl h)⟩
      · rintro ⟨j, hj, h⟩
        refine ⟨j, hj, ((Sched.mem_after ..).mp h).resolve_right ?_⟩
        rintro ⟨rfl, _⟩
        exact hm hj.symm
  · intro j hj
    rcases (Sched.mem_after ..).mp hj with hj | ⟨rfl, hop⟩
    · rw [hchange.part_kept hne ?_]
      · exact hbefore.summed j hj
      · by_cases hji : j = i
        · exact Or.inr (hji ▸ hj)
        · exact Or.inl fun h => hji (Fin.ext h)
    · -- The check of the part leaves it.
      subst hop
      have hstate : ((sched fl u s env n).after t j (sumOp fl u s j)).state = t.state := exec_sum hu hsg j j t.state
      rw [hstate]
      rcases hpro with ⟨_, h⟩ | ⟨h, _⟩
      · exact h
      · exact absurd h (sum_ne_mv hu hsg j)
  · have hquery := hpro.not_query fun h => hnotm ⟨i, h⟩
    have hdb : ((sched fl u s env n).after t i op).state.db = t.state.db := exec_db env i t.state hquery
    rw [hdb]
    exact hbefore.refs

theorem after_step (hmoved : Moved fl u s ((sched fl u s env n).after t i op).trace) :
    After fl u s body ((sched fl u s env n).after t i op) := by
  have hchange := step_change hu hsg hinv hok hpro
  by_cases hold : Moved fl u s t.trace
  · have hne : op ≠ mvOp fl u s := by
      rintro rfl
      exact (hpro.of_mv hu hsg).2 hold
    obtain ⟨hall, hpart, hstored, hstore⟩ := hinv.after hold
    obtain ⟨hst, hsto⟩ := hchange.store_kept hne
    refine ⟨fun j => (Sched.mem_after ..).mpr (Or.inl (hall j)), ?_, by rw [hst]; exact hstored, by rw [hsto]; exact hstore⟩
    intro m
    rw [hchange.part_kept hne (Or.inr (hall i))]
    exact hpart m
  · obtain rfl : op = mvOp fl u s := ((moved_after env).mp hmoved).resolve_left hold
    have hall := hok.2 rfl
    have hbefore := hinv.before hold
    refine ⟨fun j => (Sched.mem_after ..).mpr (Or.inl (hall j)), ?_, ?_, ?_⟩ <;>
      rw [hchange.published rfl] <;> unfold Disk.publish
    · exact fun m => if_pos ⟨rfl, rfl⟩
    · simp
    · exact fun j => (if_pos rfl).trans (hbefore.summed j (hall j))

theorem inv_step : Inv fl u s body ((sched fl u s env n).after t i op) := by
  have hchange := step_change hu hsg hinv hok hpro
  -- A call has made its file before it lists the directory.
  have hopened : ∀ j, Listed fl u s ((sched fl u s env n).after t i op).trace j → Opened fl u s t.trace j := by
    intro j hj
    rcases (Sched.mem_after ..).mp hj with hj | ⟨rfl, hop⟩
    · exact hinv.opened j hj
    · subst hop
      exact hpro.2
  -- There is at most one move, as it is promised for parts that are not moved.
  have hfirst : op = mvOp fl u s → ∀ j, (j, mvOp fl u s) ∉ t.trace := by
    rintro rfl j hj
    exact (hpro.of_mv hu hsg).2 ⟨j, hj⟩
  refine ⟨hchange.shape hinv.shape, ?_, exec_fresh env i op t.state hinv.fresh, ?_, ?_, ?_, ?_,
    before_step env hu hsg hinv hok hpro, after_step env hu hsg hinv hok hpro⟩
  · exact hchange.dir_kept hinv.user (Or.inr (by simp))
  · exact fun j hj => (Sched.mem_after ..).mpr (Or.inl (hopened j hj))
  · intro hall
    by_cases hold : ∀ j, Listed fl u s t.trace j
    · obtain ⟨j, pre, hcomplete, hpre⟩ := hinv.found hold
      exact ⟨j, pre, hcomplete, hpre.trans (List.prefix_append _ _)⟩
    · -- The last call that lists finds all parts.
      simp only [not_forall] at hold
      obtain ⟨j, hj⟩ := hold
      obtain ⟨rfl, hop⟩ := ((Sched.mem_after ..).mp (hall j)).resolve_left hj
      refine ⟨j, t.trace, fun m => hopened m (hall m), ?_⟩
      rw [Sched.after, ← hop]
  · unfold Sched.after
    rw [List.countP_append, List.countP_singleton]
    by_cases hop : op = mvOp fl u s
    · have hzero : t.trace.countP (fun e => e.2 = mvOp fl u s) = 0 := by
        rw [List.countP_eq_zero]
        rintro ⟨j, op'⟩ hmem
        simp only [decide_eq_true_eq]
        rintro rfl
        exact hfirst hop j hmem
      rw [hzero]
      split <;> omega
    · have hnot : ¬ decide (op = mvOp fl u s) = true := by simpa using hop
      rw [if_neg hnot]
      exact hinv.once
  · intro j k hj hk
    rcases (Sched.mem_after ..).mp hj with hj | ⟨rfl, hop⟩
    · rcases (Sched.mem_after ..).mp hk with hk | ⟨_, hop⟩
      · exact hinv.mover j k hj hk
      · exact absurd hj (hfirst hop.symm j)
    · rcases (Sched.mem_after ..).mp hk with hk | ⟨rfl, _⟩
      · exact absurd hk (hfirst hop.symm k)
      · rfl

theorem fd_kept (hne : op ≠ mvOp fl u s) {fd m o : Nat} (hm : m ≠ i)
    (hfd : t.state.fds fd = some ⟨some (signDir fl u s ++ [toString m]), o⟩) :
    ((sched fl u s env n).after t i op).state.fds fd = t.state.fds fd := by
  change (exec env i op t.state).2.fds fd = t.state.fds fd
  have hother : ∀ fd' o', t.state.fds fd' = some ⟨some (signDir fl u s ++ [toString i]), o'⟩ → fd ≠ fd' := by
    rintro fd' o' h rfl
    rw [hfd] at h
    simp at h
    exact hm h.1
  cases op with
  | openFile path =>
    have hfresh : fd ≠ t.state.nextFd := Nat.ne_of_lt (hinv.fresh fd (by simp [hfd]))
    simp only [exec]
    split
    · rfl
    · exact Function.update_of_ne hfresh _ _
  | write fd' buf =>
    obtain ⟨_, _, o', ho⟩ := hpro
    simp only [exec, ho]
    exact Function.update_of_ne (hother fd' o' ho) _ _
  | close fd' =>
    obtain ⟨o', ho⟩ := hpro
    exact Function.update_of_ne (hother fd' o' ho) _ _
  | shell cmd =>
    rcases hpro with ⟨hsum, _⟩ | ⟨hmv, _⟩
    · rw [hsum, exec_sum hu hsg]
    · exact absurd hmv hne
  | query cmd =>
    simp only [exec]
    split <;> rfl
  | remove path => exact hpro.elim
  | _ => rfl

end

/-- How the calls work together. -/
def proto (hu : Plain u) (hsg : Plain s) (fl : Flags) (body name : Fin n → Bytes) (env : Env) :
    Proto World (Fin n) Sys Sys.Res where
  toSched := sched fl u s env n
  inv := Inv fl u s body
  promise := Promise fl u s body name
  inv_after _ _ _ hinv _ hok hpro := inv_step env hu hsg hinv hok hpro

end

end NetDisk.Parallel
