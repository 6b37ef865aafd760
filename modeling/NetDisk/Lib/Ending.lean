import NetDisk.Lib.Pool
import Mathlib.Data.DFinsupp.WellFounded
import Mathlib.SetTheory.Ordinal.Family

/-!
# Runs come to an end

With each operation a program gets shorter, whatever the reply. So a pool of finitely many threads cannot run for ever.
-/

namespace Prog

variable {Op : Type} {Res : Op → Type} {α σ ι : Type}

/-- Above the ranks of all that may be left after the first operation. -/
noncomputable def rank : Prog Op Res α → Ordinal.{0}
  | .pure _ => 0
  | .call _ next => ⨆ r, Order.succ (next r).rank

theorem rank_next (op : Op) (next : Res op → Prog Op Res α) (r : Res op) : (next r).rank < (Prog.call op next).rank := by
  have hle := Ordinal.le_iSup (fun r => Order.succ (next r).rank) r
  exact (Order.lt_succ _).trans_le hle

section
variable [DecidableEq ι] {π : Sched σ ι Op Res} {c d : Pool σ ι Op Res α}

/-- Any one thread runs its next operation. -/
inductive Pool.Step (π : Sched σ ι Op Res) (c : Pool σ ι Op Res α) : Pool σ ι Op Res α → Prop
  | run {i : ι} {op : Op} {k : Res op → Prog Op Res α} (hthread : c.thread i = .call op k)
      (hready : π.ready op c.hist.state = true) (hok : π.ok c.hist i op) : Pool.Step π c (c.next π i op k)

theorem Pool.Step.runs (h : Pool.Step π c d) : Pool.Runs π c d := by
  cases h with
  | run hthread hready hok => exact .step .start hthread hready hok

theorem Pool.Step.rank_lt (h : Pool.Step π c d) : (fun i => (d.thread i).rank) < fun i => (c.thread i).rank := by
  cases h with
  | @run i op k hthread _ _ =>
    have hself : (c.next π i op k).thread i = k (π.handler i op c.hist.state).1 := Function.update_self ..
    have hlt : ((c.next π i op k).thread i).rank < (c.thread i).rank := by
      rw [hself, hthread]
      exact rank_next op k _
    refine Pi.lt_def.mpr ⟨fun j => ?_, i, hlt⟩
    by_cases hj : j = i
    · subst hj
      exact hlt.le
    · have hother : (c.next π i op k).thread j = c.thread j := Function.update_of_ne hj ..
      exact le_of_eq (congrArg rank hother)

/-- No run of finitely many threads goes on for ever. -/
theorem Pool.ends [Finite ι] (run : Nat → Pool σ ι Op Res α) : ∃ n, ¬Pool.Step π (run n) (run (n + 1)) := by
  obtain ⟨n, hn⟩ := WellFounded.not_rel_apply_succ (r := (· < ·)) fun n i => ((run n).thread i).rank
  exact ⟨n, fun h => hn h.rank_lt⟩

/-- Where a run can stop only when all threads have ended, each run can be completed. -/
theorem Pool.completes [Finite ι] (hended : ∀ e, Pool.Runs π c e → (∀ f, ¬Pool.Step π e f) → ∀ i, ∃ a, e.thread i = .pure a)
    (hd : Pool.Runs π c d) : ∃ e, Pool.Runs π d e ∧ ∀ i, ∃ a, e.thread i = .pure a := by
  generalize hrank : (fun i => (d.thread i).rank) = rank
  induction rank using WellFoundedLT.induction generalizing d with
  | _ rank ih =>
    by_cases hstuck : ∀ e, ¬Pool.Step π d e
    · exact ⟨d, .start, hended d hd hstuck⟩
    · push Not at hstuck
      obtain ⟨e, he⟩ := hstuck
      obtain ⟨f, hf, hends⟩ := ih _ (hrank ▸ he.rank_lt) (hd.trans he.runs) rfl
      exact ⟨f, he.runs.trans hf, hends⟩

end

end Prog
