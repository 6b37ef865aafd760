import NetDisk.Lib.Prog

/-!
# The states of a run

What holds in each state that a program goes through, so also where it is stopped before its end.
-/

namespace Prog

variable {Op : Type} {Res : Op → Type} {α β σ : Type} {h : Handler Op Res σ} {J : σ → Prop} {s : σ}

/-- The state that a run starts in, and the one after each operation. -/
def states (h : Handler Op Res σ) : Prog Op Res α → σ → List σ
  | .pure _, s => [s]
  | .call op next, s => s :: (next (h op s).1).states h (h op s).2

/-- Each state of the run meets `J`. -/
def Along (h : Handler Op Res σ) (J : σ → Prop) (p : Prog Op Res α) (s : σ) : Prop := ∀ t ∈ p.states h s, J t

theorem Along.pure {a : α} (hs : J s) : (Prog.pure a : Prog Op Res α).Along h J s := by
  intro t ht
  rw [List.mem_singleton.mp ht]
  exact hs

theorem Along.call {op : Op} {next : Res op → Prog Op Res α} (hs : J s) (hnext : (next (h op s).1).Along h J (h op s).2) :
    (Prog.call op next).Along h J s := List.forall_mem_cons.mpr ⟨hs, hnext⟩

theorem Along.lift_bind {op : Op} {f : Res op → Prog Op Res α} (hs : J s) (hf : (f (h op s).1).Along h J (h op s).2) :
    (Prog.lift op >>= f).Along h J s := .call hs hf

theorem Along.start {p : Prog Op Res α} (hp : p.Along h J s) : J s := by
  cases p with
  | pure a => exact hp s List.mem_cons_self
  | call op next => exact hp s List.mem_cons_self

theorem run_mem_states (p : Prog Op Res α) (s : σ) : (p.run h s).2 ∈ p.states h s := by
  induction p generalizing s with
  | pure a => exact List.mem_cons_self
  | call op next ih => exact List.mem_cons_of_mem _ (ih _ _)

theorem Along.last {p : Prog Op Res α} (hp : p.Along h J s) : J (p.run h s).2 := hp _ (run_mem_states p s)

theorem Along.bind {p : Prog Op Res α} {f : α → Prog Op Res β} (hp : p.Along h J s)
    (hf : (f (p.run h s).1).Along h J (p.run h s).2) : (p >>= f).Along h J s := by
  induction p generalizing s with
  | pure a => exact hf
  | call op next ih => exact .call hp.start (ih _ (List.forall_mem_cons.mp hp).2 hf)

theorem Along.bind_of {p : Prog Op Res α} {f : α → Prog Op Res β} {a : α} {s' : σ} (hrun : p.run h s = (a, s'))
    (hp : p.Along h J s) (hf : (f a).Along h J s') : (p >>= f).Along h J s := by
  refine hp.bind ?_
  rw [hrun]
  exact hf

theorem Along.bind_pure {p : Prog Op Res α} {f : α → Prog Op Res β} (hp : p.Along h J s) (hf : ∀ a, ∃ b, f a = .pure b) :
    (p >>= f).Along h J s := by
  obtain ⟨b, hb⟩ := hf (p.run h s).1
  refine hp.bind ?_
  rw [hb]
  exact .pure hp.last

theorem Along.one {p : Prog Op Res α} (hone : p.One) (hs : J s) (hend : J (p.run h s).2) : p.Along h J s := by
  obtain ⟨op, next, rfl, hvalue⟩ := hone
  obtain ⟨a, ha⟩ := hvalue (h op s).1
  rw [run_call, ha] at hend
  refine .call hs ?_
  rw [ha]
  exact .pure hend

end Prog
