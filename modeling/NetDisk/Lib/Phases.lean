import NetDisk.Lib.Pool

/-!
# Programs in phases

In each of its phases a thread runs only some operations, and they take it to the next phase whatever the replies are.
So what a run has done tells something of the phase of each thread, and the phase tells what the thread may run next.
-/

namespace Prog

variable {Op : Type} {Res : Op → Type} {α β σ ι γ δ : Type}

/-- Whatever the replies are, each operation takes the program from one phase to another, and it ends in a phase as `last`
says. -/
def Phased (turns : Op → γ → γ → Prop) (last : γ → Prop) : γ → Prog Op Res α → Prop
  | x, .pure _ => last x
  | x, .call op next => ∃ y, turns op x y ∧ ∀ r, Phased turns last y (next r)

namespace Phased

variable {turns : Op → γ → γ → Prop} {mid last : γ → Prop} {x y : γ}

theorem bind {p : Prog Op Res α} {f : α → Prog Op Res β} (hp : Phased turns mid x p)
    (hf : ∀ a y, mid y → Phased turns last y (f a)) : Phased turns last x (p >>= f) := by
  induction p generalizing x with
  | pure a => exact hf a x hp
  | call op next ih =>
    obtain ⟨y, hturn, hnext⟩ := hp
    exact ⟨y, hturn, fun r => ih r (hnext r)⟩

theorem seq {p : Prog Op Res α} {f : α → Prog Op Res β} (hp : Phased turns (· = y) x p)
    (hf : ∀ a, Phased turns last y (f a)) : Phased turns last x (p >>= f) := by
  refine hp.bind fun a z hz => ?_
  rw [hz]
  exact hf a

theorem lift {op : Op} (h : turns op x y) : Phased turns (· = y) x (Prog.lift op : Prog Op Res (Res op)) :=
  ⟨y, h, fun _ => rfl⟩

theorem ite {c : Prop} [Decidable c] {p q : Prog Op Res α} (hp : Phased turns last x p) (hq : Phased turns last x q) :
    Phased turns last x (if c then p else q) := by
  split
  · exact hp
  · exact hq

theorem of_uses {ok : Op → Prop} {p : Prog Op Res α} (hp : p.Uses ok) (hok : ∀ op, ok op → turns op x x) :
    Phased turns (· = x) x p := by
  induction p with
  | pure a => rfl
  | call op next ih => exact ⟨x, hok op hp.1, fun r => ih r (hp.2 r)⟩

theorem mono {last' : γ → Prop} {p : Prog Op Res α} (hp : Phased turns last x p) (hlast : ∀ y, last y → last' y) :
    Phased turns last' x p := by
  induction p generalizing x with
  | pure a => exact hlast x hp
  | call op next ih =>
    obtain ⟨y, hturn, hnext⟩ := hp
    exact ⟨y, hturn, fun r => ih r (hnext r)⟩

theorem map {turns' : Op → δ → δ → Prop} {last' : δ → Prop} (f : γ → δ) {p : Prog Op Res α} (hp : Phased turns last x p)
    (hturns : ∀ op x y, turns op x y → turns' op (f x) (f y)) (hlast : ∀ y, last y → last' (f y)) :
    Phased turns' last' (f x) p := by
  induction p generalizing x with
  | pure a => exact hlast x hp
  | call op next ih =>
    obtain ⟨y, hturn, hnext⟩ := hp
    exact ⟨f y, hturns op x y hturn, fun r => ih r (hnext r)⟩

end Phased

/-! ## The phases of all threads -/

section
variable [DecidableEq ι] {π : Sched σ ι Op Res} {turns : ι → Op → γ → γ → Prop} {last : γ → Prop} {c d : Pool σ ι Op Res α}

/-- Each thread is in its phase. -/
def Pool.Phased (turns : ι → Op → γ → γ → Prop) (last : γ → Prop) (phase : ι → γ) (c : Pool σ ι Op Res α) : Prop :=
  ∀ i, Prog.Phased (turns i) last (phase i) (c.thread i)

theorem Pool.Phased.step {phase : ι → γ} (h : Pool.Phased turns last phase c) {i : ι} {op : Op} {k : Res op → Prog Op Res α}
    (hthread : c.thread i = .call op k) :
    ∃ y, turns i op (phase i) y ∧ Pool.Phased turns last (Function.update phase i y) (c.next π i op k) := by
  have hi := h i
  rw [hthread] at hi
  obtain ⟨y, hturn, hnext⟩ := hi
  refine ⟨y, hturn, fun j => ?_⟩
  unfold Pool.next
  dsimp only
  by_cases hj : j = i
  · subst hj
    rw [Function.update_self, Function.update_self]
    exact hnext _
  · rw [Function.update_of_ne hj, Function.update_of_ne hj]
    exact h j

/-- What the history tells of the phases, step by step, it tells in a whole run. -/
theorem Pool.Phased.runs {I : (ι → γ) → Hist σ ι Op → Prop} {phase : ι → γ} (h : Pool.Phased turns last phase c)
    (hI : I phase c.hist)
    (hstep : ∀ phase t i op y, I phase t → turns i op (phase i) y → I (Function.update phase i y) (π.after t i op))
    (hr : Pool.Runs π c d) : ∃ phase, Pool.Phased turns last phase d ∧ I phase d.hist := by
  induction hr with
  | start => exact ⟨phase, h, hI⟩
  | step _ hthread _ _ ih =>
    obtain ⟨phase, hphased, hI⟩ := ih
    obtain ⟨y, hturn, hnext⟩ := hphased.step (π := π) hthread
    exact ⟨_, hnext, hstep _ _ _ _ _ hI hturn⟩

end

end Prog
