import Mathlib.Algebra.BigOperators.Group.List.Basic
import Mathlib.Data.List.Induction

/-!
# Programs over operations

A program ends with a value, or calls one operation and goes on with its reply. What an
operation does is not part of the program: a handler runs it on a state.
-/

/-- `Res op` is the type of the reply to `op`. -/
inductive Prog (Op : Type) (Res : Op → Type) (α : Type) where
  | pure (a : α)
  | call (op : Op) (next : Res op → Prog Op Res α)

namespace Prog

variable {Op : Type} {Res : Op → Type} {α β σ : Type}

def bind : Prog Op Res α → (α → Prog Op Res β) → Prog Op Res β
  | .pure a, f => f a
  | .call op next, f => .call op fun r => (next r).bind f

instance : Monad (Prog Op Res) where
  pure := .pure
  bind := .bind

/-- One operation, whose reply is the value. -/
def lift (op : Op) : Prog Op Res (Res op) := .call op .pure

@[simp] theorem pure_bind' (a : α) (f : α → Prog Op Res β) : (Prog.pure a >>= f) = f a := rfl

@[simp] theorem return_eq (a : α) : (return a : Prog Op Res α) = .pure a := rfl

@[simp] theorem call_bind (op : Op) (next : Res op → Prog Op Res α) (f : α → Prog Op Res β) :
    (Prog.call op next >>= f) = .call op fun r => next r >>= f := rfl

@[simp] theorem lift_bind (op : Op) (f : Res op → Prog Op Res β) :
    (lift op >>= f) = .call op f := rfl

theorem bind_assoc' {γ : Type} (p : Prog Op Res α) (f : α → Prog Op Res β) (g : β → Prog Op Res γ) :
    (p >>= f >>= g) = (p >>= fun a => f a >>= g) := by
  induction p with
  | pure a => rfl
  | call op next ih => simp only [call_bind]; congr 1; funext r; exact ih r

/-- One operation, and then a value. -/
def One (p : Prog Op Res α) : Prop := ∃ op next, p = .call op next ∧ ∀ r, ∃ a, next r = .pure a

/-! ## Running one program -/

/-- What each operation replies, and the state it leaves. -/
abbrev Handler (Op : Type) (Res : Op → Type) (σ : Type) := (op : Op) → σ → Res op × σ

def run (h : Handler Op Res σ) : Prog Op Res α → σ → α × σ
  | .pure a, s => (a, s)
  | .call op next, s => (next (h op s).1).run h (h op s).2

@[simp] theorem run_pure (h : Handler Op Res σ) (a : α) (s : σ) : (Prog.pure a).run h s = (a, s) := rfl

theorem run_call (h : Handler Op Res σ) (op : Op) (next : Res op → Prog Op Res α) (s : σ) :
    (Prog.call op next).run h s = (next (h op s).1).run h (h op s).2 := rfl

theorem run_bind (h : Handler Op Res σ) (p : Prog Op Res α) (f : α → Prog Op Res β) (s : σ) :
    (p >>= f).run h s = (f (p.run h s).1).run h (p.run h s).2 := by
  induction p generalizing s with
  | pure a => rfl
  | call op next ih => exact ih _ _

theorem run_call_of {h : Handler Op Res σ} {op : Op} {s t : σ} {r : Res op}
    (next : Res op → Prog Op Res α) (hop : h op s = (r, t)) :
    (Prog.call op next).run h s = (next r).run h t := by
  rw [run_call, hop]

theorem run_bind_of {h : Handler Op Res σ} {p : Prog Op Res α} {s s' : σ} {a : α}
    (f : α → Prog Op Res β) (hp : p.run h s = (a, s')) :
    (p >>= f).run h s = (f a).run h s' := by
  rw [run_bind, hp]

/-! ## Pre- and postconditions -/

/-- From every state with `P`, the program ends in a value and a state with `Q`. -/
def Triple (h : Handler Op Res σ) (P : σ → Prop) (p : Prog Op Res α) (Q : α → σ → Prop) : Prop :=
  ∀ s, P s → Q (p.run h s).1 (p.run h s).2

variable {h : Handler Op Res σ} {P : σ → Prop} {Q : α → σ → Prop}

theorem Triple.pure {a : α} (hQ : ∀ s, P s → Q a s) : Triple h P (.pure a) Q := hQ

theorem Triple.lift {op : Op} {Q : Res op → σ → Prop} (hQ : ∀ s, P s → Q (h op s).1 (h op s).2) :
    Triple h P (.lift op) Q := hQ

theorem Triple.bind (Q : α → σ → Prop) {p : Prog Op Res α} {f : α → Prog Op Res β} {R : β → σ → Prop}
    (hp : Triple h P p Q) (hf : ∀ a, Triple h (Q a) (f a) R) : Triple h P (p >>= f) R := by
  intro s hs
  rw [run_bind]
  exact hf _ _ (hp s hs)

theorem Triple.ite {c : Prop} [Decidable c] {p q : Prog Op Res α}
    (hp : c → Triple h P p Q) (hq : ¬ c → Triple h P q Q) : Triple h P (if c then p else q) Q := by
  split
  · exact hp ‹_›
  · exact hq ‹_›

/-! ## The value of a program -/

/-- Whatever the replies are, the value meets `P`. -/
def Yields (P : α → Prop) : Prog Op Res α → Prop
  | .pure a => P a
  | .call _ next => ∀ r, (next r).Yields P

theorem Yields.bind {P : α → Prop} {Q : β → Prop} {p : Prog Op Res α} {f : α → Prog Op Res β} (hp : p.Yields P)
    (hf : ∀ a, P a → (f a).Yields Q) : (p >>= f).Yields Q := by
  induction p with
  | pure a => exact hf a hp
  | call op next ih => exact fun r => ih r (hp r)

theorem Yields.any (p : Prog Op Res α) : p.Yields fun _ => True := by
  induction p with
  | pure a => trivial
  | call op next ih => exact ih

theorem Yields.after {Q : β → Prop} (p : Prog Op Res α) {f : α → Prog Op Res β} (hf : ∀ a, (f a).Yields Q) :
    (p >>= f).Yields Q := (Yields.any p).bind fun a _ => hf a

theorem Yields.ite {P : α → Prop} {c : Prop} [Decidable c] {p q : Prog Op Res α} (hp : c → p.Yields P)
    (hq : ¬ c → q.Yields P) : (if c then p else q).Yields P := by
  split
  · exact hp ‹_›
  · exact hq ‹_›

theorem Yields.run {P : α → Prop} {p : Prog Op Res α} (hp : p.Yields P) (h : Handler Op Res σ) (s : σ) :
    P (p.run h s).1 := by
  induction p generalizing s with
  | pure a => exact hp
  | call op next ih => exact ih _ (hp _) _

/-! ## The operations of a program -/

/-- Whatever the replies are, each operation meets `ok`. -/
def Uses (ok : Op → Prop) : Prog Op Res α → Prop
  | .pure _ => True
  | .call op next => ok op ∧ ∀ r, (next r).Uses ok

theorem Uses.pure {ok : Op → Prop} {a : α} : (Prog.pure a : Prog Op Res α).Uses ok := trivial

theorem Uses.bind {ok : Op → Prop} {p : Prog Op Res α} {f : α → Prog Op Res β} (hp : p.Uses ok)
    (hf : ∀ a, (f a).Uses ok) : (p >>= f).Uses ok := by
  induction p with
  | pure a => exact hf a
  | call op next ih => exact ⟨hp.1, fun r => ih r (hp.2 r)⟩

theorem Uses.lift {ok : Op → Prop} {op : Op} (h : ok op) : (Prog.lift op : Prog Op Res (Res op)).Uses ok :=
  ⟨h, fun _ => trivial⟩

theorem Uses.mono {ok ok' : Op → Prop} {p : Prog Op Res α} (hp : p.Uses ok) (h : ∀ op, ok op → ok' op) : p.Uses ok' := by
  induction p with
  | pure a => trivial
  | call op next ih => exact ⟨h op hp.1, fun r => ih r (hp.2 r)⟩

theorem Uses.ite {ok : Op → Prop} {c : Prop} [Decidable c] {p q : Prog Op Res α} (hp : p.Uses ok)
    (hq : q.Uses ok) : (if c then p else q).Uses ok := by
  split
  · exact hp
  · exact hq

theorem Uses.any (p : Prog Op Res α) : p.Uses fun _ => True := by
  induction p with
  | pure a => trivial
  | call op next ih => exact ⟨trivial, ih⟩

theorem Uses.run_congr {ok : Op → Prop} {p : Prog Op Res α} {h h' : Handler Op Res σ} (hp : p.Uses ok)
    (heq : ∀ op, ok op → h op = h' op) (s : σ) : p.run h s = p.run h' s := by
  induction p generalizing s with
  | pure a => rfl
  | call op next ih =>
    rw [run_call, run_call, heq op hp.1]
    exact ih _ (hp.2 _) _

/-- The operations of one run, oldest first. -/
def trace (h : Handler Op Res σ) : Prog Op Res α → σ → List Op
  | .pure _, _ => []
  | .call op next, s => op :: (next (h op s).1).trace h (h op s).2

theorem trace_bind (h : Handler Op Res σ) (p : Prog Op Res α) (f : α → Prog Op Res β) (s : σ) :
    (p >>= f).trace h s = p.trace h s ++ (f (p.run h s).1).trace h (p.run h s).2 := by
  induction p generalizing s with
  | pure a => rfl
  | call op next ih => exact congrArg (op :: ·) (ih _ _)

theorem Uses.trace {ok : Op → Prop} {p : Prog Op Res α} (hp : p.Uses ok) (h : Handler Op Res σ) (s : σ) :
    ∀ op ∈ p.trace h s, ok op := by
  induction p generalizing s with
  | pure a => exact fun op hop => absurd hop List.not_mem_nil
  | call op next ih =>
    intro op' hop
    rcases List.mem_cons.mp hop with rfl | hop
    · exact hp.1
    · exact ih _ (hp.2 _) _ _ hop

/-! ## The states of a run -/

/-- The operations of one run, oldest first, each with the state that it starts in. -/
def moments (h : Handler Op Res σ) : Prog Op Res α → σ → List (Op × σ)
  | .pure _, _ => []
  | .call op next, s => (op, s) :: (next (h op s).1).moments h (h op s).2

theorem moments_bind (h : Handler Op Res σ) (p : Prog Op Res α) (f : α → Prog Op Res β) (s : σ) :
    (p >>= f).moments h s = p.moments h s ++ (f (p.run h s).1).moments h (p.run h s).2 := by
  induction p generalizing s with
  | pure a => rfl
  | call op next ih => exact congrArg ((op, s) :: ·) (ih _ _)

theorem Uses.moments {ok : Op → Prop} {p : Prog Op Res α} (hp : p.Uses ok) (h : Handler Op Res σ) (s : σ) :
    ∀ m ∈ p.moments h s, ok m.1 := by
  induction p generalizing s with
  | pure a => exact fun m hm => absurd hm List.not_mem_nil
  | call op next ih =>
    intro m hm
    rcases List.mem_cons.mp hm with rfl | hm
    · exact hp.1
    · exact ih _ (hp.2 _) _ _ hm

/-- What the operations of a run add up to. -/
def total {M : Type} [AddCommMonoid M] (weight : Op → σ → M) (h : Handler Op Res σ) (p : Prog Op Res α) (s : σ) : M :=
  ((p.moments h s).map fun m => weight m.1 m.2).sum

theorem total_bind {M : Type} [AddCommMonoid M] (weight : Op → σ → M) (h : Handler Op Res σ) (p : Prog Op Res α)
    (f : α → Prog Op Res β) (s : σ) :
    (p >>= f).total weight h s = p.total weight h s + (f (p.run h s).1).total weight h (p.run h s).2 := by
  unfold total
  rw [moments_bind, List.map_append, List.sum_append]

/-! ## The replies of a run -/

/-- In the run from a state, each reply meets `ok`. -/
def Meets (ok : (op : Op) → Res op → Prop) (h : Handler Op Res σ) : Prog Op Res α → σ → Prop
  | .pure _, _ => True
  | .call op next, s => ok op (h op s).1 ∧ (next (h op s).1).Meets ok h (h op s).2

instance instDecidableMeets {ok : (op : Op) → Res op → Prop} [∀ op r, Decidable (ok op r)]
    (h : Handler Op Res σ) : (p : Prog Op Res α) → (s : σ) → Decidable (p.Meets ok h s)
  | .pure _, _ => inferInstanceAs (Decidable True)
  | .call op next, s =>
    have : Decidable ((next (h op s).1).Meets ok h (h op s).2) := instDecidableMeets h _ _
    inferInstanceAs (Decidable (_ ∧ _))

theorem meets_bind (ok : (op : Op) → Res op → Prop) (h : Handler Op Res σ) (p : Prog Op Res α)
    (f : α → Prog Op Res β) (s : σ) :
    (p >>= f).Meets ok h s ↔ p.Meets ok h s ∧ (f (p.run h s).1).Meets ok h (p.run h s).2 := by
  induction p generalizing s with
  | pure a => exact ⟨fun hf => ⟨trivial, hf⟩, And.right⟩
  | call op next ih =>
    have hnext := ih (h op s).1 (h op s).2
    exact (and_congr_right' hnext).trans and_assoc.symm

/-! ## Operations that may not return -/

/-- The run of a program; `none` from the first operation on for which the handler has nothing. -/
def tryRun (h : (op : Op) → σ → Option (Res op × σ)) : Prog Op Res α → σ → Option (α × σ)
  | .pure a, s => some (a, s)
  | .call op next, s => (h op s).bind fun r => (next r.1).tryRun h r.2

theorem tryRun_call_of {h : (op : Op) → σ → Option (Res op × σ)} {op : Op} {s t : σ} {r : Res op}
    (next : Res op → Prog Op Res α) (hop : h op s = some (r, t)) :
    (Prog.call op next).tryRun h s = (next r).tryRun h t := by
  rw [tryRun, hop, Option.bind_some]

theorem tryRun_bind (h : (op : Op) → σ → Option (Res op × σ)) (p : Prog Op Res α) (f : α → Prog Op Res β) (s : σ) :
    (p >>= f).tryRun h s = (p.tryRun h s).bind fun r => (f r.1).tryRun h r.2 := by
  induction p generalizing s with
  | pure a => rfl
  | call op next ih =>
    rw [call_bind, tryRun, tryRun]
    cases h op s with
    | none => rfl
    | some r => exact ih _ _

theorem tryRun_bind_of {h : (op : Op) → σ → Option (Res op × σ)} {p : Prog Op Res α} {s t : σ} {a : α}
    (f : α → Prog Op Res β) (hp : p.tryRun h s = some (a, t)) : (p >>= f).tryRun h s = (f a).tryRun h t := by
  rw [tryRun_bind, hp, Option.bind_some]

theorem tryRun_bind_none {h : (op : Op) → σ → Option (Res op × σ)} {p : Prog Op Res α} {s : σ}
    (f : α → Prog Op Res β) (hp : p.tryRun h s = none) : (p >>= f).tryRun h s = none := by
  rw [tryRun_bind, hp, Option.bind_none]

theorem Uses.tryRun {ok : Op → Prop} {h : (op : Op) → σ → Option (Res op × σ)} {h' : Handler Op Res σ}
    {p : Prog Op Res α} (hp : p.Uses ok) (heq : ∀ op s, ok op → h op s = some (h' op s)) (s : σ) :
    p.tryRun h s = some (p.run h' s) := by
  induction p generalizing s with
  | pure a => rfl
  | call op next ih =>
    rw [tryRun_call_of next (heq op s hp.1), run_call]
    exact ih _ (hp.2 _) _

/-! ## Programs one after another -/

theorem foldl_invariant {f : σ → α → σ} {s : σ} {l : List α} (I : List α → σ → Prop) (h0 : I [] s)
    (hstep : ∀ done a, done ++ [a] <+: l → I done (done.foldl f s) → I (done ++ [a]) (f (done.foldl f s) a)) :
    ∀ done, done <+: l → I done (done.foldl f s) := by
  intro done
  induction done using List.reverseRecOn with
  | nil => exact fun _ => h0
  | append_singleton done a ih =>
    intro hpre
    rw [List.foldl_append]
    exact hstep done a hpre (ih ((List.prefix_append done [a]).trans hpre))

end Prog
