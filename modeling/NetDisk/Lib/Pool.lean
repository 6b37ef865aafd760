import NetDisk.Lib.Prog
import Mathlib.Logic.Relation

/-!
# Pools of programs

Programs that run over one state, one operation at a time, in any order. Each thread is reasoned
about alone: it relies on what the others promise of each of their operations, and on what holds all
along.
-/

namespace Prog

variable {Op : Type} {Res : Op → Type} {α β σ ι : Type}

/-- What has been run, oldest first, and the state it left. -/
structure Hist (σ ι Op : Type) where
  trace : List (ι × Op)
  state : σ

/-- How the threads run: what their operations do, when an operation must wait, and which steps a run
may take. -/
structure Sched (σ ι Op : Type) (Res : Op → Type) where
  handler : ι → Handler Op Res σ
  ready : Op → σ → Bool
  ok : Hist σ ι Op → ι → Op → Prop

def Sched.after (π : Sched σ ι Op Res) (t : Hist σ ι Op) (i : ι) (op : Op) : Hist σ ι Op :=
  ⟨t.trace ++ [(i, op)], (π.handler i op t.state).2⟩

/-- The same in any order. -/
def Sched.free (π : Sched σ ι Op Res) : Sched σ ι Op Res := { π with ok := fun _ _ _ => True }

/-- The state that the operations of a history leave. -/
def Sched.ran (π : Sched σ ι Op Res) (s : σ) (trace : List (ι × Op)) : σ :=
  trace.foldl (fun s e => (π.handler e.1 e.2 s).2) s

theorem Sched.ran_append (π : Sched σ ι Op Res) (s : σ) (trace later : List (ι × Op)) :
    π.ran s (trace ++ later) = π.ran (π.ran s trace) later :=
  List.foldl_append ..

/-- A history whose state is what its operations left. -/
def Sched.From (π : Sched σ ι Op Res) (s : σ) (t : Hist σ ι Op) : Prop := t.state = π.ran s t.trace

theorem Sched.From.after {π : Sched σ ι Op Res} {s : σ} {t : Hist σ ι Op} (h : π.From s t) (i : ι) (op : Op) :
    π.From s (π.after t i op) := by
  unfold Sched.From
  change (π.handler i op t.state).2 = π.ran s (t.trace ++ [(i, op)])
  rw [ran_append, ← h]
  rfl

theorem Sched.split_after {π : Sched σ ι Op Res} {t : Hist σ ι Op} {i : ι} {op : Op} {before later : List (ι × Op)}
    {e : ι × Op} (h : (π.after t i op).trace = before ++ e :: later) :
    before = t.trace ∧ e = (i, op) ∨ ∃ later', t.trace = before ++ e :: later' := by
  change t.trace ++ [(i, op)] = before ++ e :: later at h
  rcases List.eq_nil_or_concat later with rfl | ⟨later', last, rfl⟩
  · obtain ⟨htrace, he⟩ := List.append_inj' h rfl
    exact Or.inl ⟨htrace.symm, (List.cons.inj he).1.symm⟩
  · rw [List.concat_eq_append, ← List.cons_append, ← List.append_assoc] at h
    exact Or.inr ⟨later', (List.append_inj' h rfl).1⟩

theorem Sched.mem_after (π : Sched σ ι Op Res) (t : Hist σ ι Op) (i j : ι) (op op' : Op) :
    (j, op') ∈ (π.after t i op).trace ↔ (j, op') ∈ t.trace ∨ j = i ∧ op' = op := by
  simp [Sched.after]

/-! ## Runs -/

/-- The history, and what each thread still has to run. -/
structure Pool (σ ι Op : Type) (Res : Op → Type) (α : Type) where
  hist : Hist σ ι Op
  thread : ι → Prog Op Res α

section
variable [DecidableEq ι]

/-- Thread `i` runs `op`. -/
def Pool.next (π : Sched σ ι Op Res) (c : Pool σ ι Op Res α) (i : ι) (op : Op) (k : Res op → Prog Op Res α) :
    Pool σ ι Op Res α :=
  ⟨π.after c.hist i op, Function.update c.thread i (k (π.handler i op c.hist.state).1)⟩

inductive Pool.Runs (π : Sched σ ι Op Res) (c : Pool σ ι Op Res α) : Pool σ ι Op Res α → Prop
  | start : Pool.Runs π c c
  | step {d : Pool σ ι Op Res α} {i : ι} {op : Op} {k : Res op → Prog Op Res α} :
      Pool.Runs π c d → d.thread i = .call op k → π.ready op d.hist.state = true → π.ok d.hist i op →
      Pool.Runs π c (d.next π i op k)

theorem Pool.Runs.trans {π : Sched σ ι Op Res} {b c d : Pool σ ι Op Res α} (hb : Pool.Runs π b c) (hc : Pool.Runs π c d) :
    Pool.Runs π b d := by
  induction hc with
  | start => exact hb
  | step _ hthread hready hok ih => exact .step ih hthread hready hok

/-- A run in the order of a schedule, as far as each step can be taken and `allowed` says so. -/
def Pool.play (π : Sched σ ι Op Res) (allowed : Hist σ ι Op → ι → Op → Bool) :
    List ι → Pool σ ι Op Res α → Option (Pool σ ι Op Res α)
  | [], c => some c
  | i :: schedule, c =>
    match c.thread i with
    | .pure _ => none
    | .call op k =>
      if π.ready op c.hist.state = true ∧ allowed c.hist i op = true then
        Pool.play π allowed schedule (c.next π i op k)
      else none

theorem Pool.play_runs {π : Sched σ ι Op Res} {allowed : Hist σ ι Op → ι → Op → Bool}
    (hok : ∀ t i op, allowed t i op = true → π.ok t i op) {schedule : List ι} {b c d : Pool σ ι Op Res α}
    (hb : Pool.Runs π b c) (h : Pool.play π allowed schedule c = some d) : Pool.Runs π b d := by
  induction schedule generalizing c with
  | nil =>
    rw [← Option.some.inj h]
    exact hb
  | cons i schedule ih =>
    unfold Pool.play at h
    split at h
    · cases h
    · rename_i op k hthread
      split at h
      · rename_i hstep
        exact ih (.step hb hthread hstep.1 (hok _ _ _ hstep.2)) h
      · cases h

/-- The value of a program that has ended. -/
def value : Prog Op Res α → Option α
  | .pure a => some a
  | .call _ _ => none

theorem eq_pure_of_value {p : Prog Op Res α} {a : α} (h : p.value = some a) : p = .pure a := by
  cases p with
  | pure b => rw [Option.some.inj h]
  | call op next => cases h

theorem Pool.play_shows {γ : Type} {π : Sched σ ι Op Res} {allowed : Hist σ ι Op → ι → Op → Bool}
    (hok : ∀ t i op, allowed t i op = true → π.ok t i op) (schedule : List ι) (c : Pool σ ι Op Res α)
    (f : Pool σ ι Op Res α → γ) (x : γ) (h : (Pool.play π allowed schedule c).map f = some x) :
    ∃ d, Pool.Runs π c d ∧ f d = x := by
  obtain ⟨d, hd, hx⟩ := Option.map_eq_some_iff.mp h
  exact ⟨d, Pool.play_runs hok .start hd, hx⟩

theorem Pool.play_values {π : Sched σ ι Op Res} {allowed : Hist σ ι Op → ι → Op → Bool}
    (hok : ∀ t i op, allowed t i op = true → π.ok t i op) (schedule : List ι) (c : Pool σ ι Op Res α) (v : ι → α)
    (h : ((Pool.play π allowed schedule c).map fun d i => (d.thread i).value) = some fun i => some (v i)) :
    ∃ d, Pool.Runs π c d ∧ ∀ i, d.thread i = .pure (v i) := by
  obtain ⟨d, hr, hv⟩ := Pool.play_shows hok schedule c (fun d i => (d.thread i).value) _ h
  exact ⟨d, hr, fun i => eq_pure_of_value (congrFun hv i)⟩

end

/-! ## One thread among the others -/

/-- What a run keeps, and what each thread promises of its operations. -/
structure Proto (σ ι Op : Type) (Res : Op → Type) extends Sched σ ι Op Res where
  inv : Hist σ ι Op → Prop
  promise : Hist σ ι Op → ι → Op → Prop
  inv_after : ∀ t i op, inv t → ready op t.state = true → ok t i op → promise t i op →
    inv (toSched.after t i op)

namespace Proto

variable (π : Proto σ ι Op Res) (i : ι)

/-- One step of another thread. -/
def Other (t t' : Hist σ ι Op) : Prop :=
  ∃ j op, j ≠ i ∧ π.inv t ∧ π.ready op t.state = true ∧ π.ok t j op ∧ π.promise t j op ∧ t' = π.after t j op

/-- No step of another thread makes it false. -/
def Stable (P : Hist σ ι Op → Prop) : Prop :=
  ∀ t j op, j ≠ i → π.inv t → π.ready op t.state = true → π.ok t j op → π.promise t j op → P t →
    P (π.after t j op)

/-- No step of any thread makes it false. -/
def Steady (P : Hist σ ι Op → Prop) : Prop :=
  ∀ t j op, π.inv t → π.ready op t.state = true → π.ok t j op → π.promise t j op → P t → P (π.after t j op)

/-- Whatever the others do between its operations, the thread keeps its promises and ends with `Q`. -/
def Sat (Q : α → Hist σ ι Op → Prop) : Prog Op Res α → Hist σ ι Op → Prop
  | .pure a, t => ∀ t', Relation.ReflTransGen (π.Other i) t t' → π.inv t' → Q a t'
  | .call op next, t => ∀ t', Relation.ReflTransGen (π.Other i) t t' → π.inv t' →
      π.ready op t'.state = true → π.ok t' i op →
      π.promise t' i op ∧ Sat Q (next (π.handler i op t'.state).1) (π.after t' i op)

variable {π i} {P : Hist σ ι Op → Prop} {Q : α → Hist σ ι Op → Prop}

theorem Stable.later (hP : π.Stable i P) {t t' : Hist σ ι Op} (h : Relation.ReflTransGen (π.Other i) t t')
    (ht : P t) : P t' := by
  induction h with
  | refl => exact ht
  | tail _ hstep ih =>
    obtain ⟨j, op, hj, hinv, hready, hok, hpro, rfl⟩ := hstep
    exact hP _ j op hj hinv hready hok hpro ih

theorem Stable.const {p : Prop} : π.Stable i fun _ => p := fun _ _ _ _ _ _ _ _ h => h

theorem Stable.and {P' : Hist σ ι Op → Prop} (hP : π.Stable i P) (hP' : π.Stable i P') :
    π.Stable i fun t => P t ∧ P' t :=
  fun t j op hj hinv hready hok hpro h =>
    ⟨hP t j op hj hinv hready hok hpro h.1, hP' t j op hj hinv hready hok hpro h.2⟩

theorem Stable.imp {p : Prop} (hP : p → π.Stable i P) : π.Stable i fun t => p → P t :=
  fun t j op hj hinv hready hok hpro h hp => hP hp t j op hj hinv hready hok hpro (h hp)

theorem Stable.exists {γ : Type} {P : γ → Hist σ ι Op → Prop} (hP : ∀ x, π.Stable i (P x)) :
    π.Stable i fun t => ∃ x, P x t :=
  fun t j op hj hinv hready hok hpro ⟨x, h⟩ => ⟨x, hP x t j op hj hinv hready hok hpro h⟩

theorem Steady.stable (hP : π.Steady P) : π.Stable i P := fun t j op _ => hP t j op

theorem Steady.and {P' : Hist σ ι Op → Prop} (hP : π.Steady P) (hP' : π.Steady P') :
    π.Steady fun t => P t ∧ P' t :=
  fun t j op hinv hready hok hpro h => ⟨hP t j op hinv hready hok hpro h.1, hP' t j op hinv hready hok hpro h.2⟩

theorem Steady.imp {p : Prop} (hP : π.Steady P) : π.Steady fun t => p → P t :=
  fun t j op hinv hready hok hpro h hp => hP t j op hinv hready hok hpro (h hp)

theorem Sat.later {p : Prog Op Res α} {t t' : Hist σ ι Op} (h : π.Sat i Q p t)
    (hr : Relation.ReflTransGen (π.Other i) t t') : π.Sat i Q p t' := by
  cases p with
  | pure a => exact fun t'' hr' => h t'' (hr.trans hr')
  | call op next => exact fun t'' hr' => h t'' (hr.trans hr')

theorem Sat.pure {a : α} {t : Hist σ ι Op} (hstable : π.Stable i P) (ht : P t)
    (hQ : ∀ t, π.inv t → P t → Q a t) : π.Sat i Q (.pure a) t :=
  fun t' hr hinv => hQ t' hinv (hstable.later hr ht)

theorem Sat.lift {op : Op} {Q : Res op → Hist σ ι Op → Prop} {t : Hist σ ι Op} (hstable : π.Stable i P) (ht : P t)
    (hQ : ∀ a, π.Stable i (Q a))
    (hop : ∀ t, π.inv t → π.ready op t.state = true → π.ok t i op → P t →
      π.promise t i op ∧ Q (π.handler i op t.state).1 (π.after t i op)) :
    π.Sat i Q (.lift op) t := by
  intro t' hr hinv hready hok
  obtain ⟨hpro, hq⟩ := hop t' hinv hready hok (hstable.later hr ht)
  exact ⟨hpro, fun t'' hr' _ => (hQ _).later hr' hq⟩

theorem Sat.bind {p : Prog Op Res α} {f : α → Prog Op Res β} {R : β → Hist σ ι Op → Prop} {t : Hist σ ι Op}
    (hp : π.Sat i Q p t) (hinv : π.inv t) (hf : ∀ a t, π.inv t → Q a t → π.Sat i R (f a) t) :
    π.Sat i R (p >>= f) t := by
  induction p generalizing t with
  | pure a => exact hf a t hinv (hp t .refl hinv)
  | call op next ih =>
    intro t' hr hinv' hready hok
    obtain ⟨hpro, hnext⟩ := hp t' hr hinv' hready hok
    exact ⟨hpro, ih _ hnext (π.inv_after t' i op hinv' hready hok hpro)⟩

theorem Sat.once {op : Op} {f : Res op → Prog Op Res α} {t : Hist σ ι Op} (hend : ∀ r, ∃ a, f r = .pure a)
    (hstable : π.Stable i P) (ht : P t) (hQ : ∀ a, π.Stable i (Q a))
    (hop : ∀ t, π.inv t → π.ready op t.state = true → π.ok t i op → P t →
      π.promise t i op ∧ Q ((Prog.lift op >>= f).run (π.handler i) t.state).1 (π.after t i op)) :
    π.Sat i Q (Prog.lift op >>= f) t := by
  intro t' hr hinv hready hok
  obtain ⟨hpro, hq⟩ := hop t' hinv hready hok (hstable.later hr ht)
  obtain ⟨a, ha⟩ := hend (π.handler i op t'.state).1
  rw [lift_bind, run_call, ha] at hq
  refine ⟨hpro, ?_⟩
  change π.Sat i Q (f (π.handler i op t'.state).1) (π.after t' i op)
  rw [ha]
  exact fun t'' hr' _ => (hQ a).later hr' hq

theorem Sat.uses {ok : Op → Prop} {p : Prog Op Res α} {t : Hist σ ι Op} (hp : p.Uses ok)
    (hpro : ∀ t op, P t → ok op → π.promise t i op) (hstable : π.Stable i P) (hown : ∀ t op, P t → P (π.after t i op))
    (ht : P t) : π.Sat i (fun _ => P) p t := by
  induction p generalizing t with
  | pure a => exact fun t' hr _ => hstable.later hr ht
  | call op next ih =>
    intro t' hr _ _ _
    have ht' := hstable.later hr ht
    exact ⟨hpro t' op ht' hp.1, ih _ (hp.2 _) (hown t' op ht')⟩

theorem Sat.steady {ok : Op → Prop} {p : Prog Op Res α} {t : Hist σ ι Op} (hp : p.Uses ok) (hP : π.Steady P)
    (hpro : ∀ t op, π.inv t → P t → ok op → π.promise t i op) (ht : P t) : π.Sat i (fun _ => P) p t := by
  induction p generalizing t with
  | pure a => exact fun t' hr _ => hP.stable.later hr ht
  | call op next ih =>
    intro t' hr hinv hready hok
    have ht' := hP.stable.later hr ht
    have hpro' := hpro t' op hinv ht' hp.1
    exact ⟨hpro', ih _ (hp.2 _) (hP t' i op hinv hready hok hpro' ht')⟩

theorem Sat.weaken {p : Prog Op Res α} {Q' : α → Hist σ ι Op → Prop} {t : Hist σ ι Op} (hp : π.Sat i Q p t)
    (hQ : ∀ a t, π.inv t → Q a t → Q' a t) : π.Sat i Q' p t := by
  induction p generalizing t with
  | pure a => exact fun t' hr hinv => hQ a t' hinv (hp t' hr hinv)
  | call op next ih =>
    intro t' hr hinv hready hok
    obtain ⟨hpro, hnext⟩ := hp t' hr hinv hready hok
    exact ⟨hpro, ih _ hnext⟩

variable [DecidableEq ι] in
/-- Threads that each do their part alone do it together. -/
theorem runs (π : Proto σ ι Op Res) {Q : ι → α → Hist σ ι Op → Prop} {c d : Pool σ ι Op Res α} (hr : Pool.Runs π.toSched c d)
    (hinv : π.inv c.hist) (hc : ∀ i, π.Sat i (Q i) (c.thread i) c.hist) :
    π.inv d.hist ∧ ∀ i, π.Sat i (Q i) (d.thread i) d.hist := by
  induction hr with
  | start => exact ⟨hinv, hc⟩
  | @step d i op k _ hthread hready hok ih =>
    obtain ⟨hd, hsat⟩ := ih
    have hi := hsat i
    rw [hthread] at hi
    obtain ⟨hpro, hnext⟩ := hi d.hist .refl hd hready hok
    refine ⟨π.inv_after d.hist i op hd hready hok hpro, ?_⟩
    intro j
    unfold Pool.next
    dsimp only
    by_cases hj : j = i
    · subst hj
      rw [Function.update_self]
      exact hnext
    · rw [Function.update_of_ne hj]
      exact (hsat j).later (.single ⟨i, op, Ne.symm hj, hd, hready, hok, hpro, rfl⟩)

variable [DecidableEq ι] in
/-- What relates the two ends of each step relates those of a run. -/
theorem relates (π : Proto σ ι Op Res) {Q : ι → α → Hist σ ι Op → Prop} {R : Hist σ ι Op → Hist σ ι Op → Prop}
    (hrefl : ∀ t, R t t) (htrans : ∀ t t' t'', R t t' → R t' t'' → R t t'')
    (hstep : ∀ t i op, π.inv t → π.ready op t.state = true → π.ok t i op → π.promise t i op → R t (π.after t i op))
    {c d : Pool σ ι Op Res α} (hr : Pool.Runs π.toSched c d) (hinv : π.inv c.hist)
    (hc : ∀ i, π.Sat i (Q i) (c.thread i) c.hist) : R c.hist d.hist := by
  induction hr with
  | start => exact hrefl _
  | @step d i op k hr hthread hready hok ih =>
    obtain ⟨hd, hsat⟩ := π.runs hr hinv hc
    have hi := hsat i
    rw [hthread] at hi
    exact htrans _ _ _ ih (hstep d.hist i op hd hready hok (hi d.hist .refl hd hready hok).1)

variable [DecidableEq ι] in
theorem kept (π : Proto σ ι Op Res) {Q : ι → α → Hist σ ι Op → Prop} {c d : Pool σ ι Op Res α}
    (hr : Pool.Runs π.toSched c d) (hstart : c.hist.trace = []) (hinv : π.inv c.hist)
    (hc : ∀ i, π.Sat i (Q i) (c.thread i) c.hist) :
    π.From c.hist.state d.hist ∧ ∀ before i op later, d.hist.trace = before ++ (i, op) :: later →
      π.promise ⟨before, π.ran c.hist.state before⟩ i op := by
  induction hr with
  | start =>
    constructor
    · unfold Sched.From
      rw [hstart]
      rfl
    · intro before i op later h
      rw [hstart] at h
      exact absurd h.symm (by simp)
  | @step d i op k hr hthread hready hok ih =>
    obtain ⟨hfrom, hkept⟩ := ih
    refine ⟨hfrom.after i op, ?_⟩
    intro before i' op' later h
    rcases Sched.split_after h with ⟨rfl, he⟩ | ⟨later', h⟩
    · obtain ⟨rfl, rfl⟩ := Prod.mk.inj he
      obtain ⟨hd, hsat⟩ := π.runs hr hinv hc
      have hi := hsat i'
      rw [hthread] at hi
      rw [← hfrom]
      exact (hi d.hist .refl hd hready hok).1
    · exact hkept before i' op' later' h

end Proto

end Prog
