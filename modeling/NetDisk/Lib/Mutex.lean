import NetDisk.Lib.Ending
import NetDisk.Lib.Phases

/-!
# Programs with a lock

Each thread takes the lock only when it does not have it, gives it back only when it has it, and ends without it.
So no two threads have it at once, what is kept under it is left to the one that has it, and none keeps the others
from their ends.
-/

namespace Prog

variable {Op : Type} {Res : Op → Type} {α β σ ι : Type}

/-- A lock of a schedule that is free otherwise: nothing else waits, and nothing else changes whether it is held.
Operations `inside` it are for the thread that has it. -/
structure Lock (π : Sched σ ι Op Res) where
  lock : Op
  unlock : Op
  inside : Op → Prop
  held : σ → Bool
  ne : lock ≠ unlock
  inside_ne : ∀ op, inside op → op ≠ lock ∧ op ≠ unlock
  ready_lock : ∀ s, held s = false → π.ready lock s = true
  lock_ready : ∀ s, π.ready lock s = true → held s = false
  ready_other : ∀ op s, op ≠ lock → π.ready op s = true
  held_lock : ∀ i s, held (π.handler i lock s).2 = true
  held_unlock : ∀ i s, held (π.handler i unlock s).2 = false
  held_other : ∀ i op s, op ≠ lock → op ≠ unlock → held (π.handler i op s).2 = held s
  ok : ∀ t i op, π.ok t i op

namespace Lock

variable {π : Sched σ ι Op Res} (L : Lock π)

/-- An operation that has nothing to do with the lock. -/
def Outside (op : Op) : Prop := op ≠ L.lock ∧ op ≠ L.unlock ∧ ¬L.inside op

/-- Whether the thread has the lock before an operation, and after it. -/
inductive Turns : Op → Bool → Bool → Prop
  | lock : Turns L.lock false true
  | unlock : Turns L.unlock true false
  | inside {op : Op} (h : L.inside op) : Turns op true true
  | outside {op : Op} (h : L.Outside op) (has : Bool) : Turns op has has

theorem Turns.lock_without {has has' : Bool} (h : L.Turns L.lock has has') : has = false := by
  generalize hop : L.lock = op at h
  cases h with
  | lock => rfl
  | unlock => exact absurd hop L.ne
  | inside h => exact absurd hop.symm (L.inside_ne _ h).1
  | outside h => exact absurd hop.symm h.1

/-- A thread that starts with the lock or without it ends so as `last` says. -/
abbrev Guards (last : Bool) : Bool → Prog Op Res α → Prop := Phased L.Turns (· = last)

variable {L}

/-! ## Who has it -/

section
variable [DecidableEq ι] (L)

/-- The thread that has the lock, if any. -/
structure Holds (holder : Option ι) (c : Pool σ ι Op Res α) : Prop where
  held : L.held c.hist.state = holder.isSome
  guards : ∀ i, L.Guards false (decide (holder = some i)) (c.thread i)

variable {L} {holder : Option ι} {c d : Pool σ ι Op Res α}

theorem Holds.start (hheld : L.held c.hist.state = false) (hc : ∀ i, L.Guards false false (c.thread i)) : L.Holds none c :=
  ⟨hheld, hc⟩

theorem Holds.others {holder holder' : Option ι} (h : L.Holds holder c) {i : ι} {op : Op} {k : Res op → Prog Op Res α}
    (hheld : L.held (π.handler i op c.hist.state).2 = holder'.isSome)
    (hself : L.Guards false (decide (holder' = some i)) (k (π.handler i op c.hist.state).1))
    (hothers : ∀ j, j ≠ i → (holder' = some j ↔ holder = some j)) : L.Holds holder' (c.next π i op k) := by
  refine ⟨hheld, fun j => ?_⟩
  unfold Pool.next
  dsimp only
  by_cases hj : j = i
  · subst hj
    rw [Function.update_self]
    exact hself
  · rw [Function.update_of_ne hj, decide_eq_decide.mpr (hothers j hj)]
    exact h.guards j

theorem Holds.step (h : L.Holds holder c) {i : ι} {op : Op} {k : Res op → Prog Op Res α} (hthread : c.thread i = .call op k)
    (hready : π.ready op c.hist.state = true) :
    (op = L.lock ∧ holder = none ∧ L.Holds (some i) (c.next π i op k)) ∨
    (op = L.unlock ∧ holder = some i ∧ L.Holds none (c.next π i op k)) ∨
    (op ≠ L.lock ∧ op ≠ L.unlock ∧ (L.inside op → holder = some i) ∧ L.Holds holder (c.next π i op k)) := by
  have hi := h.guards i
  rw [hthread] at hi
  obtain ⟨has', hturn, hnext⟩ := hi
  generalize hhas : decide (holder = some i) = has at hturn
  cases hturn with
  | lock =>
    obtain rfl : holder = none := by
      have hfree := L.lock_ready _ hready
      rw [h.held] at hfree
      simpa using hfree
    refine Or.inl ⟨rfl, rfl, h.others (L.held_lock i _) (by simpa using hnext _) fun j hj => ?_⟩
    simp [Ne.symm hj]
  | unlock =>
    obtain rfl := of_decide_eq_true hhas
    refine Or.inr (Or.inl ⟨rfl, rfl, h.others (L.held_unlock i _) (by simpa using hnext _) fun j hj => ?_⟩)
    simp [Ne.symm hj]
  | inside hin =>
    obtain ⟨hl, hu⟩ := L.inside_ne op hin
    refine Or.inr (Or.inr ⟨hl, hu, fun _ => of_decide_eq_true hhas, h.others ?_ (hhas ▸ hnext _) fun j _ => Iff.rfl⟩)
    rw [L.held_other i op _ hl hu]
    exact h.held
  | outside hout =>
    obtain ⟨hl, hu, hnot⟩ := hout
    refine Or.inr (Or.inr ⟨hl, hu, fun hin => absurd hin hnot, h.others ?_ (hhas ▸ hnext _) fun j _ => Iff.rfl⟩)
    rw [L.held_other i op _ hl hu]
    exact h.held

theorem Holds.runs (h : L.Holds holder c) (hr : Pool.Runs π c d) : ∃ holder', L.Holds holder' d := by
  induction hr with
  | start => exact ⟨holder, h⟩
  | step _ hthread hready _ ih =>
    obtain ⟨holder', h'⟩ := ih
    rcases h'.step hthread hready with ⟨-, -, h⟩ | ⟨-, -, h⟩ | ⟨-, -, -, h⟩ <;> exact ⟨_, h⟩

/-! ## How often it was taken -/

variable [DecidableEq Op]

variable (L) in
/-- Each thread has given the lock back as often as it has taken it, but for the one that has it. -/
def Counts (holder : Option ι) (trace : List (ι × Op)) : Prop :=
  ∀ i, trace.count (i, L.lock) = trace.count (i, L.unlock) + if holder = some i then 1 else 0

variable (L) in
/-- What is kept under the lock was run by the thread that had it. -/
def Exclusive (trace : List (ι × Op)) : Prop :=
  ∀ before i op later, trace = before ++ (i, op) :: later → L.inside op → L.Counts (some i) before

theorem Counts.lock {trace : List (ι × Op)} (h : L.Counts none trace) (i : ι) :
    L.Counts (some i) (trace ++ [(i, L.lock)]) := by
  intro j
  have hj := h j
  rw [List.count_append, List.count_append, List.count_singleton, List.count_singleton]
  by_cases hji : i = j
  · subst hji
    simp [L.ne] at hj ⊢
    omega
  · simp [hji] at hj ⊢
    omega

theorem Counts.unlock {trace : List (ι × Op)} {i : ι} (h : L.Counts (some i) trace) :
    L.Counts none (trace ++ [(i, L.unlock)]) := by
  intro j
  have hj := h j
  rw [List.count_append, List.count_append, List.count_singleton, List.count_singleton]
  by_cases hji : i = j
  · subst hji
    simp [L.ne.symm] at hj ⊢
    omega
  · simp [hji] at hj ⊢
    omega

theorem Counts.other {trace : List (ι × Op)} (h : L.Counts holder trace) {i : ι} {op : Op} (hl : op ≠ L.lock)
    (hu : op ≠ L.unlock) : L.Counts holder (trace ++ [(i, op)]) := by
  intro j
  have hj := h j
  rw [List.count_append, List.count_append, List.count_singleton, List.count_singleton]
  simp [hl, hu, hj]

theorem Exclusive.after {t : Hist σ ι Op} (h : L.Exclusive t.trace) {i : ι} {op : Op}
    (hop : L.inside op → L.Counts (some i) t.trace) : L.Exclusive (π.after t i op).trace := by
  intro before i' op' later htrace hin
  rcases Sched.split_after htrace with ⟨rfl, he⟩ | ⟨later', htrace⟩
  · obtain ⟨rfl, rfl⟩ := Prod.mk.inj he
    exact hop hin
  · exact h before i' op' later' htrace hin

theorem Holds.counts (h : L.Holds none c) (htrace : c.hist.trace = []) (hr : Pool.Runs π c d) :
    ∃ holder, L.Holds holder d ∧ L.Counts holder d.hist.trace ∧ L.Exclusive d.hist.trace := by
  induction hr with
  | start =>
    refine ⟨none, h, fun i => ?_, fun before i op later hsplit => ?_⟩
    · rw [htrace]
      rfl
    · rw [htrace] at hsplit
      exact absurd hsplit.symm (by simp)
  | step _ hthread hready _ ih =>
    obtain ⟨holder, hd, hcounts, hexclusive⟩ := ih
    rcases hd.step hthread hready with ⟨rfl, rfl, h⟩ | ⟨rfl, rfl, h⟩ | ⟨hl, hu, hin, h⟩
    · exact ⟨_, h, hcounts.lock _, hexclusive.after fun hin => absurd rfl (L.inside_ne _ hin).1⟩
    · exact ⟨_, h, hcounts.unlock, hexclusive.after fun hin => absurd rfl (L.inside_ne _ hin).2⟩
    · exact ⟨_, h, hcounts.other hl hu, hexclusive.after fun hop => hin hop ▸ hcounts⟩

/-! ## To the end -/

omit [DecidableEq Op] in
theorem Holds.finish {i : ι} (h : L.Holds holder c) (hfree : ∀ j, holder = some j → j = i) : ∃ d, Pool.Runs π c d ∧
    L.Holds none d ∧ (∃ a, d.thread i = .pure a) ∧ ∀ j, j ≠ i → d.thread j = c.thread j := by
  generalize hp : c.thread i = p
  induction p generalizing c holder with
  | pure a =>
    have hi := h.guards i
    rw [hp] at hi
    have hnone : holder = none := by
      cases holder with
      | none => rfl
      | some j => exact absurd (congrArg some (hfree j rfl)) (of_decide_eq_false hi)
    exact ⟨c, .start, hnone ▸ h, ⟨a, hp⟩, fun j _ => rfl⟩
  | call op next ih =>
    have hready : π.ready op c.hist.state = true := by
      by_cases hl : op = L.lock
      · subst hl
        refine L.ready_lock _ ?_
        have hi := h.guards i
        rw [hp] at hi
        obtain ⟨has', hturn, -⟩ := hi
        rw [h.held]
        cases holder with
        | none => rfl
        | some j => exact absurd (congrArg some (hfree j rfl)) (of_decide_eq_false hturn.lock_without)
      · exact L.ready_other op _ hl
    have hstep : Pool.Runs π c (c.next π i op next) := .step .start hp hready (L.ok _ _ _)
    have hself : (c.next π i op next).thread i = next (π.handler i op c.hist.state).1 := Function.update_self ..
    obtain ⟨holder', h', hfree'⟩ : ∃ holder', L.Holds holder' (c.next π i op next) ∧ ∀ j, holder' = some j → j = i := by
      rcases h.step hp hready with ⟨-, -, h'⟩ | ⟨-, -, h'⟩ | ⟨-, -, -, h'⟩
      · exact ⟨_, h', fun j hj => (Option.some.inj hj).symm⟩
      · exact ⟨_, h', fun j hj => nomatch hj⟩
      · exact ⟨_, h', hfree⟩
    obtain ⟨d, hrun, hd, hend, hothers⟩ := ih _ h' hfree' hself
    exact ⟨d, hstep.trans hrun, hd, hend, fun j hj => (hothers j hj).trans (Function.update_of_ne hj ..)⟩

omit [DecidableEq Op] in
/-- From any point on, any threads can run to their ends. -/
theorem Holds.finishable (h : L.Holds holder c) (threads : List ι) : ∃ d, Pool.Runs π c d ∧
    ∀ i ∈ threads, ∃ a, d.thread i = .pure a := by
  -- The one that has the lock goes first.
  obtain ⟨b, hb, hnone⟩ : ∃ b, Pool.Runs π c b ∧ L.Holds none b := by
    cases holder with
    | none => exact ⟨c, .start, h⟩
    | some i =>
      obtain ⟨b, hb, hnone, -⟩ := h.finish (i := i) fun j hj => (Option.some.inj hj).symm
      exact ⟨b, hb, hnone⟩
  have hall : ∃ d, Pool.Runs π b d ∧ L.Holds none d ∧ ∀ i ∈ threads, ∃ a, d.thread i = .pure a := by
    induction threads with
    | nil => exact ⟨b, .start, hnone, fun i hi => absurd hi List.not_mem_nil⟩
    | cons i threads ih =>
      obtain ⟨d, hd, hnone, hends⟩ := ih
      obtain ⟨e, he, hnone', hend, hothers⟩ := hnone.finish (i := i) fun j hj => nomatch hj
      refine ⟨e, hd.trans he, hnone', List.forall_mem_cons.mpr ⟨hend, fun j hj => ?_⟩⟩
      by_cases hji : j = i
      · exact hji ▸ hend
      · rw [hothers j hji]
        exact hends j hj
  obtain ⟨d, hd, -, hends⟩ := hall
  exact ⟨d, hb.trans hd, hends⟩

omit [DecidableEq Op] in
/-- Where no thread can go on, none has anything left: the lock is free, or the one that has it need not wait. -/
theorem Holds.ended (h : L.Holds holder c) (hstuck : ∀ d, ¬Pool.Step π c d) (i : ι) : ∃ a, c.thread i = .pure a := by
  have hwaits : ∀ j op k, c.thread j = .call op k → op = L.lock := by
    intro j op k hthread
    by_contra hl
    exact hstuck _ (.run hthread (L.ready_other op _ hl) (L.ok _ _ _))
  cases hi : c.thread i with
  | pure a => exact ⟨a, rfl⟩
  | call op k =>
    obtain rfl := hwaits i op k hi
    exfalso
    cases holder with
    | none => exact hstuck _ (.run hi (L.ready_lock _ h.held) (L.ok _ _ _))
    | some j =>
      have hj := h.guards j
      rw [decide_eq_true rfl] at hj
      cases hthread : c.thread j with
      | pure a =>
        rw [hthread] at hj
        cases hj
      | call op k' =>
        obtain rfl := hwaits j op k' hthread
        rw [hthread] at hj
        obtain ⟨has, hturn, -⟩ := hj
        cases hturn.lock_without

end

end Lock

end Prog
