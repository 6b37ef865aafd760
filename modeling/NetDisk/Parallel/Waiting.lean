import NetDisk.Lib.Ending
import NetDisk.Order
import NetDisk.Parallel.Calls

/-!
# Calls that wait

A call waits at its listing for the `mv` of another, at its `mv` for the checks of the others, and for the mutex. The
one that it waits for is never waiting for it: so the calls can always be run to their ends.
-/

namespace NetDisk.Parallel

open Machine UploadRpc FileSys Prog

section
variable (fl : Flags) (u s : Name) {n : Nat}

/-- What a call in the phase `x` has done. -/
structure Fits (x : Order.Phase) (tr : List (Fin n × Sys)) (i : Fin n) : Prop where
  summed : Listed fl u s tr i → Summed fl u s tr i
  start : x = .start → ¬Listed fl u s tr i
  checked : x = .checked → Summed fl u s tr i ∧ ¬Listed fl u s tr i
  listed : x = .listed → Listed fl u s tr i

/-- What the history tells of the calls. -/
structure Tells (phase : Fin n → Order.Phase) (t : Calls n) : Prop where
  locked : t.state.locked = true → ∃ i, phase i = .locked
  fits : ∀ i, Fits fl u s (phase i) t.trace i

end

section
variable {fl : Flags} {u s : Name} {n : Nat} {request : Fin n → NetDiskRequest} (env : Env) (hp : Parts u s request)
include hp

theorem md5SumOp_eq (i : Fin n) : md5SumOp fl (request i) = sumOp fl u s i := by
  unfold md5SumOp
  rw [filePath_eq hp]
  rfl

theorem lsDirOp_eq (i : Fin n) : lsDirOp fl (request i) = listOp fl u s := by
  unfold lsDirOp
  rw [signDir_text, hp.usr_eq, hp.sign_eq, cStr_name (plain_tmp fl hp.usr_plain) hp.sign_plain]
  rfl

/-! ## One step -/

omit hp in
theorem turns_list {i : Fin n} {x y : Order.Phase} (h : Order.Turns fl (request i) (listOp fl u s) x y) :
    x = .checked ∧ y = .listed := by
  generalize hop : listOp fl u s = op at h
  cases h with
  | list => exact ⟨rfl, rfl⟩
  | check hx | move | read hx | lock | write hcmd | unlock => cases hop
  | other hfiles =>
    rw [← hop] at hfiles
    exact hfiles.elim

theorem turns_mv {i : Fin n} {x y : Order.Phase} (h : Order.Turns fl (request i) (mvOp fl u s) x y) : x = .listed := by
  generalize hop : mvOp fl u s = op at h
  cases h with
  | move => rfl
  | check hx => exact absurd ((md5SumOp_eq hp i).symm.trans hop.symm) (sum_ne_mv hp.usr_plain hp.sign_plain i)
  | list | read hx | lock | write hcmd | unlock => cases hop
  | other hfiles =>
    rw [← hop] at hfiles
    exact hfiles.elim

theorem fits_step {x y : Order.Phase} {t : Calls n} {i : Fin n} {op : Sys} (h : Fits fl u s x t.trace i)
    (hturn : Order.Turns fl (request i) op x y) : Fits fl u s y ((sched fl u s env n).after t i op).trace i := by
  have hsummed : Summed fl u s t.trace i → Summed fl u s ((sched fl u s env n).after t i op).trace i :=
    fun h => (Sched.mem_after ..).mpr (Or.inl h)
  by_cases hop : op = listOp fl u s
  · subst hop
    obtain ⟨rfl, rfl⟩ := turns_list hturn
    have hsum := hsummed (h.checked rfl).1
    exact ⟨fun _ => hsum, by simp, by simp, fun _ => (Sched.mem_after ..).mpr (Or.inr ⟨rfl, rfl⟩)⟩
  have hlisted : Listed fl u s ((sched fl u s env n).after t i op).trace i ↔ Listed fl u s t.trace i :=
    (Sched.mem_after ..).trans (or_iff_left fun h => hop h.2.symm)
  have hlater : y ≠ .start → y ≠ .checked → y ≠ .listed → Fits fl u s y ((sched fl u s env n).after t i op).trace i :=
    fun h0 h1 h2 => ⟨fun hl => hsummed (h.summed (hlisted.mp hl)), fun hy => absurd hy h0, fun hy => absurd hy h1,
      fun hy => absurd hy h2⟩
  cases hturn with
  | list => exact absurd (lsDirOp_eq hp i) hop
  | check hx =>
    have hsum : Summed fl u s ((sched fl u s env n).after t i (md5SumOp fl (request i))).trace i :=
      (Sched.mem_after ..).mpr (Or.inr ⟨rfl, (md5SumOp_eq hp i).symm⟩)
    have hnot : ¬Listed fl u s t.trace i := hx.elim h.start fun hx => (h.checked hx).2
    exact ⟨fun _ => hsum, by simp, fun _ => ⟨hsum, mt hlisted.mp hnot⟩, by simp⟩
  | move | read hx | lock | write hcmd | unlock => exact hlater (by simp) (by simp) (by simp)
  | other hfiles =>
    exact ⟨fun hl => hsummed (h.summed (hlisted.mp hl)), fun hx => mt hlisted.mp (h.start hx),
      fun hx => ⟨hsummed (h.checked hx).1, mt hlisted.mp (h.checked hx).2⟩, fun hx => hlisted.mpr (h.listed hx)⟩

theorem tells_step {phase : Fin n → Order.Phase} {t : Calls n} {i : Fin n} {op : Sys} {y : Order.Phase}
    (h : Tells fl u s phase t) (hturn : Order.Turns fl (request i) op (phase i) y) :
    Tells fl u s (Function.update phase i y) ((sched fl u s env n).after t i op) := by
  refine ⟨hturn.locked h.locked, fun j => ?_⟩
  by_cases hji : j = i
  · subst hji
    rw [Function.update_self]
    exact fits_step env hp (h.fits j) hturn
  · have hmem : ∀ op', (j, op') ∈ ((sched fl u s env n).after t i op).trace ↔ (j, op') ∈ t.trace :=
      fun op' => (Sched.mem_after ..).trans (or_iff_left fun h => hji h.1)
    rw [Function.update_of_ne hji]
    obtain ⟨hsum, hstart, hchecked, hlisted⟩ := h.fits j
    exact ⟨fun hl => (hmem _).mpr (hsum ((hmem _).mp hl)), fun hx => mt (hmem _).mp (hstart hx),
      fun hx => ⟨(hmem _).mpr (hchecked hx).1, mt (hmem _).mp (hchecked hx).2⟩, fun hx => (hmem _).mpr (hlisted hx)⟩

/-! ## No step -/

theorem ended_of_stuck {phase : Fin n → Order.Phase} {d : Pool World (Fin n) Sys Sys.Res NetDiskResponse}
    (hphased : Pool.Phased (fun i => Order.Turns fl (request i)) (· ≠ .locked) phase d) (htells : Tells fl u s phase d.hist)
    (hended : ∀ i response, d.thread i = .pure response →
      Listed fl u s d.hist.trace i ∧ (Found fl u s d.hist.trace i → Moved fl u s d.hist.trace))
    (hstuck : ∀ e, ¬Pool.Step (sched fl u s env n) d e) (i : Fin n) : ∃ response, d.thread i = .pure response := by
  have hwaits : ∀ j op next, d.thread j = .call op next → op ≠ .lock ∨ d.hist.state.locked = false →
      ¬(sched fl u s env n).ok d.hist j op := by
    intro j op next hthread hfree hok
    have hready : Machine.ready op d.hist.state = true := by
      by_cases hl : op = .lock
      · subst hl
        simpa [Machine.ready] using hfree
      · exact ready_other hl
    exact hstuck _ (.run hthread hready hok)
  have hfree : d.hist.state.locked = false := by
    rw [← Bool.not_eq_true]
    intro hlocked
    obtain ⟨m, hm⟩ := htells.locked hlocked
    have hcall := hphased m
    rw [hm] at hcall
    obtain ⟨op, next, hthread, hinside⟩ := Order.Ends.next hcall
    rw [hthread] at hcall
    obtain ⟨y, hturn, -⟩ := hcall
    refine hwaits m op next hthread (Or.inl hinside.ne_lock) ⟨?_, ?_⟩
    · rintro rfl
      exact absurd (turns_list hturn).1 (by simp)
    · rintro rfl
      exact absurd (turns_mv hp hturn) (by simp)
  -- A call that has not ended is at its listing or at its `mv`, so it has checked its part.
  have hturns : ∀ j op next, d.thread j = .call op next →
      (op = listOp fl u s ∨ op = mvOp fl u s) ∧ ∃ y, Order.Turns fl (request j) op (phase j) y := by
    intro j op next hthread
    have hcall := hphased j
    rw [hthread] at hcall
    obtain ⟨y, hturn, -⟩ := hcall
    refine ⟨?_, y, hturn⟩
    by_contra hno
    obtain ⟨hlist, hmv⟩ := not_or.mp hno
    exact hwaits j op next hthread (Or.inr hfree) ⟨fun h => absurd h hlist, fun h => absurd h hmv⟩
  have hsummed : ∀ j, Summed fl u s d.hist.trace j := by
    intro j
    cases hthread : d.thread j with
    | pure response => exact (htells.fits j).summed (hended j response hthread).1
    | call op next =>
      obtain ⟨rfl | rfl, y, hturn⟩ := hturns j op next hthread
      · exact ((htells.fits j).checked (turns_list hturn).1).1
      · exact (htells.fits j).summed ((htells.fits j).listed (turns_mv hp hturn))
  cases hi : d.thread i with
  | pure response => exact ⟨response, rfl⟩
  | call op next =>
    exfalso
    refine hwaits i op next hi (Or.inr hfree) ⟨fun hop hcomplete => ?_, fun _ => hsummed⟩
    by_contra hno
    push Not at hno
    obtain ⟨hnot, m, hfound⟩ := hno
    cases hthread : d.thread m with
    | pure response => exact hnot ((hended m response hthread).2 hfound)
    | call op' next' =>
      obtain ⟨rfl | rfl, y, hturn⟩ := hturns m op' next' hthread
      · exact ((htells.fits m).checked (turns_list hturn).1).2 hfound.listed
      · -- Its `mv` need not wait.
        refine hwaits m _ next' hthread (Or.inr hfree) ⟨fun h => ?_, fun _ => hsummed⟩
        cases h

end

end NetDisk.Parallel
