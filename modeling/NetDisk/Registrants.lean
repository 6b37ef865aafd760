import NetDisk.Lib.Pool
import NetDisk.Publish
import NetDisk.Register

/-!
# Registrants at once

Each registration is a thread with a connection of its own, and any of its operations can go wrong. The
winner of a name is the one whose `INSERT` made the row: the test before it decides nothing.
-/

namespace NetDisk

open Machine FileSys Mmysql RegisterView Prog

namespace Registrants

structure Registrant where
  usr : Bytes
  passwd : Bytes
  clientFd : Int

/-- Both strings stand for themselves in a statement. -/
structure Registrant.Safe (r : Registrant) : Prop where
  usr : SqlText.litSafe r.usr = true
  passwd : SqlText.litSafe r.passwd = true

def Registrant.insert (r : Registrant) : Sys := .query (insertUsrCmd r.usr r.passwd)

section
variable {ρ : Type} (j : Jsoncpp ρ) (fl : Flags) (env : Env) {k : Nat} (r : Fin k → Registrant) (s : Faulty)

def sched : Sched Faulty (Fin k) Sys Sys.Res where
  handler i := faulty canFail env i
  ready op s := Machine.ready op s.world
  ok _ _ _ := True

/-- All registrations at their start, from the state `s`. -/
def start : Pool Faulty (Fin k) Sys Sys.Res Bytes :=
  ⟨⟨[], s⟩, fun i => answer j fl (r i).usr (r i).passwd (r i).clientFd⟩

/-- What a registration may ask for. -/
def Asks (r : Registrant) : Sys → Prop
  | .query cmd => cmd = usrNotExistCmd r.usr ∨ cmd = insertUsrCmd r.usr r.passwd
  | .fetch | .mkdir _ | .send _ _ => True
  | _ => False

structure Inv (t : Hist Faulty (Fin k) Sys) : Prop where
  state_eq : (sched env).From s t
  asked : ∀ e ∈ t.trace, Asks (r e.1) e.2

/-- At some point of the run, the `INSERT` of `i` made the row. -/
def Won (i : Fin k) (trace : List (Fin k × Sys)) : Prop :=
  ∃ before later, trace = before ++ (i, (r i).insert) :: later ∧
    (faulty canFail env i (r i).insert ((sched env).ran s before)).1 = true

end

/-! ## What the operations do to the table -/

section
variable (env : Env) {k : Nat} (i : Fin k) {r : Registrant} (hr : r.Safe) (s : Faulty)
include hr

theorem faulty_insert : faulty canFail env i r.insert s = (false, ⟨s.world, s.rest⟩) ∨
    r.usr ∉ s.world.db.usr.map UsrRow.name ∧ (faulty canFail env i r.insert s).1 = true ∧
      (faulty canFail env i r.insert s).2.world.db.usr = s.world.db.usr ++ [newRow s.world.db r.usr r.passwd] := by
  have hread := Stmt.read_insertUsrCmd hr.usr hr.passwd
  cases hf : s.faults 0 with
  | some f => exact Or.inl (faulty_some hf rfl)
  | none =>
    unfold Registrant.insert
    rw [faulty_none hf]
    by_cases hnodup : ((s.world.db.usr ++ [newRow s.world.db r.usr r.passwd]).map UsrRow.name).Nodup
    · right
      have hnew : r.usr ∉ s.world.db.usr.map UsrRow.name := by
        rw [List.map_append, List.nodup_append] at hnodup
        intro hold
        exact hnodup.2.2 r.usr hold r.usr (by simp [newRow]) rfl
      have hsql : sql env s.world.db (insertUsrCmd r.usr r.passwd) =
          some ({ s.world.db with
            usr := s.world.db.usr ++ [newRow s.world.db r.usr r.passwd], usr_unique := hnodup }, none) := by
        simp only [sql, hread, DB.exec]
        exact dif_pos hnodup
      simp only [exec, hsql]
      exact ⟨hnew, trivial, trivial⟩
    · left
      have hsql : sql env s.world.db (insertUsrCmd r.usr r.passwd) = none := by
        simp only [sql, hread, DB.exec]
        exact dif_neg hnodup
      simp only [exec, hsql]

theorem faulty_keeps {op : Sys} (hop : Asks r op) : s.world.db.usr <+: (faulty canFail env i op s).2.world.db.usr := by
  unfold Asks at hop
  split at hop
  · rename_i cmd
    rcases hop with rfl | rfl
    · refine faulty_spec (Q := fun _ w => s.world.db.usr <+: w.db.usr) ?_ fun _ _ => List.prefix_rfl
      simp only [exec, sql, Stmt.read_usrNotExistCmd hr.usr, DB.exec]
      exact List.prefix_rfl
    · rcases faulty_insert env i hr s with h | ⟨_, _, h⟩
      · change _ <+: (faulty canFail env i r.insert s).2.world.db.usr
        rw [h]
      · change _ <+: (faulty canFail env i r.insert s).2.world.db.usr
        rw [h]
        exact List.prefix_append _ _
  · exact faulty_spec (Q := fun _ w => s.world.db.usr <+: w.db.usr) List.prefix_rfl fun _ _ => List.prefix_rfl
  · exact faulty_spec (Q := fun _ w => s.world.db.usr <+: w.db.usr) List.prefix_rfl fun _ _ => List.prefix_rfl
  · exact faulty_spec (Q := fun _ w => s.world.db.usr <+: w.db.usr) List.prefix_rfl fun _ _ => List.prefix_rfl
  · exact absurd hop not_false

end

/-! ## The winner -/

section
variable {env : Env} {k : Nat} {r : Fin k → Registrant} {s : Faulty} (hr : ∀ i, (r i).Safe)

theorem Won.later {i : Fin k} {trace : List (Fin k × Sys)} (h : Won env r s i trace) (e : Fin k × Sys) :
    Won env r s i (trace ++ [e]) := by
  obtain ⟨before, later, rfl, hok⟩ := h
  exact ⟨before, later ++ [e], by simp, hok⟩

include hr

theorem ran_keeps {trace : List (Fin k × Sys)} (hasked : ∀ e ∈ trace, Asks (r e.1) e.2) (s : Faulty) :
    s.world.db.usr <+: ((sched env).ran s trace).world.db.usr := by
  induction trace generalizing s with
  | nil => exact List.prefix_rfl
  | cons e trace ih =>
    have hhead := faulty_keeps env e.1 (hr e.1) s (hasked e List.mem_cons_self)
    exact hhead.trans (ih (fun e he => hasked e (List.mem_cons_of_mem _ he)) _)

theorem row_of_insert {i : Fin k} {before later : List (Fin k × Sys)}
    (hasked : ∀ e ∈ before ++ (i, (r i).insert) :: later, Asks (r e.1) e.2)
    (hok : (faulty canFail env i (r i).insert ((sched env).ran s before)).1 = true) :
    ∃ row ∈ ((sched env).ran s (before ++ (i, (r i).insert) :: later)).world.db.usr,
      row.name = (r i).usr ∧ row.passwd = (r i).passwd := by
  have hlater : ∀ e ∈ later, Asks (r e.1) e.2 := by
    intro e he
    exact hasked e (List.mem_append_right _ (List.mem_cons_of_mem _ he))
  rcases faulty_insert env i (hr i) ((sched env).ran s before) with h | ⟨_, _, hadd⟩
  · rw [h] at hok
    exact absurd hok Bool.false_ne_true
  · refine ⟨newRow ((sched env).ran s before).world.db (r i).usr (r i).passwd, ?_, rfl, rfl⟩
    rw [Sched.ran_append]
    refine (ran_keeps hr hlater (faulty canFail env i (r i).insert ((sched env).ran s before)).2).subset ?_
    rw [hadd]
    exact List.mem_append_right _ (List.mem_singleton.mpr rfl)

/-- The later of two winners of a name would have found the row of the earlier one. -/
theorem won_once {i i' : Fin k} {before later : List (Fin k × Sys)} (hname : (r i).usr = (r i').usr)
    (hasked : ∀ e ∈ before ++ (i, (r i).insert) :: later, Asks (r e.1) e.2)
    (hok : (faulty canFail env i (r i).insert ((sched env).ran s before)).1 = true) :
    ¬ (faulty canFail env i' (r i').insert ((sched env).ran s (before ++ (i, (r i).insert) :: later))).1 = true := by
  obtain ⟨row, hrow, hrowName, _⟩ := row_of_insert hr hasked hok
  rcases faulty_insert env i' (hr i') ((sched env).ran s (before ++ (i, (r i).insert) :: later)) with h | ⟨hnew, _⟩
  · rw [h]
    exact Bool.false_ne_true
  · exact absurd (List.mem_map.mpr ⟨row, hrow, hrowName.trans hname⟩) hnew

theorem won_unique {i i' : Fin k} {trace : List (Fin k × Sys)} (hasked : ∀ e ∈ trace, Asks (r e.1) e.2)
    (hname : (r i).usr = (r i').usr) (h : Won env r s i trace) (h' : Won env r s i' trace) : i = i' := by
  obtain ⟨before, later, htrace, hok⟩ := h
  obtain ⟨before', later', htrace', hok'⟩ := h'
  have heq := htrace.symm.trans htrace'
  rcases List.append_eq_append_iff.mp heq with ⟨mid, rfl, hrest⟩ | ⟨mid, rfl, hrest⟩
  · cases mid with
    | nil => exact (Prod.mk.inj (List.cons.inj hrest).1).1
    | cons e mid =>
      obtain ⟨rfl, -⟩ := List.cons.inj hrest
      have hbefore : ∀ e ∈ before ++ (i, (r i).insert) :: mid, Asks (r e.1) e.2 := by
        intro e he
        exact hasked e (htrace' ▸ List.mem_append_left _ he)
      exact absurd hok' (won_once hr hname hbefore hok)
  · cases mid with
    | nil => exact (Prod.mk.inj (List.cons.inj hrest).1).1.symm
    | cons e mid =>
      obtain ⟨rfl, -⟩ := List.cons.inj hrest
      have hbefore : ∀ e ∈ before' ++ (i', (r i').insert) :: mid, Asks (r e.1) e.2 := by
        intro e he
        exact hasked e (htrace ▸ List.mem_append_left _ he)
      exact absurd hok (won_once hr hname.symm hbefore hok')

end

/-! ## Each registration among the others -/

/-- What is so after a run with the replies of the registrations that have ended: no two with one name have won, no
two rows have one name, and the row of a winner has the winner's password. -/
structure OneWinner {k : Nat} (r : Fin k → Registrant) (d : Pool Faulty (Fin k) Sys Sys.Res Bytes) : Prop where
  unique : ∀ i i' message message', d.thread i = .pure message → d.thread i' = .pure message' →
    IsSuccess message → IsSuccess message' → (r i).usr = (r i').usr → i = i'
  names : (d.hist.state.world.db.usr.map UsrRow.name).Nodup
  stored : ∀ i message, d.thread i = .pure message → IsSuccess message →
    (∃ row ∈ d.hist.state.world.db.usr, row.name = (r i).usr) ∧
      ∀ row ∈ d.hist.state.world.db.usr, row.name = (r i).usr → row.passwd = (r i).passwd

section
variable {ρ : Type} (j : Jsoncpp ρ) (fl : Flags) (env : Env) {k : Nat} (r : Fin k → Registrant) (s : Faulty)

def proto : Proto Faulty (Fin k) Sys Sys.Res where
  toSched := sched env
  inv := Inv env r s
  promise _ i op := Asks (r i) op
  inv_after t i op h _ _ hop := by
    constructor
    · exact h.state_eq.after i op
    · intro e he
      rcases List.mem_append.mp he with he | he
      · exact h.asked e he
      · rw [List.mem_singleton.mp he]
        exact hop

theorem won_stable (i : Fin k) : (proto env r s).Stable i fun t => Won env r s i t.trace := by
  intro t i' op _ _ _ _ _ h
  exact h.later (i', op)

theorem asks_sat {α : Type} {i : Fin k} {p : Code α} {q : Prop} {t : Hist Faulty (Fin k) Sys} (hp : p.Uses (Asks (r i)))
    (ht : q → Won env r s i t.trace) :
    (proto env r s).Sat i (fun _ t => q → Won env r s i t.trace) p t :=
  Proto.Sat.uses hp (fun _ _ _ h => h) (Proto.Stable.imp fun _ => won_stable env r s i) (fun _ op h hq => (h hq).later (i, op)) ht

theorem usrNotExist_uses (i : Fin k) : (usrNotExist (r i).usr).Uses (Asks (r i)) := by
  unfold usrNotExist runQuery fetchRes
  refine Uses.bind (Uses.bind (Uses.lift (Or.inl rfl)) fun ok => Uses.ite .pure .pure) fun rt => ?_
  refine Uses.ite .pure (Uses.bind (Uses.lift trivial) fun row => ?_)
  cases row <;> exact .pure

theorem createUsrDir_uses (i : Fin k) : (createUsrDir fl (r i).usr).Uses (Asks (r i)) := by
  unfold createUsrDir FileSys.mkdir
  exact Uses.bind (Uses.bind (Uses.lift trivial) fun err => Uses.ite .pure .pure) fun rt => Uses.ite .pure .pure

theorem insertUsr_sat {i : Fin k} {t : Hist Faulty (Fin k) Sys} :
    (proto env r s).Sat i (fun rt t => rt ≠ -1 → Won env r s i t.trace) (insertUsr (r i).usr (r i).passwd) t := by
  unfold insertUsr runQuery
  rw [bind_assoc']
  refine Proto.Sat.once (P := fun _ => True) ?_ Proto.Stable.const trivial
    (fun rt => Proto.Stable.imp fun _ => won_stable env r s i) ?_
  · intro ok
    cases ok <;> exact ⟨_, rfl⟩
  · intro t hinv _ _ _
    refine ⟨Or.inr rfl, ?_⟩
    rw [lift_bind, run_call]
    cases hok : (faulty canFail env i (r i).insert t.state).1 with
    | false =>
      intro hrt
      change (faulty canFail env i (.query (insertUsrCmd (r i).usr (r i).passwd)) t.state).1 = false at hok
      exact absurd (by simp [proto, sched, hok]) hrt
    | true =>
      intro _
      refine ⟨t.trace, [], rfl, ?_⟩
      rw [← hinv.state_eq]
      exact hok

theorem regist_sat {i : Fin k} {t : Hist Faulty (Fin k) Sys} (hinv : Inv env r s t) :
    (proto env r s).Sat i (fun message t => IsSuccess message → Won env r s i t.trace)
      (regist fl (r i).usr (r i).passwd) t := by
  have hfail : ∀ e : Ending, e ≠ .registered → ∀ t, (proto env r s).Sat i
      (fun message t => IsSuccess message → Won env r s i t.trace) (.pure (e.message (r i).usr)) t := by
    intro e he t
    refine Proto.Sat.pure (P := fun _ => True) Proto.Stable.const trivial fun _ _ _ hsuccess => ?_
    exact absurd ((isSuccess_message _ e).mp hsuccess) he
  unfold regist
  refine Proto.Sat.bind (asks_sat env r s (q := False) (usrNotExist_uses r i) False.elim) hinv fun rt t hinv _ => ?_
  split
  · exact hfail .queryFailed (by decide) t
  split
  · exact hfail .existed (by decide) t
  refine Proto.Sat.bind (insertUsr_sat env r s) hinv fun rt t hinv hwon => ?_
  split
  · exact hfail .insertFailed (by decide) t
  · rename_i hrt
    refine Proto.Sat.bind (asks_sat env r s (q := True) (createUsrDir_uses fl r i) fun _ => hwon hrt) hinv
      fun rt t hinv hwon => ?_
    split
    · exact hfail .noDir (by decide) t
    · exact Proto.Sat.pure (won_stable env r s i) (hwon trivial) fun _ _ h _ => h

theorem answer_sat {i : Fin k} {t : Hist Faulty (Fin k) Sys} (hinv : Inv env r s t) :
    (proto env r s).Sat i (fun message t => IsSuccess message → Won env r s i t.trace)
      (answer j fl (r i).usr (r i).passwd (r i).clientFd) t := by
  unfold answer
  refine Proto.Sat.bind (regist_sat fl env r s hinv) hinv fun message t hinv hwon => ?_
  -- The response is one `send`.
  have hsend : (respond j (r i).clientFd .null message).Uses (Asks (r i)) := Uses.bind (Uses.lift trivial) fun _ => .pure
  refine Proto.Sat.bind (asks_sat env r s hsend hwon) hinv fun _ t _ hwon => ?_
  exact Proto.Sat.pure (Proto.Stable.imp fun _ => won_stable env r s i) hwon fun _ _ h => h

/-- However many registrations run, and however their operations are interleaved and fail, one of each name wins. -/
theorem one_winner (hr : ∀ i, (r i).Safe) {d : Pool Faulty (Fin k) Sys Sys.Res Bytes}
    (hrun : Pool.Runs (sched env) (start j fl r s) d) : OneWinner r d := by
  have hstart : Inv env r s (start j fl r s).hist := ⟨rfl, fun e he => absurd he List.not_mem_nil⟩
  obtain ⟨hinv, hsat⟩ := Proto.runs (proto env r s) hrun hstart fun i => answer_sat j fl env r s hstart
  have hwon : ∀ i message, d.thread i = .pure message → IsSuccess message → Won env r s i d.hist.trace := by
    intro i message hi
    have h := hsat i
    rw [hi] at h
    exact h d.hist .refl hinv
  refine ⟨?_, d.hist.state.world.db.usr_unique, ?_⟩
  · intro i i' message message' hi hi' hsuccess hsuccess' hname
    exact won_unique hr hinv.asked hname (hwon i message hi hsuccess) (hwon i' message' hi' hsuccess')
  · intro i message hi hsuccess
    obtain ⟨before, later, htrace, hok⟩ := hwon i message hi hsuccess
    obtain ⟨row, hrow, hname, hpasswd⟩ := row_of_insert hr (htrace ▸ hinv.asked) hok
    rw [← htrace, ← hinv.state_eq] at hrow
    refine ⟨⟨row, hrow, hname⟩, fun row' hrow' hname' => ?_⟩
    rw [List.inj_on_of_nodup_map d.hist.state.world.db.usr_unique hrow' hrow (hname'.trans hname.symm)]
    exact hpasswd

end

/-! ### Two for one name -/

namespace Two

open TwoParts (first)

def registrant (i : Fin 2) : Registrant := ⟨ascii "bob", if i = first then ascii "one" else ascii "two", 4⟩

def state : Faulty := ⟨Lost.world, fun _ => none⟩

/-- The password has a backslash in it. -/
def backslash (_ : Fin 1) : Registrant := ⟨ascii "bob", ascii "a\\b", 4⟩

/-- Both find that there is no such user. -/
def bothFirst : List (Fin 2) :=
  [first, TwoParts.second, first, TwoParts.second] ++ List.replicate 3 first ++ List.replicate 2 TwoParts.second

def any {k : Nat} (_ : Hist Faulty (Fin k) Sys) (_ : Fin k) (_ : Sys) : Bool := true

theorem any_ok {k : Nat} (t : Hist Faulty (Fin k) Sys) (i : Fin k) (op : Sys) (_ : any t i op = true) :
    (sched .bare).ok t i op := trivial

end Two

theorem one_winner_two : ∃ d : Pool Faulty (Fin 2) Sys Sys.Res Bytes,
    Pool.Runs (sched .bare) (start Lost.jsoncpp .short Two.registrant Two.state) d ∧
      (∀ i, d.thread i = .pure (if i = TwoParts.first then ascii "Success: regist usr bob" else
        ascii "Fail: insert Usr table failed")) ∧ OneWinner Two.registrant d := by
  obtain ⟨d, hrun, hd⟩ := Pool.play_values Two.any_ok Two.bothFirst (start Lost.jsoncpp .short Two.registrant Two.state)
    (fun i => if i = TwoParts.first then ascii "Success: regist usr bob" else ascii "Fail: insert Usr table failed")
    (by decide +kernel)
  refine ⟨d, hrun, hd, one_winner Lost.jsoncpp .short .bare Two.registrant Two.state ?_ hrun⟩
  exact fun i => ⟨by revert i; decide +kernel, by revert i; decide +kernel⟩

/-- In a statement, `\b` is a backspace: the password that is stored is not the one that was sent. -/
theorem stored_differs : ¬ ∀ d : Pool Faulty (Fin 1) Sys Sys.Res Bytes,
    Pool.Runs (sched .bare) (start Lost.jsoncpp .short Two.backslash Two.state) d → OneWinner Two.backslash d := by
  intro h
  obtain ⟨d, hrun, hd⟩ := Pool.play_shows Two.any_ok (List.replicate 5 (Fin.last 0))
    (start Lost.jsoncpp .short Two.backslash Two.state)
    (fun d => ((d.thread (Fin.last 0)).value, d.hist.state.world.db.usr))
    (some (ascii "Success: regist usr bob"), [⟨1, ascii "bob", [97, 8]⟩]) (by decide +kernel)
  obtain ⟨hvalue, hrows⟩ := Prod.mk.inj hd
  have hstored := (h d hrun).stored (Fin.last 0) _ (eq_pure_of_value hvalue) (by decide +kernel)
  rw [hrows] at hstored
  exact absurd (hstored.2 _ List.mem_cons_self rfl) (by decide +kernel)

end Registrants

end NetDisk
