import NetDisk.Writes

/-!
# What `linkToUsr` leaves

The link and the reference are made one after another, and nothing is taken back. An entry that is there already counts
as the link.
-/

namespace NetDisk

open Machine

namespace UploadRpc

open FileSys Mmysql

/-! ## The link -/

theorem link_faulty (env : Env) (tid : Nat) (w : World) (faults : Nat → Option Fault) (src dst : Bytes) : ∃ rt w',
    (link src dst).run (faulty anyFails env tid) ⟨w, faults⟩ = (rt, ⟨w', later faults⟩) ∧ w'.db = w.db ∧
      (rt = 0 ∧ (NewLink env (cStr src) (cStr dst) w.fs w'.fs ∨ Taken env (cStr dst) w.fs ∧ w'.fs = w.fs) ∨
        rt = -1 ∧ w'.fs = w.fs) := by
  cases hf : faults 0 with
  | some f =>
    have hstep : faulty anyFails env tid (.symlink (cStr src) (cStr dst)) ⟨w, faults⟩ = (some f.err, ⟨w, later faults⟩) :=
      faulty_fails env tid w (.symlink (cStr src) (cStr dst)) hf
    exact ⟨_, w, link_run hstep, rfl, Or.inr ⟨if_pos ⟨by simp, by simpa using f.err_ne⟩, rfl⟩⟩
  | none =>
    have hrun := link_run (faulty_quiet env tid w (.symlink (cStr src) (cStr dst)) hf)
    refine ⟨_, _, hrun, rfl, ?_⟩
    dsimp only [exec]
    rcases symlink_cases env (cStr src) (cStr dst) w.fs with ⟨herr, hnew⟩ | ⟨herr, htaken, hfs⟩ | ⟨e, herr, hne, hfs⟩
    · exact Or.inl ⟨if_neg (by simp [herr]), Or.inl hnew⟩
    · exact Or.inl ⟨if_neg (by simp [herr]), Or.inr ⟨htaken, hfs⟩⟩
    · exact Or.inr ⟨if_pos (by simpa [herr] using hne), hfs⟩

/-! ## The queries -/

/-- A `SELECT` changes no table. -/
def SelectsOnly (env : Env) : Prop := ∀ sign db out, env.sql (selectSignCmd sign) db = some out → out.1 = db

theorem SelectsOnly.sql_eq {env : Env} (hsel : SelectsOnly env) {db : DB} {sign : Bytes} {out : DB × Option (List Row)}
    (h : sql env db (selectSignCmd sign) = some out) : out.1 = db := by
  unfold sql at h
  cases hread : Stmt.read (selectSignCmd sign) with
  | none =>
    rw [hread] at h
    exact hsel sign db out h
  | some stmt =>
    obtain ⟨s, rfl⟩ := Stmt.selectSign_of_read hread
    rw [hread] at h
    obtain rfl := Option.some.inj h
    rfl

theorem linkQueries_row {env : Env} {db db' : DB} {sign fileName : Bytes} (hsign : SqlText.litSafe sign = true)
    (hrow : Stmt.OneRow sign fileName) (h : linkQueries env db sign fileName = (true, db')) :
    db'.refs sign ≠ none := by
  have hrefs : db'.refs sign = countUp (db.refs sign) := by
    rw [linkQueries_eq env db hsign fileName] at h
    split at h
    · rename_i hnone
      obtain ⟨name, hread⟩ := hrow
      obtain ⟨db1, hq, -, hrefs⟩ := insertRow_spec env hread hnone
      rw [hq] at h
      obtain rfl := (Prod.mk.inj h).2
      rw [hrefs, if_pos rfl]
    · rename_i hsome
      obtain ⟨hq, hrefs⟩ := updateRow_spec env hsign hsome
      rw [hq] at h
      obtain rfl := (Prod.mk.inj h).2
      rw [hrefs, if_pos rfl]
  rw [hrefs]
  exact countUp_ne_none _

section
variable (env : Env) (tid : Nat) (w : World) (faults : Nat → Option Fault)

theorem runQuery_faulty (cmd : Bytes) : ∃ rt w',
    (runQuery cmd).run (faulty anyFails env tid) ⟨w, faults⟩ = (rt, ⟨w', later faults⟩) ∧ w'.fs = w.fs ∧
      (rt = 0 ∧ sql env w.db cmd = some (w'.db, w'.pending tid) ∨ rt = 1 ∧ w'.db = w.db) := by
  cases hf : faults 0 with
  | some f => exact ⟨1, w, Prog.run_call_of _ (faulty_fails env tid w _ hf), rfl, Or.inr ⟨rfl, rfl⟩⟩
  | none =>
    have hstep := faulty_quiet env tid w (.query cmd) hf
    cases hq : sql env w.db cmd with
    | none =>
      simp only [exec, hq] at hstep
      exact ⟨1, w, Prog.run_call_of _ hstep, rfl, Or.inr ⟨rfl, rfl⟩⟩
    | some out =>
      simp only [exec, hq] at hstep
      exact ⟨0, _, Prog.run_call_of _ hstep, rfl, Or.inl ⟨rfl, by simp⟩⟩

theorem lockedQuery_faulty (cmd : Bytes) : ∃ rt w' faults',
    (lockedQuery cmd).run (faulty anyFails env tid) ⟨w, faults⟩ = (rt, ⟨w', faults'⟩) ∧ w'.fs = w.fs ∧
      (rt = 0 ∧ queryOutcome env w.db cmd = (true, w'.db) ∨ rt = -1 ∧ w'.db = w.db) := by
  have hlock : ∀ (op : Sys) (w : World) (faults : Nat → Option Fault), op = .lock ∨ op = .unlock → ∃ reply,
      faulty anyFails env tid op ⟨w, faults⟩ = (reply, ⟨(exec env tid op w).2, later faults⟩) := by
    rintro op w faults (rfl | rfl)
    all_goals
      cases hf : faults 0 with
      | none => exact ⟨_, faulty_quiet env tid w _ hf⟩
      | some f => exact ⟨_, faulty_fails env tid w _ hf⟩
  obtain ⟨_, hstep⟩ := hlock .lock w faults (Or.inl rfl)
  obtain ⟨rt, w2, hrun, hfs, hrt⟩ := runQuery_faulty env tid { w with locked := true } (later faults) cmd
  obtain ⟨_, hunlock⟩ := hlock .unlock w2 (later (later faults)) (Or.inr rfl)
  unfold lockedQuery
  rw [sys, Prog.lift_bind, Prog.run_call_of _ hstep]
  dsimp only [exec]
  rw [Prog.run_bind_of _ hrun, sys, Prog.lift_bind, Prog.run_call_of _ hunlock]
  dsimp only [exec]
  rcases hrt with ⟨rfl, hq⟩ | ⟨rfl, hdb⟩
  · rw [if_neg (by simp)]
    exact ⟨0, _, _, rfl, hfs, Or.inl ⟨rfl, by simp only [queryOutcome, hq]⟩⟩
  · rw [if_pos (by simp)]
    exact ⟨-1, _, _, rfl, hfs, Or.inr ⟨rfl, hdb⟩⟩

theorem fetchRes_faulty : (fetchRes).run (faulty anyFails env tid) ⟨w, faults⟩ =
    ((w.pending tid).bind List.head?, ⟨{ w with pending := Function.update w.pending tid none }, later faults⟩) := by
  refine Prog.run_call_of _ ?_
  cases hf : faults 0 with
  | none => exact faulty_quiet env tid w .fetch hf
  | some f => exact faulty_fails env tid w .fetch hf

variable {env} in
theorem countLink_faulty (hsel : SelectsOnly env) (sign fileName : Bytes) : ∃ rt w' faults',
    (countLink sign fileName).run (faulty anyFails env tid) ⟨w, faults⟩ = (rt, ⟨w', faults'⟩) ∧ w'.fs = w.fs ∧
      (rt = 0 ∧ linkQueries env w.db sign fileName = (true, w'.db) ∨ rt = -1 ∧ w'.db = w.db) := by
  obtain ⟨rt, w1, hselect, hfs1, hrt⟩ := runQuery_faulty env tid w faults (selectSignCmd sign)
  unfold countLink
  rw [Prog.run_bind_of _ hselect]
  rcases hrt with ⟨rfl, hq⟩ | ⟨rfl, hdb1⟩
  · rw [if_neg (by simp), Prog.run_bind_of _ (fetchRes_faulty env tid w1 (later faults))]
    have hdb1 : w1.db = w.db := hsel.sql_eq hq
    have hwrite : ∀ {cmd : Bytes}, linkQueries env w.db sign fileName = queryOutcome env w.db cmd →
        ∃ rt w' faults', (lockedQuery cmd).run (faulty anyFails env tid)
          ⟨{ w1 with pending := Function.update w1.pending tid none }, later (later faults)⟩ = (rt, ⟨w', faults'⟩) ∧
          w'.fs = w.fs ∧ (rt = 0 ∧ linkQueries env w.db sign fileName = (true, w'.db) ∨ rt = -1 ∧ w'.db = w.db) := by
      intro cmd heq
      obtain ⟨rt, w2, faults2, hrun, hfs2, hrt⟩ := lockedQuery_faulty env tid
        { w1 with pending := Function.update w1.pending tid none } (later (later faults)) cmd
      rw [heq, ← hdb1]
      exact ⟨rt, w2, faults2, hrun, hfs2.trans hfs1, hrt⟩
    cases hrow : (w1.pending tid).bind List.head? with
    | none => exact hwrite (by simp only [linkQueries, hq, hrow, hdb1])
    | some row => exact hwrite (by simp only [linkQueries, hq, hrow, hdb1])
  · rw [if_pos (by simp)]
    exact ⟨-1, w1, _, rfl, hfs1, Or.inr ⟨rfl, hdb1⟩⟩

end

/-! ## One call -/

/-- A failure leaves the tables as they were, and of the links nothing but the new one. A success means that something
is at `dst`, and a row in the table if the sign is the literal that it stands for and the `INSERT` is a row for it. -/
theorem linkToUsr_leaves {env : Env} (hsel : SelectsOnly env) (tid : Nat) (w : World) (faults : Nat → Option Fault)
    (src dst sign fileName : Bytes) : ∃ rt w' faults',
    (linkToUsr src dst sign fileName).run (faulty anyFails env tid) ⟨w, faults⟩ = (rt, ⟨w', faults'⟩) ∧
      (rt = -1 ∧ w'.db = w.db ∧ (w'.fs = w.fs ∨ NewLink env (cStr src) (cStr dst) w.fs w'.fs) ∨
        rt = 0 ∧ (NewLink env (cStr src) (cStr dst) w.fs w'.fs ∨ Taken env (cStr dst) w.fs ∧ w'.fs = w.fs) ∧
          (SqlText.litSafe sign = true → Stmt.OneRow sign fileName → w'.db.refs sign ≠ none)) := by
  obtain ⟨rt, w1, hlink, hdb1, hrt⟩ := link_faulty env tid w faults src dst
  unfold linkToUsr
  rw [Prog.run_bind_of _ hlink]
  rcases hrt with ⟨rfl, hput⟩ | ⟨rfl, hfs1⟩
  · rw [if_neg (by simp)]
    obtain ⟨rt, w2, faults2, hrun, hfs2, hrt⟩ := countLink_faulty tid w1 (later faults) hsel sign fileName
    refine ⟨rt, w2, faults2, hrun, ?_⟩
    rw [hfs2]
    rcases hrt with ⟨rfl, hq⟩ | ⟨rfl, hdb2⟩
    · exact Or.inr ⟨rfl, hput, fun hsign hrow => linkQueries_row hsign hrow hq⟩
    · refine Or.inl ⟨rfl, hdb2.trans hdb1, ?_⟩
      rcases hput with hnew | ⟨-, hsame⟩
      · exact Or.inr hnew
      · exact Or.inl hsame
  · rw [if_pos (by simp)]
    exact ⟨-1, w1, _, rfl, Or.inl ⟨rfl, hdb1, Or.inl hfs1⟩⟩

/-! ### A link in `/u` -/

namespace OneLink

def start : World := Server.start .short []

def node : Path := [ascii "u", ascii "l"]

/-- A file name that ends the statement: the row that has just come is renamed. -/
def duplicate : Bytes := ascii "x',1),('s','y',1) ON DUPLICATE KEY UPDATE sign='t' -- "

def env : Env where
  cwd := []
  shell := fun _ fs => (fs, [])
  sql cmd db :=
    if cmd = insertSignCmd (ascii "s") duplicate then
      some ({ db with signMap := [⟨ascii "t", ascii "x", 1⟩], sign_unique := List.nodup_singleton _ }, none)
    else none

/-- The `INSERT` fails. -/
def insertFails : Nat → Option Fault := fun k => if k = 4 then some ⟨.eio, eio_ne_eexist, 0, none, false⟩ else none

def call (src : Bytes) (dst : String) (sign fileName : Bytes) (faults : Nat → Option Fault) : Int × Faulty :=
  (linkToUsr src (ascii dst) sign fileName).run (faulty anyFails env 0) ⟨start, faults⟩

end OneLink

theorem linkToUsr_leaves_late : ∃ rt w' faults',
    OneLink.call (ascii "/f/s") "/u/l" (ascii "s") (ascii "n") OneLink.insertFails = (rt, ⟨w', faults'⟩) ∧
      (rt = -1 ∧ w'.db = OneLink.start.db ∧
          (w'.fs = OneLink.start.fs ∨
            NewLink OneLink.env (cStr (ascii "/f/s")) (cStr (ascii "/u/l")) OneLink.start.fs w'.fs) ∨
        rt = 0 ∧
          (NewLink OneLink.env (cStr (ascii "/f/s")) (cStr (ascii "/u/l")) OneLink.start.fs w'.fs ∨
            Taken OneLink.env (cStr (ascii "/u/l")) OneLink.start.fs ∧ w'.fs = OneLink.start.fs) ∧
          (SqlText.litSafe (ascii "s") = true → Stmt.OneRow (ascii "s") (ascii "n") → w'.db.refs (ascii "s") ≠ none)) := by
  have hsel : SelectsOnly OneLink.env := by
    intro sign db out h
    have hne : selectSignCmd sign ≠ insertSignCmd (ascii "s") OneLink.duplicate := by
      intro heq
      have hhead : some (ch 'S') = some (ch 'I') := congrArg List.head? heq
      exact absurd hhead (by decide)
    simp [OneLink.env, hne] at h
  exact linkToUsr_leaves hsel 0 OneLink.start OneLink.insertFails (ascii "/f/s") (ascii "/u/l") (ascii "s") (ascii "n")

/-- A failure that leaves its link, and successes without the link, with another target and without a row. -/
theorem linkToUsr_not_atomic :
    (OneLink.call (ascii "/f/s") "/u/l" (ascii "s") (ascii "n") OneLink.insertFails).1 = -1 ∧
    OneLink.start.fs.node OneLink.node = none ∧
    (OneLink.call (ascii "/f/s") "/u/l" (ascii "s") (ascii "n") OneLink.insertFails).2.world.fs.node OneLink.node =
      some (.link (ascii "/f/s")) ∧
    (OneLink.call (ascii "/f/s") "/u" (ascii "s") (ascii "n") FileSys.OneFile.noFaults).1 = 0 ∧
    (OneLink.call (ascii "/f/s") "/u" (ascii "s") (ascii "n") FileSys.OneFile.noFaults).2.world.fs.node [ascii "u"] =
      some .dir ∧
    (OneLink.call (ascii "/f/" ++ [0] ++ ascii "s") "/u/l" (ascii "s") (ascii "n") FileSys.OneFile.noFaults).1 = 0 ∧
    (OneLink.call (ascii "/f/" ++ [0] ++ ascii "s") "/u/l" (ascii "s") (ascii "n")
      FileSys.OneFile.noFaults).2.world.fs.node OneLink.node = some (.link (ascii "/f/")) ∧
    (OneLink.call (ascii "/f/s") "/u/l" (ascii "a\\x") (ascii "n") FileSys.OneFile.noFaults).1 = 0 ∧
    (OneLink.call (ascii "/f/s") "/u/l" (ascii "a\\x") (ascii "n") FileSys.OneFile.noFaults).2.world.db.refs
      (ascii "a\\x") = none ∧
    (OneLink.call (ascii "/f/s") "/u/l" (ascii "s") OneLink.duplicate FileSys.OneFile.noFaults).1 = 0 ∧
    (OneLink.call (ascii "/f/s") "/u/l" (ascii "s") OneLink.duplicate FileSys.OneFile.noFaults).2.world.db.refs
      (ascii "s") = none := by
  decide +kernel

end UploadRpc

end NetDisk
