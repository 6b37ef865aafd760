import NetDisk.Faults
import NetDisk.Server

/-!
# Registrations

One registration, whatever goes wrong with its queries and its `mkdir`, and then any number of them
one after another.
-/

namespace NetDisk

open Machine FileSys Mmysql

variable {ρ : Type} (j : Jsoncpp ρ) (fl : Flags) (env : Env) (tid : Nat)

namespace RegisterView

/-- `Process` from the values of the two members on; its value is the response message. -/
def answer (usr passwd : Bytes) (clientFd : Int) : Code Bytes := do
  let responseMsg ← regist fl usr passwd
  let _ ← respond j clientFd .null responseMsg
  return responseMsg

theorem Process_answer {reqVal : Json ρ} {usr passwd : Bytes} (h : readRequest j reqVal = .ok (usr, passwd))
    (clientFd : Int) : Process j fl reqVal clientFd = answer j fl usr passwd clientFd >>= fun _ => .pure (.ok ()) := by
  unfold Process answer
  rw [h, Prog.bind_assoc']
  rfl

/-! ## One registration -/

/-- What can go wrong. -/
def canFail : Sys → Bool
  | .query _ | .mkdir _ => true
  | _ => false

inductive Ending where
  | queryFailed
  | existed
  | insertFailed
  | noDir
  | registered
deriving DecidableEq

def Ending.message (usr : Bytes) : Ending → Bytes
  | .queryFailed => ascii "Fail: query failed"
  | .existed => ascii "Fail: usr is existed, usr: " ++ usr
  | .insertFailed => ascii "Fail: insert Usr table failed"
  | .noDir => ascii "Fail: create usr dir failed"
  | .registered => ascii "Success: regist usr " ++ usr

def Ending.inserts : Ending → Bool
  | .noDir | .registered => true
  | .queryFailed | .existed | .insertFailed => false

/-- The operations are the `SELECT`, the fetch, the `INSERT` and the `mkdir`. -/
def ending (db : DB) (usr : Bytes) (faults : Nat → Option Fault) : Ending :=
  if (faults 0).isSome then .queryFailed
  else if usr ∈ db.usr.map UsrRow.name then .existed
  else if (faults 2).isSome then .insertFailed
  else if (faults 3).isSome then .noDir
  else .registered

section
variable {usr passwd : Bytes} {w : World} {faults : Nat → Option Fault}

theorem runQuery_some {can : Sys → Bool} {cmd : Bytes} {f : Fault} (h0 : faults 0 = some f)
    (hcan : can (.query cmd) = true) :
    (runQuery cmd).run (faulty can env tid) ⟨w, faults⟩ = (1, ⟨w, fun k => faults (k + 1)⟩) := by
  have hfail : faulty can env tid (.query cmd) ⟨w, faults⟩ = (false, ⟨w, fun k => faults (k + 1)⟩) :=
    faulty_some h0 hcan
  exact Prog.run_call_of _ hfail

theorem runQuery_none {can : Sys → Bool} {cmd : Bytes} {ok : Bool} {w' : World} (h0 : faults 0 = none)
    (hq : exec env tid (.query cmd) w = (ok, w')) :
    (runQuery cmd).run (faulty can env tid) ⟨w, faults⟩ =
      (if ok = true then 0 else 1, ⟨w', fun k => faults (k + 1)⟩) := by
  have hok : faulty can env tid (.query cmd) ⟨w, faults⟩ = (ok, ⟨w', fun k => faults (k + 1)⟩) := by
    rw [faulty_none h0, hq]
    rfl
  refine (Prog.run_call_of _ hok).trans ?_
  cases ok <;> rfl

theorem usrNotExist_none (hu : SqlText.litSafe usr = true) (h0 : faults 0 = none) :
    (usrNotExist usr).run (faulty canFail env tid) ⟨w, faults⟩ =
      (if usr ∈ w.db.usr.map UsrRow.name then 0 else 1,
        ⟨{ w with pending := Function.update w.pending tid none }, fun k => faults (k + 2)⟩) := by
  let rows := (w.db.usr.filter (·.name = usr)).map fun r => [toString r.uid]
  have hq : exec env tid (.query (usrNotExistCmd usr)) w =
      (true, { w with pending := Function.update w.pending tid (some rows) }) := by
    simp only [exec, sql, Stmt.read_usrNotExistCmd hu, DB.exec]
    rfl
  have hfetch : fetchRes.run (faulty canFail env tid)
      ⟨{ w with pending := Function.update w.pending tid (some rows) }, fun k => faults (k + 1)⟩ =
      (rows.head?, ⟨{ w with pending := Function.update w.pending tid none }, fun k => faults (k + 2)⟩) := by
    refine (Prog.run_call_of _ (faulty_cannot rfl)).trans ?_
    simp only [exec, Function.update_self, Option.bind_some, Function.update_idem]
    rfl
  unfold usrNotExist
  rw [Prog.run_bind_of _ (runQuery_none env tid h0 hq), if_pos rfl, if_neg (by simp), Prog.run_bind_of _ hfetch]
  by_cases hu : usr ∈ w.db.usr.map UsrRow.name
  · have hsome : rows.head? ≠ none := by
      simpa [rows, List.head?_eq_none_iff] using hu
    obtain ⟨row, hrow⟩ := Option.ne_none_iff_exists'.mp hsome
    rw [hrow, if_pos hu]
    rfl
  · have hnone : rows.head? = none := by
      rw [List.head?_eq_none_iff, List.map_eq_nil_iff, List.filter_eq_nil_iff]
      intro row hrow he
      exact hu (List.mem_map.mpr ⟨row, hrow, by simpa using he⟩)
    rw [hnone, if_neg hu]
    rfl

/-- The row that an `INSERT` adds. -/
def newRow (db : DB) (usr passwd : Bytes) : UsrRow := ⟨db.usr.length + 1, usr, passwd⟩

theorem insertUsr_none (faults : Nat → Option Fault) (hu : SqlText.litSafe usr = true) (hp : SqlText.litSafe passwd = true)
    (hnew : usr ∉ w.db.usr.map UsrRow.name) (h0 : faults 0 = none) : ∃ w' : World,
    (insertUsr usr passwd).run (faulty canFail env tid) ⟨w, faults⟩ = (1, ⟨w', fun k => faults (k + 1)⟩) ∧
      w'.fs = w.fs ∧ w'.db.usr = w.db.usr ++ [newRow w.db usr passwd] ∧ w'.db.signMap = w.db.signMap := by
  have hnodup : ((w.db.usr ++ [newRow w.db usr passwd]).map UsrRow.name).Nodup := by
    rw [List.map_append, List.map_singleton, List.nodup_append]
    refine ⟨w.db.usr_unique, List.nodup_singleton _, ?_⟩
    intro a ha b hb
    rw [List.mem_singleton.mp hb]
    rintro rfl
    exact hnew ha
  let db : DB := { w.db with usr := w.db.usr ++ [newRow w.db usr passwd], usr_unique := hnodup }
  have hq : exec env tid (.query (insertUsrCmd usr passwd)) w =
      (true, { w with db := db, pending := Function.update w.pending tid none }) := by
    have hsql : sql env w.db (insertUsrCmd usr passwd) = some (db, none) := by
      simp only [sql, Stmt.read_insertUsrCmd hu hp, DB.exec]
      exact dif_pos hnodup
    simp only [exec, hsql]
  refine ⟨{ w with db := db, pending := Function.update w.pending tid none }, ?_, rfl, rfl, rfl⟩
  unfold insertUsr
  rw [Prog.run_bind_of _ (runQuery_none env tid h0 hq), if_pos rfl, if_neg (by simp)]
  rfl

theorem createUsrDir_some {f : Fault} (h0 : faults 0 = some f) :
    (createUsrDir fl usr).run (faulty canFail env tid) ⟨w, faults⟩ = (-1, ⟨w, fun k => faults (k + 1)⟩) := by
  have hfail : faulty canFail env tid (.mkdir (cStr (fl.usrDir ++ usr))) ⟨w, faults⟩ =
      (some f.err, ⟨w, fun k => faults (k + 1)⟩) := faulty_some h0 rfl
  have hmk : (mkdir (fl.usrDir ++ usr)).run (faulty canFail env tid) ⟨w, faults⟩ = (-1, ⟨w, fun k => faults (k + 1)⟩) := by
    refine (Prog.run_call_of _ hfail).trans ?_
    change (if some f.err ≠ none ∧ some f.err ≠ some .eexist then _ else _ : Code Int).run _ _ = _
    rw [if_pos ⟨by simp, by simpa using f.err_ne⟩]
    rfl
  unfold createUsrDir
  rw [Prog.run_bind_of _ hmk]
  rfl

theorem createUsrDir_none (hs : Single usr) (hroot : w.fs.node fl.usrRoot = some .dir) (h0 : faults 0 = none) :
    (createUsrDir fl usr).run (faulty canFail env tid) ⟨w, faults⟩ =
      (1, ⟨{ w with fs := ensureDir w.fs (fl.usrRoot ++ [usr]) }, fun k => faults (k + 1)⟩) := by
  have htext : cStr (fl.usrDir ++ usr) = dirText fl.usrRoot ++ usr := cStr_single fl.usr_plain hs
  have hop : faulty canFail env tid (.mkdir (cStr (fl.usrDir ++ usr))) ⟨w, faults⟩ =
      (if w.fs.node (fl.usrRoot ++ [usr]) = none then none else some .eexist,
        ⟨{ w with fs := ensureDir w.fs (fl.usrRoot ++ [usr]) }, fun k => faults (k + 1)⟩) := by
    rw [faulty_none h0, htext]
    simp only [exec, mkdir_single fl.usr_plain hs hroot]
    rfl
  have hmk : (mkdir (fl.usrDir ++ usr)).run (faulty canFail env tid) ⟨w, faults⟩ =
      (0, ⟨{ w with fs := ensureDir w.fs (fl.usrRoot ++ [usr]) }, fun k => faults (k + 1)⟩) := by
    refine (Prog.run_call_of _ hop).trans ?_
    by_cases hnone : w.fs.node (fl.usrRoot ++ [usr]) = none
    · rw [if_pos hnone]
      rfl
    · rw [if_neg hnone]
      rfl
  unfold createUsrDir
  rw [Prog.run_bind_of _ hmk]
  rfl

/-- What is left of a registration: its message, the directory and the row. -/
structure After (fl : Flags) (usr passwd : Bytes) (w : World) (e : Ending) (message : Bytes) (w' : World) : Prop where
  message_eq : message = e.message usr
  fs_eq : w'.fs = if e = .registered then ensureDir w.fs (fl.usrRoot ++ [usr]) else w.fs
  usr_eq : w'.db.usr = if e.inserts = true then w.db.usr ++ [newRow w.db usr passwd] else w.db.usr
  signMap_eq : w'.db.signMap = w.db.signMap

theorem regist_after (faults : Nat → Option Fault) (hs : Single usr) (hu : SqlText.litSafe usr = true) (hp : SqlText.litSafe passwd = true)
    (hroot : w.fs.node fl.usrRoot = some .dir) :
    After fl usr passwd w (ending w.db usr faults) ((regist fl usr passwd).run (faulty canFail env tid) ⟨w, faults⟩).1
      ((regist fl usr passwd).run (faulty canFail env tid) ⟨w, faults⟩).2.world := by
  unfold regist ending
  cases h0 : faults 0 with
  | some f =>
    have hfail : (usrNotExist usr).run (faulty canFail env tid) ⟨w, faults⟩ = (-1, ⟨w, fun k => faults (k + 1)⟩) :=
      Prog.run_bind_of _ (runQuery_some env tid h0 rfl)
    rw [Prog.run_bind_of _ hfail]
    exact ⟨rfl, rfl, rfl, rfl⟩
  | none =>
    rw [Prog.run_bind_of _ (usrNotExist_none env tid hu h0), if_neg (by simp : ¬ (none : Option Fault).isSome = true)]
    by_cases hold : usr ∈ w.db.usr.map UsrRow.name
    · rw [if_pos hold, if_pos hold]
      exact ⟨rfl, rfl, rfl, rfl⟩
    · rw [if_neg hold, if_neg hold, if_neg (show ¬ (1 : Int) = -1 by decide), if_neg (show ¬ (1 : Int) = 0 by decide)]
      let w1 : World := { w with pending := Function.update w.pending tid none }
      cases h2 : faults 2 with
      | some f =>
        have hfail : (insertUsr usr passwd).run (faulty canFail env tid) ⟨w1, fun k => faults (k + 2)⟩ =
            (-1, ⟨w1, fun k => faults (k + 3)⟩) := Prog.run_bind_of _ (runQuery_some env tid h2 rfl)
        rw [Prog.run_bind_of _ hfail]
        exact ⟨rfl, rfl, rfl, rfl⟩
      | none =>
        obtain ⟨w2, hins, hfs, husr, hsign⟩ :=
          insertUsr_none (w := w1) env tid (fun k => faults (k + 2)) hu hp hold h2
        rw [Prog.run_bind_of _ hins, if_neg (show ¬ (1 : Int) = -1 by decide),
          if_neg (by simp : ¬ (none : Option Fault).isSome = true)]
        cases h3 : faults 3 with
        | some f =>
          rw [Prog.run_bind_of _ (createUsrDir_some fl env tid h3)]
          exact ⟨rfl, hfs, husr, hsign⟩
        | none =>
          have hroot2 : w2.fs.node fl.usrRoot = some .dir := by rw [hfs]; exact hroot
          rw [Prog.run_bind_of _ (createUsrDir_none fl env tid hs hroot2 h3)]
          refine ⟨rfl, ?_, husr, hsign⟩
          change ensureDir w2.fs _ = ensureDir w.fs _
          rw [hfs]

theorem answer_after (hs : Single usr) (hu : SqlText.litSafe usr = true) (hp : SqlText.litSafe passwd = true)
    (hroot : w.fs.node fl.usrRoot = some .dir) (clientFd : Int) :
    After fl usr passwd w (ending w.db usr faults)
      ((answer j fl usr passwd clientFd).run (faulty canFail env tid) ⟨w, faults⟩).1
      ((answer j fl usr passwd clientFd).run (faulty canFail env tid) ⟨w, faults⟩).2.world := by
  have h := regist_after fl env tid faults hs hu hp hroot
  unfold answer
  rw [Prog.run_bind]
  generalize (regist fl usr passwd).run (faulty canFail env tid) ⟨w, faults⟩ = out at h ⊢
  obtain ⟨message, s⟩ := out
  -- The response is sent, and nothing else.
  have hsend : ∃ w', ((respond j clientFd .null message >>= fun _ => .pure message).run (faulty canFail env tid) s) =
      (message, ⟨w', s.rest⟩) ∧ w'.fs = s.world.fs ∧ w'.db = s.world.db := by
    refine ⟨_, Prog.run_call_of _ (faulty_cannot rfl), rfl, rfl⟩
  obtain ⟨w', hrun, hfs, hdb⟩ := hsend
  change After fl usr passwd w _ ((respond j clientFd .null message >>= fun _ => .pure message).run _ s).1
    ((respond j clientFd .null message >>= fun _ => .pure message).run _ s).2.world
  rw [hrun]
  exact ⟨h.message_eq, hfs.trans h.fs_eq, (congrArg DB.usr hdb).trans h.usr_eq, (congrArg DB.signMap hdb).trans h.signMap_eq⟩

end

/-! ## Registrations one after another -/

/-- A request, and what goes wrong with its operations. -/
structure Registration where
  usr : Bytes
  passwd : Bytes
  clientFd : Int
  faults : Nat → Option Fault

/-- A name that is one component of a path, and strings that stand for themselves in a statement. -/
structure Registration.Clean (r : Registration) : Prop where
  single : Single r.usr
  usr_safe : SqlText.litSafe r.usr = true
  passwd_safe : SqlText.litSafe r.passwd = true

def register (w : World) (r : Registration) : Bytes × World :=
  let out := (answer j fl r.usr r.passwd r.clientFd).run (faulty canFail env 0) ⟨w, r.faults⟩
  (out.1, out.2.world)

def registers (w : World) (rs : List Registration) : World :=
  rs.foldl (fun w r => (register j fl env w r).2) w

def IsSuccess (message : Bytes) : Prop := ascii "Success" <+: message

def IsFail (message : Bytes) : Prop := ascii "Fail" <+: message

instance (message : Bytes) : Decidable (IsSuccess message) := inferInstanceAs (Decidable (_ <+: _))

instance (message : Bytes) : Decidable (IsFail message) := inferInstanceAs (Decidable (_ <+: _))

/-- After a success there is one row with the name, with the password, and the directory; after a failure the table
is as it was. -/
def AllOrNothing (w : World) (r : Registration) : Prop :=
  (IsSuccess (register j fl env w r).1 →
    ((register j fl env w r).2.db.usr.filter (·.name = r.usr)).map UsrRow.passwd = [r.passwd] ∧
      (register j fl env w r).2.fs.node (fl.usrRoot ++ [r.usr]) = some .dir) ∧
  (IsFail (register j fl env w r).1 → (register j fl env w r).2.db.usr = w.db.usr)

/-- A registration of a new name that failed succeeds when nothing goes wrong the next time. -/
def Retriable (w : World) (r : Registration) : Prop :=
  r.usr ∉ w.db.usr.map UsrRow.name → IsFail (register j fl env w r).1 →
    IsSuccess (register j fl env (register j fl env w r).2 { r with faults := fun _ => none }).1

/-- Each user has a directory. -/
def NamesHaveDirs (w : World) : Prop := ∀ row ∈ w.db.usr, w.fs.node (fl.usrRoot ++ [row.name]) = some .dir

/-- The name is new, and of the operations before the response only the `mkdir` fails. -/
def LosesDir (w : World) (r : Registration) : Prop :=
  r.usr ∉ w.db.usr.map UsrRow.name ∧ r.faults 0 = none ∧ r.faults 2 = none ∧ r.faults 3 ≠ none

/-- What stands in `usr_dir` is a directory. -/
structure OnlyDirs (fs : FS) : Prop where
  root : fs.node fl.usrRoot = some .dir
  entry : ∀ n, fs.node (fl.usrRoot ++ [n]) ≠ none → fs.node (fl.usrRoot ++ [n]) = some .dir

theorem isSuccess_message (usr : Bytes) (e : Ending) : IsSuccess (e.message usr) ↔ e = .registered := by
  have hfail : ∀ rest, ¬ IsSuccess (ascii "Fail" ++ rest) := by
    rintro rest ⟨t, ht⟩
    have hhead : some (ch 'S') = some (ch 'F') := congrArg List.head? ht
    exact absurd hhead (by decide)
  cases e with
  | registered => exact iff_of_true ⟨ascii ": regist usr " ++ usr, rfl⟩ rfl
  | queryFailed => exact iff_of_false (hfail (ascii ": query failed")) (by simp)
  | existed => exact iff_of_false (hfail (ascii ": usr is existed, usr: " ++ usr)) (by simp)
  | insertFailed => exact iff_of_false (hfail (ascii ": insert Usr table failed")) (by simp)
  | noDir => exact iff_of_false (hfail (ascii ": create usr dir failed")) (by simp)

theorem isFail_message (usr : Bytes) (e : Ending) : IsFail (e.message usr) ↔ e ≠ .registered := by
  cases e with
  | registered =>
    refine iff_of_false ?_ (by simp)
    rintro ⟨t, ht⟩
    have hhead : some (ch 'F') = some (ch 'S') := congrArg List.head? ht
    exact absurd hhead (by decide)
  | queryFailed => exact iff_of_true ⟨ascii ": query failed", rfl⟩ (by simp)
  | existed => exact iff_of_true ⟨ascii ": usr is existed, usr: " ++ usr, rfl⟩ (by simp)
  | insertFailed => exact iff_of_true ⟨ascii ": insert Usr table failed", rfl⟩ (by simp)
  | noDir => exact iff_of_true ⟨ascii ": create usr dir failed", rfl⟩ (by simp)

theorem losesDir_iff {w : World} {r : Registration} : LosesDir w r ↔ ending w.db r.usr r.faults = .noDir := by
  unfold LosesDir ending
  cases r.faults 0 <;> cases r.faults 2 <;> cases r.faults 3 <;>
    by_cases hold : r.usr ∈ w.db.usr.map UsrRow.name <;> simp [hold]

section
variable {fl} {w : World} {r : Registration} (hr : r.Clean) (hdirs : OnlyDirs fl w.fs)
include hr hdirs

theorem register_after : After fl r.usr r.passwd w (ending w.db r.usr r.faults) (register j fl env w r).1
    (register j fl env w r).2 :=
  answer_after j fl env 0 hr.single hr.usr_safe hr.passwd_safe hdirs.root r.clientFd

theorem register_node (q : Path) (hq : w.fs.node q ≠ none) : (register j fl env w r).2.fs.node q = w.fs.node q := by
  have hafter := register_after j env hr hdirs
  rw [hafter.fs_eq]
  split
  · rw [node_ensureDir hdirs.root, if_neg]
    rintro ⟨rfl, hnone⟩
    exact hq hnone
  · rfl

theorem register_onlyDirs : OnlyDirs fl (register j fl env w r).2.fs := by
  have hafter := register_after j env hr hdirs
  constructor
  · rw [register_node j env hr hdirs _ (by simp [hdirs.root])]
    exact hdirs.root
  · intro n hn
    by_cases hold : w.fs.node (fl.usrRoot ++ [n]) = none
    · rw [hafter.fs_eq] at hn ⊢
      split at hn
      · rename_i he
        rw [if_pos he]
        rw [node_ensureDir hdirs.root] at hn ⊢
        split at hn
        · rename_i hq
          rw [if_pos hq]
        · exact absurd hold hn
      · exact absurd hold hn
    · rw [register_node j env hr hdirs _ hold]
      exact hdirs.entry n hold

theorem register_dir (h : ending w.db r.usr r.faults = .registered) :
    (register j fl env w r).2.fs.node (fl.usrRoot ++ [r.usr]) = some .dir := by
  have hafter := register_after j env hr hdirs
  rw [hafter.fs_eq, if_pos h, node_ensureDir hdirs.root]
  split
  · rfl
  · rename_i hq
    exact hdirs.entry _ fun hnone => hq ⟨rfl, hnone⟩

/-- A registration is all or nothing unless it leaves a row without a directory. -/
theorem allOrNothing_iff : AllOrNothing j fl env w r ↔ ¬ LosesDir w r := by
  have hafter := register_after j env hr hdirs
  rw [losesDir_iff]
  unfold AllOrNothing
  rw [hafter.message_eq, isSuccess_message, isFail_message]
  constructor
  · rintro ⟨_, hfail⟩ hlost
    have husr := hfail (by rw [hlost]; simp)
    rw [hafter.usr_eq, hlost] at husr
    have hlen := congrArg List.length husr
    simp [Ending.inserts] at hlen
  · intro hok
    constructor
    · intro hend
      have hnew : r.usr ∉ w.db.usr.map UsrRow.name := by
        intro hold
        unfold ending at hend
        split_ifs at hend
      have hnone : w.db.usr.filter (·.name = r.usr) = [] := by
        rw [List.filter_eq_nil_iff]
        intro row hrow he
        exact hnew (List.mem_map.mpr ⟨row, hrow, by simpa using he⟩)
      refine ⟨?_, register_dir j env hr hdirs hend⟩
      rw [hafter.usr_eq, hend, Ending.inserts, if_pos rfl, List.filter_append, hnone]
      simp [newRow]
    · intro hne
      have hkeep : (ending w.db r.usr r.faults).inserts = false := by
        cases hend : ending w.db r.usr r.faults <;> simp_all [Ending.inserts]
      rw [hafter.usr_eq, hkeep, if_neg Bool.false_ne_true]

theorem register_retriable (hok : ¬ LosesDir w r) : Retriable j fl env w r := by
  intro hnew hfail
  have hkeep := ((allOrNothing_iff j env hr hdirs).mpr hok).2 hfail
  have hdirs' := register_onlyDirs j env hr hdirs
  have hagain := register_after j env (r := { r with faults := fun _ => none })
    ⟨hr.single, hr.usr_safe, hr.passwd_safe⟩ hdirs'
  rw [hagain.message_eq, isSuccess_message]
  unfold ending
  rw [hkeep, if_neg (by simp), if_neg hnew, if_neg (by simp), if_neg (by simp)]

theorem register_namesHaveDirs (hok : ¬ LosesDir w r) (h : NamesHaveDirs fl w) :
    NamesHaveDirs fl (register j fl env w r).2 := by
  have hafter := register_after j env hr hdirs
  intro row hrow
  rw [hafter.usr_eq] at hrow
  have hold : ∀ row ∈ w.db.usr, (register j fl env w r).2.fs.node (fl.usrRoot ++ [row.name]) = some .dir := by
    intro row hrow
    rw [register_node j env hr hdirs _ (by simp [h row hrow])]
    exact h row hrow
  split at hrow
  · rename_i hins
    rcases List.mem_append.mp hrow with hrow | hrow
    · exact hold row hrow
    · rw [List.mem_singleton.mp hrow]
      refine register_dir j env hr hdirs ?_
      rw [losesDir_iff] at hok
      cases hend : ending w.db r.usr r.faults <;> simp_all [Ending.inserts]
  · exact hold row hrow

end

section
variable {fl} {w : World} {rs : List Registration} (hclean : ∀ r ∈ rs, r.Clean) (hdirs : OnlyDirs fl w.fs)
include hclean hdirs

theorem registers_onlyDirs : ∀ done, done <+: rs → OnlyDirs fl (registers j fl env w done).fs := by
  refine Prog.foldl_invariant (fun _ (w : World) => OnlyDirs fl w.fs) hdirs ?_
  intro done r hpre h
  exact register_onlyDirs j env (hclean r (hpre.subset (by simp))) h

/-- In a run, each registration is all or nothing, a failed one can be retried, and each user has a directory,
exactly when no `mkdir` for a new user fails. -/
theorem registrations_iff (hrows : NamesHaveDirs fl w) :
    ((∀ done r, done ++ [r] <+: rs → AllOrNothing j fl env (registers j fl env w done) r ∧
        Retriable j fl env (registers j fl env w done) r) ∧
      ∀ done, done <+: rs → NamesHaveDirs fl (registers j fl env w done)) ↔
    ∀ done r, done ++ [r] <+: rs → ¬ LosesDir (registers j fl env w done) r := by
  have hpres := registers_onlyDirs j env hclean hdirs
  constructor
  · rintro ⟨h, _⟩ done r hpre
    have hr := hclean r (hpre.subset (by simp))
    exact (allOrNothing_iff j env hr (hpres done ((List.prefix_append done [r]).trans hpre))).mp (h done r hpre).1
  · intro hok
    constructor
    · intro done r hpre
      have hr := hclean r (hpre.subset (by simp))
      have hd := hpres done ((List.prefix_append done [r]).trans hpre)
      exact ⟨(allOrNothing_iff j env hr hd).mpr (hok done r hpre), register_retriable j env hr hd (hok done r hpre)⟩
    · refine Prog.foldl_invariant (fun _ w => NamesHaveDirs fl w) hrows ?_
      intro done r hpre h
      have hr := hclean r (hpre.subset (by simp))
      exact register_namesHaveDirs j env hr (hpres done ((List.prefix_append done [r]).trans hpre)) (hok done r hpre) h

end

/-! ### A `mkdir` that fails -/

namespace Lost

/-- jsoncpp, as far as a response goes whose characters need no escape. -/
def jsoncpp : Jsoncpp Empty where
  parse _ := (false, .null)
  toStyledString
    | .obj [(key, .str text)] => ascii "\x7b\n\t\"" ++ key ++ ascii "\" : \"" ++ text ++ ascii "\"\n\x7d\n"
    | _ => []
  realInt x := x.elim
  realText x := x.elim

def fault : Fault := ⟨.eio, eio_ne_eexist, 0, none, false⟩

/-- The fourth operation fails. -/
def bob : Registration := ⟨ascii "bob", ascii "pw", 4, fun k => if k = 3 then some fault else none⟩

def world : World := Server.start .short []

theorem clean : ∀ r ∈ [bob], r.Clean := by
  intro r hr
  rw [List.mem_singleton.mp hr]
  exact ⟨by decide, by decide, by decide⟩

theorem onlyDirs : OnlyDirs .short world.fs where
  root := (EmptyDirs.start _ _).usr_root
  entry n h := by
    obtain ⟨m, hm⟩ := Option.ne_none_iff_exists'.mp h
    rw [hm, ((EmptyDirs.start .short []).users [n] m hm).1]

end Lost

theorem registrations_lost :
    ((∀ done r, done ++ [r] <+: [Lost.bob] →
        AllOrNothing Lost.jsoncpp .short .bare (registers Lost.jsoncpp .short .bare Lost.world done) r ∧
        Retriable Lost.jsoncpp .short .bare (registers Lost.jsoncpp .short .bare Lost.world done) r) ∧
      ∀ done, done <+: [Lost.bob] → NamesHaveDirs .short (registers Lost.jsoncpp .short .bare Lost.world done)) ↔
    ∀ done r, done ++ [r] <+: [Lost.bob] → ¬ LosesDir (registers Lost.jsoncpp .short .bare Lost.world done) r :=
  registrations_iff Lost.jsoncpp .bare Lost.clean Lost.onlyDirs fun _ hrow => absurd hrow List.not_mem_nil

/-- The registration has failed, and its row is there. -/
theorem failed_keeps_row : ¬ AllOrNothing Lost.jsoncpp .short .bare Lost.world Lost.bob := by
  intro h
  exact absurd (h.2 (by decide)) (by decide)

end RegisterView

end NetDisk
