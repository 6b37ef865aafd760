import NetDisk.Publish
import NetDisk.Register

/-!
# Registered users

An upload asks no table whether its user exists: it fails when the user has no directory. So a directory
in `usr_dir` must have a row in `Usr`, whatever registrations and uploads come.
-/

namespace NetDisk

open Machine UploadRpc RegisterView Server

namespace Registered

/-- A request to the one server or to the other. -/
inductive Event where
  | register (r : Registration)
  | upload (r : NetDiskRequest)

section
variable {ρ : Type} (j : Jsoncpp ρ) (fl : Flags) (env : Env)

def step (w : World) : Event → World
  | .register r => (RegisterView.register j fl env w r).2
  | .upload r => (handle env fl w r).2

def serveAll (w : World) (events : List Event) : World := events.foldl (step j fl env) w

end

/-- The names are components of paths, and strings that stand for themselves in a statement and a command. -/
def Event.Clean : Event → Prop
  | .register r => r.Clean
  | .upload r => PlainNames r

/-- An `INSERT` into `SignMap` changes no other table. -/
def LeavesUsr (env : Env) : Prop :=
  ∀ sign fileName db out, env.sql (insertSignCmd sign fileName) db = some out → out.1.usr = db.usr

/-- Each directory of a user is a registered user's. -/
structure Named (fl : Flags) (w : World) : Prop where
  shape : Shape fl w.fs
  row : ∀ n, w.fs.node (fl.usrRoot ++ [n]) ≠ none → n ∈ w.db.usr.map UsrRow.name

section
variable {ρ : Type} {j : Jsoncpp ρ} {fl : Flags} {env : Env} {w : World}

theorem insertSign_usr (hsql : LeavesUsr env) (db : DB) (sign fileName : Bytes) :
    (queryOutcome env db (insertSignCmd sign fileName)).2.usr = db.usr := by
  unfold queryOutcome sql
  cases hread : Stmt.read (insertSignCmd sign fileName) with
  | some stmt =>
    obtain ⟨rows, rfl⟩ := Stmt.insertSigns_of_read hread
    simp only [DB.exec]
    by_cases hnodup : ((db.signMap ++ rows).map SignRow.sign).Nodup
    · rw [dif_pos hnodup]
    · rw [dif_neg hnodup]
  | none =>
    cases hout : env.sql (insertSignCmd sign fileName) db with
    | none => rfl
    | some out => exact hsql sign fileName db out hout

theorem linkQueries_usr (hsql : LeavesUsr env) (db : DB) {sign : Bytes} (hs : SqlText.litSafe sign = true)
    (fileName : Bytes) : (linkQueries env db sign fileName).2.usr = db.usr := by
  unfold linkQueries
  rw [sql_of_read (Stmt.read_selectSignCmd hs)]
  simp only [DB.exec]
  split
  · exact insertSign_usr hsql db sign fileName
  · unfold queryOutcome
    rw [sql_of_read (Stmt.read_updateSignCmd hs)]
    rfl

theorem upload_named (hsql : LeavesUsr env) {r : NetDiskRequest} (hr : PlainNames r) (h : Named fl w) :
    Named fl (handle env fl w r).2 := by
  obtain ⟨hshape, hdisk, -, hdb⟩ := handle_spec env h.shape hr
  have husr : (handle env fl w r).2.db.usr = w.db.usr := by
    rw [hdb]
    split
    · exact linkQueries_usr hsql w.db hr.2.litSafe r.fileName
    · rfl
  refine ⟨hshape, fun n hn => ?_⟩
  have huser : (disk fl (handle env fl w r).2).user n = true := decide_eq_true (hshape.user_dir hn)
  rw [hdisk, Disk.user_upload] at huser
  rw [husr]
  exact h.row n (by simp [of_decide_eq_true huser])

theorem register_named {r : Registration} (hr : r.Clean) (h : Named fl w) :
    Named fl (RegisterView.register j fl env w r).2 := by
  have hdirs : OnlyDirs fl w.fs := ⟨h.shape.usr_root, fun n hn => h.shape.user_dir hn⟩
  have hafter := register_after j env hr hdirs
  have hold : ∀ n ∈ w.db.usr.map UsrRow.name, n ∈ (RegisterView.register j fl env w r).2.db.usr.map UsrRow.name := by
    intro n hn
    rw [hafter.usr_eq]
    split
    · rw [List.map_append]
      exact List.mem_append_left _ hn
    · exact hn
  constructor
  · rw [hafter.fs_eq]
    split
    · have hdir := h.shape.ensureDir_usr (q := []) (n := r.usr) rfl
      rwa [List.append_nil] at hdir
    · exact h.shape
  · intro n hn
    by_cases hnew : w.fs.node (fl.usrRoot ++ [n]) = none
    · -- The only new directory comes with its row.
      rw [hafter.fs_eq] at hn
      split at hn
      · rename_i hend
        rw [node_ensureDir h.shape.usr_root] at hn
        split at hn
        · rename_i hq
          rw [hafter.usr_eq, hend, Ending.inserts, if_pos rfl, List.map_append]
          have hname : n = r.usr := by simpa using hq.1
          exact List.mem_append_right _ (by simp [newRow, hname])
        · exact absurd hnew hn
      · exact absurd hnew hn
    · exact hold n (h.row n hnew)

theorem serveAll_named {events : List Event} (hsql : LeavesUsr env) (hclean : ∀ e ∈ events, e.Clean) (h : Named fl w) :
    ∀ done, done <+: events → Named fl (serveAll j fl env w done) := by
  refine Prog.foldl_invariant (fun _ w => Named fl w) h ?_
  intro done e hpre h
  have he := hclean e (hpre.subset (by simp))
  cases e with
  | register r => exact register_named he h
  | upload r => exact upload_named hsql he h

/-- In every run of registrations and uploads, an upload that succeeds is a registered user's. -/
theorem uploads_registered {events : List Event} (hsql : LeavesUsr env) (hclean : ∀ e ∈ events, e.Clean)
    (hstart : EmptyDirs fl w.fs) (hno : ∀ n, w.fs.node (fl.usrRoot ++ [n]) = none) :
    ∀ done r, done ++ [.upload r] <+: events → (handle env fl (serveAll j fl env w done) r).1.res = some true →
      ∃ row ∈ (serveAll j fl env w done).db.usr, row.name = r.usr := by
  intro done r hpre hres
  have hnamed := serveAll_named (j := j) hsql hclean ⟨hstart.shape, fun n hn => absurd (hno n) hn⟩ done
    ((List.prefix_append done _).trans hpre)
  have hr : PlainNames r := hclean (.upload r) (hpre.subset (by simp))
  obtain ⟨-, -, hanswer, -⟩ := handle_spec env hnamed.shape hr
  have huser : (disk fl (serveAll j fl env w done)).user r.usr ≠ false := by
    intro hno
    have hout : (disk fl (serveAll j fl env w done)).outcome (Part.of r) = .noUser := Disk.outcome_noUser.mpr hno
    rw [hres, hout] at hanswer
    exact Bool.false_ne_true (Option.some.inj hanswer).symm
  have hdir : (serveAll j fl env w done).fs.node (fl.usrRoot ++ [r.usr]) = some .dir :=
    of_decide_eq_true (Bool.eq_true_of_not_eq_false huser)
  exact List.mem_map.mp (hnamed.row r.usr (by simp [hdir]))

end

/-! ### Bob, and nobody -/

namespace Bob

def registration : Registration := ⟨ascii "bob", ascii "pw", 4, fun _ => none⟩

def upload (usr : String) : NetDiskRequest := TwoParts.request usr 0 "a"

def events : List Event := [.register registration, .upload (upload "bob")]

end Bob

theorem bob_registered : ∃ row ∈ (serveAll Lost.jsoncpp .short .bare Lost.world [.register Bob.registration]).db.usr,
    row.name = ascii "bob" := by
  have hclean : ∀ e ∈ Bob.events, e.Clean := by
    intro e he
    rcases List.mem_pair.mp he with rfl | rfl
    · exact ⟨by decide, by decide, by decide⟩
    · exact ⟨by decide +kernel, by decide +kernel⟩
  have hsql : LeavesUsr .bare := fun _ _ _ _ h => absurd h (by simp [Env.bare])
  exact uploads_registered hsql hclean (EmptyDirs.start _ _) (EmptyDirs.start_no_user _) [.register Bob.registration]
    (Bob.upload "bob") List.prefix_rfl (by decide +kernel)

/-- No user is asked for, and `usr_dir` itself gets the part. -/
theorem nobody_uploads : ¬ ∀ done r, done ++ [.upload r] <+: [.upload (Bob.upload "")] →
    (handle .bare .short (serveAll Lost.jsoncpp .short .bare Lost.world done) r).1.res = some true →
      ∃ row ∈ (serveAll Lost.jsoncpp .short .bare Lost.world done).db.usr, row.name = r.usr := by
  intro h
  obtain ⟨row, hrow, -⟩ := h [] (Bob.upload "") List.prefix_rfl (by decide +kernel)
  exact List.not_mem_nil hrow

end Registered

end NetDisk
