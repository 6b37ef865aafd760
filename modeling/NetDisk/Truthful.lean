import NetDisk.Order
import NetDisk.Stable
import NetDisk.Reference

/-!
# What a success is worth

The request that brings the last part, when `opendir`, `mv`, `symlink` or a query fails. A listing that fails counts
as an empty directory, and an `mv` that fails prints nothing: the call goes on as if nothing had happened.
-/

namespace NetDisk

open Machine UploadRpc FileSys Mmysql Server

/-! ## Code under a plan -/

/-- From every state with `fs` and `db`, the code ends with `a`, `fs'` and `db'`, where operations fail as planned. -/
def EndsAs (plan : Sys → Option Fault) (env : Env) (tid : Nat) {α : Type} (c : Code α) (fs : FS) (db : DB) (a : α)
    (fs' : FS) (db' : DB) : Prop :=
  ∀ w : World, w.fs = fs → w.db = db → (c.run (planned plan env tid) w).1 = a ∧
    (c.run (planned plan env tid) w).2.fs = fs' ∧ (c.run (planned plan env tid) w).2.db = db'

section
variable {plan : Sys → Option Fault} {env : Env} {tid : Nat} {fs fs' fs'' : FS} {db db' db'' : DB}

theorem EndsAs.pure {α : Type} (a : α) : EndsAs plan env tid (.pure a : Code α) fs db a fs db :=
  fun _ hfs hdb => ⟨rfl, hfs, hdb⟩

theorem EndsAs.bind {α β : Type} {c : Code α} {f : α → Code β} {a : α} {b : β}
    (hc : EndsAs plan env tid c fs db a fs' db') (hf : EndsAs plan env tid (f a) fs' db' b fs'' db'') :
    EndsAs plan env tid (c >>= f) fs db b fs'' db'' := by
  intro w hfs hdb
  obtain ⟨h1, h2, h3⟩ := hc w hfs hdb
  rw [Prog.run_bind, h1]
  exact hf _ h2 h3

theorem Ends.planned {α : Type} {c : Code α} {a : α} (h : Ends env tid c fs db a fs' db')
    (huses : c.Uses fun op => plan op = none) : EndsAs plan env tid c fs db a fs' db' := by
  intro w hfs hdb
  rw [huses.run_congr (fun op hop => planned_none hop) w]
  exact h w hfs hdb

theorem EndsAs.fails {op : Sys} {f : Fault} (h : plan op = some f)
    (hkeep : ∀ w, (failed f env tid op w).2 = w) {a : op.Res} (ha : ∀ w, (failed f env tid op w).1 = a) :
    EndsAs plan env tid (sys op) fs db a fs db := by
  intro w hfs hdb
  have hop : planned plan env tid op w = (a, w) := (congrFun (planned_some h) w).trans (Prod.ext (ha w) (hkeep w))
  have hrun : (sys op).run (planned plan env tid) w = (a, w) := Prog.run_call_of _ hop
  rw [hrun]
  exact ⟨rfl, hfs, hdb⟩

end

/-! ## What fails -/

section
variable (fl : Flags) (r : NetDiskRequest)

/-- The write that follows a `SELECT` in the tables `db`. -/
def writeCmd (db : DB) : Bytes :=
  if db.refs r.fileSign = none then insertSignCmd r.fileSign r.fileName else updateSignCmd r.fileSign

def writeOp (db : DB) : Sys := .query (writeCmd r db)

def CanFail : Sys → Prop
  | .opendir _ | .readdir _ | .symlink _ _ | .query _ => True
  | .shell cmd => .shell cmd = mvOp fl r
  | _ => False

/-- Only those operations fail; `mv` then does nothing, and tells of it on stderr only. -/
structure FailurePlan (plan : Sys → Option Fault) : Prop where
  only : ∀ op f, plan op = some f → CanFail fl r op
  mv : ∀ f, plan (mvOp fl r) = some f → f.text.getD [] = [] ∧ f.done = false

/-- The parts that are there once the one of the request is written. -/
def partsAfter (w : World) : Nat → Option Bytes := ((disk fl w).putPart (Part.of r)).part r.usr r.fileSign

/-- The part of the request is written, is good, and is the last one. -/
structure Completes (plan : Sys → Option Fault) (w : World) : Prop where
  user : (disk fl w).user r.usr = true
  written : (disk fl w).stored r.fileSign = false ∨ plan (existDirOp fl r) ≠ none
  good : Md5.hexDigest ((disk fl w).content (Part.of r)) = r.partSign
  last : (((disk fl w).putPart (Part.of r)).arrived r.usr r.fileSign).ncard = shardSize r.shard

/-- The file is stored with these parts, linked to the user, and has a row. -/
structure Published (parts : Nat → Option Bytes) (w : World) : Prop where
  stored : (disk fl w).stored r.fileSign = true
  parts : (disk fl w).store r.fileSign = parts
  link : w.fs.node (fl.usrRoot ++ [r.usr, FILES, r.fileSign]) = some (.link (fl.filesDir ++ r.fileSign))
  row : w.db.refs r.fileSign ≠ none

/-- A success is true, and nothing is linked or counted that is not stored. -/
structure Truthful (w : World) (response : NetDiskResponse) (w' : World) : Prop where
  success : response.res = some true → Published fl r (partsAfter fl r w) w'
  links : ∀ u s, (disk fl w).linked u s = false → (disk fl w').linked u s = true → (disk fl w').stored s = true
  rows : ∀ s, w.db.refs s = none → w'.db.refs s ≠ none → (disk fl w').stored s = true

end

/-! ## Up to the check of the part -/

section
variable {fl : Flags} {r : NetDiskRequest} {plan : Sys → Option Fault} (hplan : FailurePlan fl r plan)
include hplan

theorem FailurePlan.quiet {op : Sys} (hop : ¬ CanFail fl r op) : plan op = none := by
  cases h : plan op with
  | none => rfl
  | some f => exact absurd (hplan.only op f h) hop

theorem md5sum_quiet : plan (.shell (cStr (ascii "md5sum " ++ filePath fl r))) = none := by
  refine hplan.quiet fun h => ?_
  have hcmd := congrArg (fun cmd : Bytes => cmd[1]?) (Sys.shell.inj h)
  change some (ch 'd') = some (ch 'v') at hcmd
  exact absurd hcmd (by decide)

theorem mkdir_quiet (dirName : Bytes) : (FileSys.mkdir dirName).Uses fun op => plan op = none := by
  unfold FileSys.mkdir
  exact Prog.Uses.bind (Prog.Uses.lift (hplan.quiet id)) fun _ => Prog.Uses.ite .pure .pure

theorem makeTmpDirs_quiet : (makeTmpDirs fl r).Uses fun op => plan op = none := by
  unfold makeTmpDirs
  refine Prog.Uses.bind (mkdir_quiet hplan _) fun _ => Prog.Uses.ite .pure ?_
  refine Prog.Uses.bind (mkdir_quiet hplan _) fun _ => Prog.Uses.ite .pure ?_
  exact Prog.Uses.bind (mkdir_quiet hplan _) fun _ => .pure

theorem existFile_quiet (path : Bytes) : (existFile path).Uses fun op => plan op = none :=
  Prog.Uses.lift (hplan.quiet id)

theorem deleteFile_quiet (path : Bytes) : (deleteFile path).Uses fun op => plan op = none := by
  unfold deleteFile
  exact Prog.Uses.bind (Prog.Uses.lift (hplan.quiet id)) fun _ => Prog.Uses.ite .pure .pure

theorem md5Sum_quiet : (md5Sum (filePath fl r)).Uses fun op => plan op = none := by
  unfold md5Sum shellOut
  refine Prog.Uses.bind (Prog.Uses.lift (md5sum_quiet hplan)) fun res => ?_
  cases res <;> exact .pure

theorem writeLoop_quiet (fd : Nat) (s : Bytes) (fuel len : Nat) :
    (writeLoop fd s fuel len).Uses fun op => plan op = none := by
  induction fuel generalizing len with
  | zero => exact .pure
  | succ fuel ih =>
    unfold writeLoop
    exact Prog.Uses.ite (Prog.Uses.bind (Prog.Uses.lift (hplan.quiet id)) fun _ => ih _) .pure

theorem write_quiet (str path : Bytes) : (FileSys.write str path).Uses fun op => plan op = none := by
  unfold FileSys.write
  refine Prog.Uses.bind (Prog.Uses.lift (hplan.quiet id)) fun fd => ?_
  cases fd with
  | none => exact .pure
  | some fd =>
    refine Prog.Uses.bind (writeLoop_quiet hplan fd _ _ _) fun len => ?_
    exact Prog.Uses.bind (Prog.Uses.lift (hplan.quiet id)) fun _ =>
      Prog.Uses.bind (Prog.Uses.lift (hplan.quiet id)) fun _ => .pure

theorem FailurePlan.asks : Asks fl r fun _ c => c.Uses fun op => plan op = none :=
  ⟨makeTmpDirs_quiet hplan, existFile_quiet hplan _, md5Sum_quiet hplan, deleteFile_quiet hplan _,
    write_quiet hplan _ _⟩

end

/-- The call ends with an answer, a disk and tables as `E` says. -/
def GivesAs (plan : Sys → Option Fault) (env : Env) (tid : Nat) (fl : Flags) (c : Code NetDiskResponse) (fs : FS)
    (db : DB) (E : Bool → Disk → DB → Prop) : Prop :=
  ∃ response res fs' db', EndsAs plan env tid c fs db response fs' db' ∧ response.res = some res ∧ Shape fl fs' ∧
    E res (Disk.of fl fs') db'

section
variable {fl : Flags} {r : NetDiskRequest} {plan : Sys → Option Fault} {env : Env} {tid : Nat} {fs fs' : FS} {db db' : DB}
  {E : Bool → Disk → DB → Prop}

theorem GivesAs.bind {α : Type} {c : Code α} {f : α → Code NetDiskResponse} {a : α}
    (hc : EndsAs plan env tid c fs db a fs' db') (hf : GivesAs plan env tid fl (f a) fs' db' E) :
    GivesAs plan env tid fl (c >>= f) fs db E := by
  obtain ⟨response, res, fs'', db'', hends, hE⟩ := hf
  exact ⟨response, res, fs'', db'', hc.bind hends, hE⟩

theorem GivesAs.answer (hs : Shape fl fs) (response : NetDiskResponse) (res : Bool) (body : String)
    (h : E res (Disk.of fl fs) db) : GivesAs plan env tid fl (.pure (response.answer res body)) fs db E :=
  ⟨_, res, fs, db, EndsAs.pure _, rfl, hs, h⟩

theorem GivesAs.steps : Steps env tid (fun _ c => c.Uses fun op => plan op = none) db fun c fs => GivesAs plan env tid fl c fs db E :=
  fun _ _ _ _ _ _ hends huses hleft => GivesAs.bind (hends.planned huses) hleft

end

/-! ## From the listing on -/

section
variable {fl : Flags} {r : NetDiskRequest} {plan : Sys → Option Fault} {env : Env} {tid : Nat} {fs : FS} {db : DB}

/-- A query of the call fails: the `SELECT`, or the write that follows it. -/
def QueryFails (r : NetDiskRequest) (plan : Sys → Option Fault) (db : DB) : Prop :=
  plan (selectOp r) ≠ none ∨ plan (writeOp r db) ≠ none

theorem runQuery_fails {cmd : Bytes} (h : plan (.query cmd) ≠ none) :
    EndsAs plan env tid (runQuery cmd) fs db 1 fs db := by
  obtain ⟨f, hf⟩ := Option.ne_none_iff_exists'.mp h
  have hquery : EndsAs plan env tid (sys (.query cmd)) fs db false fs db := .fails hf (fun _ => rfl) fun _ => rfl
  exact hquery.bind (EndsAs.pure _)

section
variable (hplan : FailurePlan fl r plan)
include hplan

theorem lockedQuery_fails {cmd : Bytes} (h : plan (.query cmd) ≠ none) :
    EndsAs plan env tid (lockedQuery cmd) fs db (-1) fs db := by
  have hlock : Ends env tid (sys .lock) fs db () fs db := fun _ hfs hdb => ⟨rfl, hfs, hdb⟩
  have hunlock : Ends env tid (sys .unlock) fs db () fs db := fun _ hfs hdb => ⟨rfl, hfs, hdb⟩
  unfold lockedQuery
  refine (hlock.planned (Prog.Uses.lift (hplan.quiet id))).bind ?_
  refine (runQuery_fails h).bind ?_
  refine (hunlock.planned (Prog.Uses.lift (hplan.quiet id))).bind ?_
  exact EndsAs.pure _

theorem lockedQuery_works {cmd : Bytes} (h : plan (.query cmd) = none) (hok : (queryOutcome env db cmd).1 = true) :
    EndsAs plan env tid (lockedQuery cmd) fs db 0 fs (queryOutcome env db cmd).2 := by
  have hends : Ends env tid (lockedQuery cmd) fs db 0 fs (queryOutcome env db cmd).2 := by
    have hspec : Ends env tid _ fs db _ _ _ := lockedQuery_spec cmd
    rwa [if_pos hok] at hspec
  refine hends.planned ?_
  unfold lockedQuery runQuery
  refine Prog.Uses.bind (Prog.Uses.lift (hplan.quiet id)) fun _ => ?_
  refine Prog.Uses.bind (Prog.Uses.bind (Prog.Uses.lift h) fun _ => Prog.Uses.ite .pure .pure) fun _ => ?_
  exact Prog.Uses.bind (Prog.Uses.lift (hplan.quiet id)) fun _ => Prog.Uses.ite .pure .pure

theorem countLink_writes (hsg : SqlText.litSafe r.fileSign = true) (hselect : plan (selectOp r) = none) {rt : Int}
    {fs' : FS} {db' : DB} (h : EndsAs plan env tid (lockedQuery (writeCmd r db)) fs db rt fs' db') :
    EndsAs plan env tid (countLink r.fileSign r.fileName) fs db rt fs' db' := by
  intro w hfs hdb
  obtain ⟨rows, hexec, hrows⟩ := exec_select env hsg tid w
  have hsel : planned plan env tid (selectOp r) w = (true, { w with pending := Function.update w.pending tid (some rows) }) := by
    rw [planned_none hselect]
    exact hexec
  have hquery : (runQuery (selectSignCmd r.fileSign)).run (planned plan env tid) w =
      (0, { w with pending := Function.update w.pending tid (some rows) }) := Prog.run_call_of _ hsel
  have hfetch : planned plan env tid .fetch { w with pending := Function.update w.pending tid (some rows) } =
      (rows.head?, { w with pending := Function.update w.pending tid none }) := by
    rw [planned_none (hplan.quiet id)]
    simp [exec]
  unfold countLink
  rw [Prog.run_bind_of _ hquery, if_neg (by simp), fetchRes, sys, Prog.lift_bind, Prog.run_call_of _ hfetch]
  have hend := h { w with pending := Function.update w.pending tid none } hfs hdb
  unfold writeCmd at hend
  cases hhead : rows.head? with
  | none =>
    rw [if_pos (hdb ▸ hrows.mp hhead)] at hend
    exact hend
  | some row =>
    rw [if_neg (hdb ▸ fun hn => by simp [hrows.mpr hn] at hhead)] at hend
    exact hend

theorem countLink_fails (hsg : SqlText.litSafe r.fileSign = true) (h : QueryFails r plan db) :
    EndsAs plan env tid (countLink r.fileSign r.fileName) fs db (-1) fs db := by
  by_cases hselect : plan (selectOp r) = none
  · exact countLink_writes hplan hsg hselect (lockedQuery_fails hplan (h.resolve_left (not_not.mpr hselect)))
  · unfold countLink
    exact (runQuery_fails hselect).bind (EndsAs.pure _)

omit hplan in
variable (env) in
theorem writeCmd_counts (hsg : SqlText.litSafe r.fileSign = true) (hrow : Stmt.OneRow r.fileSign r.fileName) :
    (queryOutcome env db (writeCmd r db)).1 = true ∧ ∀ s, (queryOutcome env db (writeCmd r db)).2.refs s =
      if s = r.fileSign then countUp (db.refs s) else db.refs s := by
  unfold writeCmd
  split
  · rename_i hnone
    obtain ⟨name, hread⟩ := hrow
    obtain ⟨db', hq, -, hrefs⟩ := insertRow_spec env hread hnone
    rw [hq]
    exact ⟨rfl, hrefs⟩
  · rename_i hsome
    obtain ⟨hq, hrefs⟩ := updateRow_spec env hsg hsome
    rw [hq]
    exact ⟨rfl, hrefs⟩

theorem countLink_works (hsg : SqlText.litSafe r.fileSign = true) (hrow : Stmt.OneRow r.fileSign r.fileName)
    (h : ¬ QueryFails r plan db) :
    EndsAs plan env tid (countLink r.fileSign r.fileName) fs db 0 fs (queryOutcome env db (writeCmd r db)).2 := by
  obtain ⟨hselect, hwrite⟩ := not_or.mp h
  exact countLink_writes hplan hsg (not_not.mp hselect)
    (lockedQuery_works hplan (not_not.mp hwrite) (writeCmd_counts env hsg hrow).1)

end

theorem canMove_iff (hs : Shape fl fs) (u s : Name) :
    fs.CanMove (fl.usrRoot ++ [u, TMP, s]) (fl.filesRoot ++ [s]) ↔ ∀ i, (Disk.of fl fs).store s i = none := by
  constructor
  · intro hcan i
    by_contra hsome
    have hnode : fs.node (fl.filesRoot ++ [s, toString i]) ≠ none := (Disk.store_names hs s _).mpr ⟨i, hsome, rfl⟩
    have hempty := hcan.2.2.2.2 _ ((fs.mem_paths _).mpr hnode) ⟨[toString i], by simp⟩
    simp at hempty
  · intro hempty
    refine ⟨by simp, by simp, ?_, fl.not_usr_prefix_files _ _, ?_⟩
    · rw [List.dropLast_concat]
      exact hs.files_root
    · rintro q hq ⟨rest, rfl⟩
      cases rest with
      | nil => simp
      | cons i rest =>
        have hnode : fs.node (fl.filesRoot ++ [s, i]) ≠ none := by
          rw [fs.mem_paths] at hq
          by_cases hrest : rest = []
          · simpa [hrest] using hq
          · have hdir := fs.dir_above (fl.filesRoot ++ [s, i]) rest hrest (by simpa using hq)
            simp [hdir]
        obtain ⟨k, hk, -⟩ := (Disk.store_names hs s i).mp hnode
        exact absurd (hempty k) hk

/-- `mv` works, and finds nothing in its way. -/
def Moves (fl : Flags) (r : NetDiskRequest) (plan : Sys → Option Fault) (d : Disk) : Prop :=
  plan (mvOp fl r) = none ∧ ∀ i, d.store r.fileSign i = none

open Classical in
/-- The disk after the `mv`. -/
noncomputable def afterMv (fl : Flags) (r : NetDiskRequest) (plan : Sys → Option Fault) (d : Disk) : Disk :=
  if Moves fl r plan d then d.publish r.usr r.fileSign else d

section
variable (hplan : FailurePlan fl r plan) (hu : Plain r.usr) (hsg : Plain r.fileSign)
include hplan hu hsg

theorem mv_gives (hs : Shape fl fs) (hdir : fs.node (fl.usrRoot ++ [r.usr, TMP, r.fileSign]) = some .dir)
    (hfiles : fs.node (fl.usrRoot ++ [r.usr, FILES]) = some .dir) :
    ∃ text fs', EndsAs plan env tid (shellOut (mvCmd fl r)) fs db text fs' db ∧ text.getD [] = [] ∧ Shape fl fs' ∧
      Disk.of fl fs' = afterMv fl r plan (Disk.of fl fs) ∧ fs'.node (fl.usrRoot ++ [r.usr, FILES]) = some .dir := by
  cases hf : plan (mvOp fl r) with
  | some f =>
    obtain ⟨htext, hdone⟩ := hplan.mv f hf
    refine ⟨f.text, fs, ?_, htext, hs, ?_, hfiles⟩
    · intro w hfs hdb
      have hrun : (shellOut (mvCmd fl r)).run (planned plan env tid) w = (f.text, w) := by
        have hop : planned plan env tid (mvOp fl r) w = (f.text, w) := by
          rw [planned_some hf]
          simp only [mvOp, failed, hdone, Bool.false_eq_true, if_false]
        exact Prog.run_call_of _ hop
      rw [hrun]
      exact ⟨rfl, hfs, hdb⟩
    · rw [afterMv, if_neg]
      rintro ⟨hnone, -⟩
      rw [hf] at hnone
      cases hnone
  | none =>
    have hop : ∀ w, (shellOut (mvCmd fl r)).run (planned plan env tid) w = exec env tid (.shell (mvCmd fl r)) w := by
      intro w
      have hop : planned plan env tid (mvOp fl r) w = exec env tid (mvOp fl r) w := by rw [planned_none hf]
      unfold mvOp at hop
      unfold shellOut
      rw [(mvCmd_words fl hu hsg).1] at hop ⊢
      exact Prog.run_call_of _ hop
    by_cases hcan : fs.CanMove (fl.usrRoot ++ [r.usr, TMP, r.fileSign]) (fl.filesRoot ++ [r.fileSign])
    · refine ⟨some [], fs.move _ _ hcan, ?_, rfl, hs.move hdir hcan, ?_, ?_⟩
      · rintro w rfl rfl
        rw [hop]
        obtain ⟨htext, hdb, ⟨hno, -⟩ | ⟨_, hmove⟩⟩ := mv_cases env tid hs hu hsg hdir
        · exact absurd hcan hno
        · exact ⟨htext, hmove, hdb⟩
      · rw [Disk.of_move hdir hcan, afterMv, if_pos]
        exact ⟨hf, (canMove_iff hs _ _).mp hcan⟩
      · rw [Shape.move_node_usr, if_neg (by simp)]
        exact hfiles
    · refine ⟨some [], fs, ?_, rfl, hs, ?_, hfiles⟩
      · rintro w rfl rfl
        rw [hop]
        obtain ⟨htext, hdb, ⟨-, hstay⟩ | ⟨hcan', -⟩⟩ := mv_cases env tid hs hu hsg hdir
        · exact ⟨htext, hstay, hdb⟩
        · exact absurd hcan' hcan
      · rw [afterMv, if_neg]
        rintro ⟨-, hempty⟩
        exact hcan ((canMove_iff hs _ _).mpr hempty)

/-! ### The link -/

omit hplan hu hsg in
theorem link_fails (h : plan (symlinkOp fl r) ≠ none) :
    EndsAs plan env tid (link (fileDir fl r) (linkPath fl r)) fs db (-1) fs db := by
  obtain ⟨f, hf⟩ := Option.ne_none_iff_exists'.mp h
  have hsym : EndsAs plan env tid (sys (symlinkOp fl r)) fs db (some f.err) fs db :=
    .fails hf (fun _ => rfl) fun _ => rfl
  refine hsym.bind ?_
  rw [if_pos ⟨by simp, by simpa using f.err_ne⟩]
  exact EndsAs.pure _

omit hplan in
theorem link_works (h : plan (symlinkOp fl r) = none) (hfiles : fs.node (fl.usrRoot ++ [r.usr, FILES]) = some .dir) :
    EndsAs plan env tid (link (fileDir fl r) (linkPath fl r)) fs db 0
      (ensureLink fs (fl.usrRoot ++ [r.usr, FILES, r.fileSign]) (fl.filesDir ++ r.fileSign)) db := by
  have hlink := link_ensures env tid db (plain_files fl hu) hsg (fileDir_cStr fl hsg) (fileDir_ne_nil fl r) hfiles
  rw [← linkPath_text, List.append_assoc] at hlink
  refine hlink.planned ?_
  unfold link
  exact Prog.Uses.bind (Prog.Uses.lift h) fun _ => Prog.Uses.ite .pure .pure

end

/-- How a call ends that is about to link the file, on the disk `d` and with the tables `db`. -/
inductive LinkEnds (fl : Flags) (r : NetDiskRequest) (plan : Sys → Option Fault) (d : Disk) (db : DB) :
    Bool → Disk → DB → Prop
  | unlinked (h : plan (symlinkOp fl r) ≠ none) : LinkEnds fl r plan d db false d db
  | uncounted (h : plan (symlinkOp fl r) = none) (hq : QueryFails r plan db) :
      LinkEnds fl r plan d db false (d.link r.usr r.fileSign) db
  | counted (h : plan (symlinkOp fl r) = none) (hq : ¬ QueryFails r plan db) (db' : DB)
      (hrefs : ∀ s, db'.refs s = if s = r.fileSign then countUp (db.refs s) else db.refs s) :
      LinkEnds fl r plan d db true (d.link r.usr r.fileSign) db'

/-- How it ends when all parts are there. -/
inductive LastEnds (fl : Flags) (r : NetDiskRequest) (plan : Sys → Option Fault) (d : Disk) (db : DB) :
    Bool → Disk → DB → Prop
  | unlisted (h : plan (lsDirOp fl r) ≠ none) : LastEnds fl r plan d db true d db
  | listed (h : plan (lsDirOp fl r) = none) {res : Bool} {d' : Disk} {db' : DB}
      (hl : LinkEnds fl r plan (afterMv fl r plan d) db res d' db') : LastEnds fl r plan d db res d' db'

section
variable (hplan : FailurePlan fl r plan) (hu : Plain r.usr) (hsg : Plain r.fileSign)
  (hrow : Stmt.OneRow r.fileSign r.fileName) (response : NetDiskResponse)
include hplan hu hsg hrow

theorem publish_gives (hs : Shape fl fs) (hdir : fs.node (fl.usrRoot ++ [r.usr, TMP, r.fileSign]) = some .dir)
    (hfiles : fs.node (fl.usrRoot ++ [r.usr, FILES]) = some .dir) :
    GivesAs plan env tid fl (publish fl r response) fs db (LinkEnds fl r plan (afterMv fl r plan (Disk.of fl fs)) db) := by
  obtain ⟨text, fs1, hmv, htext, hs1, hdisk1, hfiles1⟩ : ∃ text fs',
      EndsAs plan env tid (shellOut (mvCmd fl r)) fs db text fs' db ∧ _ := mv_gives hplan hu hsg hs hdir hfiles
  rw [← hdisk1]
  unfold publish
  refine GivesAs.bind hmv ?_
  rw [if_neg (not_not.mpr htext)]
  by_cases hlink : plan (symlinkOp fl r) = none
  · have hworks : EndsAs plan env tid (link (fileDir fl r) (linkPath fl r)) fs1 db 0 _ db :=
      link_works hu hsg hlink hfiles1
    have hdisk2 := of_ensureLink hfiles1 r.fileSign (fl.filesDir ++ r.fileSign)
    have hs2 := shape_ensureLink hs1 r.usr r.fileSign
    by_cases hq : QueryFails r plan db
    · refine GivesAs.bind (hworks.bind (countLink_fails hplan hsg.litSafe hq)) ?_
      refine GivesAs.answer hs2 _ _ _ ?_
      rw [hdisk2]
      exact .uncounted hlink hq
    · refine GivesAs.bind (hworks.bind (countLink_works hplan hsg.litSafe hrow hq)) ?_
      refine GivesAs.answer hs2 _ _ _ ?_
      rw [hdisk2]
      exact .counted hlink hq _ (writeCmd_counts env hsg.litSafe hrow).2
  · have hfails : EndsAs plan env tid (link (fileDir fl r) (linkPath fl r)) fs1 db (-1) fs1 db := link_fails hlink
    refine GivesAs.bind (hfails.bind (EndsAs.pure _)) ?_
    exact GivesAs.answer hs1 _ _ _ (.unlinked hlink)

omit hplan hu hsg hrow in
theorem lsDir_fails (h : plan (lsDirOp fl r) ≠ none) :
    EndsAs plan env tid (allPartArrived (usrUploadDir fl r ++ r.fileSign) r.shard) fs db
      (shardSize r.shard = 0) fs db := by
  obtain ⟨f, hf⟩ := Option.ne_none_iff_exists'.mp h
  have hread : EndsAs plan env tid (sys (lsDirOp fl r)) fs db none fs db := .fails hf (fun _ => rfl) fun _ => rfl
  exact hread.bind (EndsAs.pure _)

theorem checkArrived_gives (hs : Shape fl fs) (hdir : fs.node (fl.usrRoot ++ [r.usr, TMP, r.fileSign]) = some .dir)
    (hfiles : fs.node (fl.usrRoot ++ [r.usr, FILES]) = some .dir)
    (hpart : (Disk.of fl fs).part r.usr r.fileSign r.partIndex.toNat ≠ none)
    (hlast : ((Disk.of fl fs).arrived r.usr r.fileSign).ncard = shardSize r.shard) :
    GivesAs plan env tid fl (checkArrived fl r response) fs db (LastEnds fl r plan (Disk.of fl fs) db) := by
  by_cases hls : plan (lsDirOp fl r) = none
  · have hends : Ends env tid _ fs db _ fs db := allPartArrived_spec hu hsg hs hdir r.shard
    have harrived := hends.planned (Prog.Uses.bind (Prog.Uses.bind (Prog.Uses.lift hls) fun names => by
      cases names <;> exact .pure) fun _ => .pure)
    obtain ⟨answer, res, fs', db', hends, hres, hs', hend⟩ :=
      publish_gives hplan hu hsg hrow response hs hdir hfiles
    refine GivesAs.bind harrived ?_
    rw [if_pos (by simp [hlast])]
    exact ⟨answer, res, fs', db', hends, hres, hs', .listed hls hend⟩
  · have hsize : shardSize r.shard ≠ 0 := by
      rw [← hlast, Disk.ncard_arrived hs, Finset.card_ne_zero]
      refine ⟨toString r.partIndex.toNat, (FileTree.mem_entries _ _ _).mpr fun hnone => hpart ?_⟩
      rw [List.append_assoc] at hnone
      simp only [List.cons_append, List.nil_append] at hnone
      simp only [Disk.of, fileAt, hnone]
    refine GivesAs.bind (lsDir_fails hls) ?_
    rw [if_neg (by simpa using hsize)]
    exact GivesAs.answer hs _ _ _ (.unlisted hls)

theorem checkSign_gives (hs : Shape fl fs) (hdir : fs.node (fl.usrRoot ++ [r.usr, TMP, r.fileSign]) = some .dir)
    (hfiles : fs.node (fl.usrRoot ++ [r.usr, FILES]) = some .dir) {c : Bytes}
    (hc : fs.node (partPath fl r) = some (.file c)) (hgood : Md5.hexDigest c = r.partSign)
    (hlast : ((Disk.of fl fs).arrived r.usr r.fileSign).ncard = shardSize r.shard) :
    GivesAs plan env tid fl (checkSign fl r response) fs db (LastEnds fl r plan (Disk.of fl fs) db) := by
  have hpart : (Disk.of fl fs).part r.usr r.fileSign r.partIndex.toNat ≠ none := by
    have hc' : fs.node (fl.usrRoot ++ [r.usr, TMP, r.fileSign, toString r.partIndex.toNat]) = some (.file c) := hc
    simp [Disk.of, fileAt, hc']
  refine GivesAs.bind ((md5Sum_part hu hsg hdir hc).planned (md5Sum_quiet hplan)) ?_
  simp only [hgood, ne_eq, not_true_eq_false, if_false]
  exact checkArrived_gives hplan hu hsg hrow response hs hdir hfiles hpart hlast

theorem uploadPart_gives (hs : Shape fl fs) (huser : fs.node (fl.usrRoot ++ [r.usr]) = some .dir)
    (hfiles : fs.node (fl.usrRoot ++ [r.usr, FILES]) = some .dir)
    (hgood : Md5.hexDigest ((Disk.of fl fs).content (Part.of r)) = r.partSign)
    (hlast : (((Disk.of fl fs).putPart (Part.of r)).arrived r.usr r.fileSign).ncard = shardSize r.shard) :
    GivesAs plan env tid fl (uploadPart fl r response) fs db
      (LastEnds fl r plan ((Disk.of fl fs).putPart (Part.of r)) db) := by
  refine uploadPart_steps response hu hsg hplan.asks GivesAs.steps hs huser hfiles ?_
  intro response fs' hs' hdisk hdir hfiles' hc
  rw [← hdisk] at hlast ⊢
  exact checkSign_gives hplan hu hsg hrow response hs' hdir hfiles' hc hgood hlast

/-- The request that brings the last part, from its first operation to its last. -/
theorem Do_gives {w : World} (hs : Shape fl w.fs) (h : Completes fl r plan w) :
    GivesAs plan env tid fl (Do fl r response) w.fs w.db
      (LastEnds fl r plan ((disk fl w).putPart (Part.of r)) w.db) := by
  obtain ⟨huser, hwritten, hgood, hlast⟩ := h
  unfold disk at *
  generalize w.fs = fs at *
  have huser : fs.node (fl.usrRoot ++ [r.usr]) = some .dir := by simpa [Disk.of] using huser
  have hmkdir := (mkdir_spec env tid w.db (plain_snoc fl.usr_plain hu) plain_FILES huser).planned (mkdir_quiet hplan _)
  rw [← usrFiles_text] at hmkdir
  have hs1 : Shape fl (ensureDir fs (fl.usrRoot ++ [r.usr] ++ [FILES])) := hs.ensureDir_usr fun _ => rfl
  have hdisk1 : Disk.of fl (ensureDir fs (fl.usrRoot ++ [r.usr] ++ [FILES])) = Disk.of fl fs :=
    Disk.of_ensureDir_files r.usr
  have hfiles := ensureDir_made (n := FILES) huser fun m hm =>
    hs.usr_entry [r.usr, FILES] m (by simpa using hm) (Or.inl rfl)
  have huser1 := (ensureDir_keeps (n := FILES) huser (q := fl.usrRoot ++ [r.usr]) (by simp [huser])).trans huser
  refine GivesAs.bind hmkdir ?_
  rw [if_neg (by simp)]
  rw [← hdisk1] at hwritten hgood hlast ⊢
  generalize ensureDir fs (fl.usrRoot ++ [r.usr] ++ [FILES]) = fs1 at *
  rw [List.append_assoc, List.singleton_append] at hfiles
  have hexist : EndsAs plan env tid (existDir (fileDir fl r)) fs1 w.db false fs1 w.db := by
    by_cases hplanned : plan (existDirOp fl r) = none
    · have hstored := hwritten.resolve_right (not_not.mpr hplanned)
      have hspec := existDir_spec env tid w.db fl.files_plain hsg hs1.files_root fun target hl => by
        have := hs1.store_entry _ _ hl
        simp [storeEntry] at this
      have hfalse : decide (fs1.node (fl.filesRoot ++ [r.fileSign]) = some .dir) = false := hstored
      rw [hfalse] at hspec
      exact hspec.planned (Prog.Uses.lift hplanned)
    · obtain ⟨f, hf⟩ := Option.ne_none_iff_exists'.mp hplanned
      exact .fails hf (fun _ => rfl) fun _ => rfl
  refine GivesAs.bind hexist ?_
  rw [if_neg (by simp)]
  exact uploadPart_gives hplan hu hsg hrow response hs1 huser1 hfiles hgood hlast

end

/-! ## When the answer is true -/

/-- Nothing that fails makes a difference: with no listing, the file is stored, linked and counted already; with one,
the link is not made, or it leads to the parts of the request, or it is not counted and leads to some file. -/
def Sound (fl : Flags) (r : NetDiskRequest) (plan : Sys → Option Fault) (w : World) : Prop :=
  let old := (disk fl w).stored r.fileSign = true
  let same := old ∧ (disk fl w).store r.fileSign = partsAfter fl r w
  let linked := (disk fl w).linked r.usr r.fileSign = true
  if plan (lsDirOp fl r) = none then
    plan (symlinkOp fl r) ≠ none ∨ Moves fl r plan (disk fl w) ∨ same ∨ QueryFails r plan w.db ∧ (linked ∨ old)
  else same ∧ linked ∧ w.db.refs r.fileSign ≠ none

section
variable {d : Disk} {res : Bool} {d' : Disk} {db' : DB} {w w' : World} {response : NetDiskResponse}

theorem stored_afterMv (s : Name) : (afterMv fl r plan d).stored s = true ↔
    d.stored s = true ∨ Moves fl r plan d ∧ s = r.fileSign := by
  unfold afterMv
  split <;> rename_i h <;> simp [Disk.publish, h, or_comm]

theorem linked_afterMv (u s : Name) : (afterMv fl r plan d).linked u s = d.linked u s := by
  unfold afterMv
  split <;> rfl

theorem linked_link (u s : Name) : (d.link r.usr r.fileSign).linked u s = true ↔
    u = r.usr ∧ s = r.fileSign ∨ d.linked u s = true := by
  simp [Disk.link]

/-- The published file, read off the disk and the tables. -/
theorem published_iff (parts : Nat → Option Bytes) (hs : Shape fl w'.fs) : Published fl r parts w' ↔
    (disk fl w').stored r.fileSign = true ∧ (disk fl w').store r.fileSign = parts ∧
      (disk fl w').linked r.usr r.fileSign = true ∧ w'.db.refs r.fileSign ≠ none := by
  constructor
  · rintro ⟨hst, hparts, hlink, hrow⟩
    exact ⟨hst, hparts, by simp [disk, Disk.of, hlink], hrow⟩
  · rintro ⟨hst, hparts, hlinked, hrow⟩
    refine ⟨hst, hparts, ?_, hrow⟩
    have hsome : w'.fs.node (fl.usrRoot ++ [r.usr, FILES, r.fileSign]) ≠ none := by
      simpa [disk, Disk.of] using hlinked
    obtain ⟨n, hn⟩ := Option.ne_none_iff_exists'.mp hsome
    rw [hn, (hs.usr_entry _ _ hn).1 rfl]

theorem truthful_unlisted (hs : Shape fl w'.fs) (hres : response.res = some true)
    (hdisk : disk fl w' = (disk fl w).putPart (Part.of r)) (hdb : w'.db = w.db) :
    Truthful fl r w response w' ↔
      ((disk fl w).stored r.fileSign = true ∧ (disk fl w).store r.fileSign = partsAfter fl r w) ∧
        (disk fl w).linked r.usr r.fileSign = true ∧ w.db.refs r.fileSign ≠ none := by
  have hpub := published_iff (r := r) (partsAfter fl r w) hs
  rw [hdisk, hdb] at hpub
  constructor
  · intro h
    obtain ⟨hst, hparts, hlinked, hrow⟩ := hpub.mp (h.success hres)
    exact ⟨⟨hst, hparts⟩, hlinked, hrow⟩
  · rintro ⟨⟨hst, hparts⟩, hlinked, hrow⟩
    refine ⟨fun _ => hpub.mpr ⟨hst, hparts, hlinked, hrow⟩, fun u s hno hyes => ?_, fun s hno hyes => ?_⟩
    · rw [hdisk] at hyes
      exact absurd (hno.symm.trans hyes) (by simp)
    · rw [hdb] at hyes
      exact absurd hno hyes

theorem store_afterMv : ((afterMv fl r plan d).stored r.fileSign = true ∧
    (afterMv fl r plan d).store r.fileSign = d.part r.usr r.fileSign) ↔
      Moves fl r plan d ∨ d.stored r.fileSign = true ∧ d.store r.fileSign = d.part r.usr r.fileSign := by
  by_cases h : Moves fl r plan d
  · simp [afterMv, Disk.publish, h]
  · simp [afterMv, h]

theorem truthful_uncounted (hres : response.res = some false)
    (hdisk : disk fl w' = (afterMv fl r plan d).link r.usr r.fileSign) (hdb : w'.db = w.db)
    (hd : d = (disk fl w).putPart (Part.of r)) :
    Truthful fl r w response w' ↔ Moves fl r plan d ∨ (disk fl w).linked r.usr r.fileSign = true ∨
      (disk fl w).stored r.fileSign = true := by
  have hold : d.stored r.fileSign = (disk fl w).stored r.fileSign := by rw [hd]; rfl
  have hlinked : d.linked r.usr r.fileSign = (disk fl w).linked r.usr r.fileSign := by rw [hd]; rfl
  have hst : (disk fl w').stored r.fileSign = true ↔ (disk fl w).stored r.fileSign = true ∨ Moves fl r plan d := by
    rw [hdisk, ← hold]
    exact (stored_afterMv r.fileSign).trans (by simp)
  constructor
  · intro h
    by_cases hl : (disk fl w).linked r.usr r.fileSign = true
    · exact Or.inr (Or.inl hl)
    · have := hst.mp (h.links r.usr r.fileSign (Bool.not_eq_true _ ▸ hl) (by rw [hdisk]; simp [Disk.link]))
      exact this.elim (fun h => Or.inr (Or.inr h)) Or.inl
  · intro h
    refine ⟨fun hsuccess => ?_, fun u s hno hyes => ?_, fun s hno hyes => ?_⟩
    · rw [hres] at hsuccess
      cases hsuccess
    · rw [hdisk, linked_link, linked_afterMv] at hyes
      rcases hyes with ⟨rfl, rfl⟩ | hyes
      · rcases h with h | h | h
        · exact hst.mpr (Or.inr h)
        · rw [hno] at h
          cases h
        · exact hst.mpr (Or.inl h)
      · rw [hd] at hyes
        exact absurd (hno.symm.trans hyes) (by simp)
    · rw [hdb] at hyes
      exact absurd hno hyes

theorem truthful_counted (hs : Shape fl w'.fs) (hres : response.res = some true)
    (hdisk : disk fl w' = (afterMv fl r plan d).link r.usr r.fileSign)
    (hrefs : ∀ s, w'.db.refs s = if s = r.fileSign then countUp (w.db.refs s) else w.db.refs s)
    (hd : d = (disk fl w).putPart (Part.of r)) :
    Truthful fl r w response w' ↔ Moves fl r plan d ∨
      (disk fl w).stored r.fileSign = true ∧ (disk fl w).store r.fileSign = partsAfter fl r w := by
  have hparts : partsAfter fl r w = d.part r.usr r.fileSign := by rw [hd]; rfl
  have hold : d.stored r.fileSign = (disk fl w).stored r.fileSign := by rw [hd]; rfl
  have hstore : d.store r.fileSign = (disk fl w).store r.fileSign := by rw [hd]; rfl
  have hst : ((disk fl w').stored r.fileSign = true ∧ (disk fl w').store r.fileSign = partsAfter fl r w) ↔
      Moves fl r plan d ∨ (disk fl w).stored r.fileSign = true ∧ (disk fl w).store r.fileSign = partsAfter fl r w := by
    rw [hdisk, hparts, ← hold, ← hstore]
    exact store_afterMv
  have hrow : w'.db.refs r.fileSign ≠ none := by
    rw [hrefs, if_pos rfl]
    exact countUp_ne_none _
  have hpub := published_iff (r := r) (partsAfter fl r w) hs
  have hlink : (disk fl w').linked r.usr r.fileSign = true := by
    rw [hdisk]
    simp [Disk.link]
  rw [← hst]
  constructor
  · intro h
    obtain ⟨hstored, hsame, -⟩ := hpub.mp (h.success hres)
    exact ⟨hstored, hsame⟩
  · rintro ⟨hstored, hsame⟩
    refine ⟨fun _ => hpub.mpr ⟨hstored, hsame, hlink, hrow⟩, fun u s hno hyes => ?_, fun s hno hyes => ?_⟩
    · rw [hdisk, linked_link, linked_afterMv] at hyes
      rcases hyes with ⟨-, rfl⟩ | hyes
      · exact hstored
      · rw [hd] at hyes
        exact absurd (hno.symm.trans hyes) (by simp)
    · rw [hrefs] at hyes
      split at hyes
      · rename_i hsign
        rw [hsign]
        exact hstored
      · exact absurd hno hyes

theorem truthful_unlinked (hres : response.res = some false) (hdisk : disk fl w' = afterMv fl r plan d)
    (hdb : w'.db = w.db) (hd : d = (disk fl w).putPart (Part.of r)) : Truthful fl r w response w' := by
  refine ⟨fun hsuccess => ?_, fun u s hno hyes => ?_, fun s hno hyes => ?_⟩
  · rw [hres] at hsuccess
    cases hsuccess
  · rw [hdisk, linked_afterMv, hd] at hyes
    exact absurd (hno.symm.trans hyes) (by simp)
  · rw [hdb] at hyes
    exact absurd hno hyes

theorem moves_putPart : Moves fl r plan (d.putPart (Part.of r)) ↔ Moves fl r plan d := Iff.rfl

variable (env tid) in
/-- Whatever fails, the answer to the request that completes a file is truthful exactly when nothing that fails makes
a difference. -/
theorem truthful_iff (hplan : FailurePlan fl r plan) (hs : Shape fl w.fs) (hr : PlainNames r)
    (hrow : Stmt.OneRow r.fileSign r.fileName) (h : Completes fl r plan w) :
    Truthful fl r w ((Do fl r .empty).run (planned plan env tid) w).1 ((Do fl r .empty).run (planned plan env tid) w).2 ↔
      Sound fl r plan w := by
  have hgives : GivesAs plan env tid fl (Do fl r .empty) w.fs w.db _ := Do_gives hplan hr.1 hr.2 hrow .empty hs h
  obtain ⟨response, res, fs', db', hends, hres, hs', hend⟩ := hgives
  obtain ⟨hanswer, hfs, hdb⟩ := hends w rfl rfl
  rw [hanswer]
  generalize ((Do fl r .empty).run (planned plan env tid) w).2 = w' at *
  subst hfs
  unfold Sound
  generalize hdisk : Disk.of fl w'.fs = d' at hend
  cases hend with
  | unlisted hls =>
    rw [if_neg hls]
    exact truthful_unlisted hs' hres hdisk hdb
  | listed hls hl =>
    rw [if_pos hls]
    cases hl with
    | unlinked hlink =>
      exact iff_of_true (truthful_unlinked hres hdisk hdb rfl) (Or.inl hlink)
    | uncounted hlink hq =>
      rw [truthful_uncounted hres hdisk hdb rfl, moves_putPart]
      simp only [hlink, ne_eq, not_true_eq_false, false_or, hq, true_and]
      tauto
    | counted hlink hq db' hrefs =>
      rw [truthful_counted hs' hres hdisk (hdb ▸ hrefs) rfl, moves_putPart]
      simp only [hlink, ne_eq, not_true_eq_false, false_or, hq, false_and, or_false]

end

end

/-! ### An `mv` that fails -/

namespace MvFails

open OnePart (request)

def plan : Sys → Option Fault := fun op =>
  if op = mvOp .short request then some ⟨.eio, eio_ne_eexist, 0, some [], false⟩ else none

theorem plan_eq_some {op : Sys} {f : Fault} (h : plan op = some f) :
    op = mvOp .short request ∧ f.text = some [] ∧ f.done = false := by
  unfold plan at h
  split at h
  · rename_i hop
    rw [← Option.some.inj h]
    exact ⟨hop, rfl, rfl⟩
  · cases h

theorem failurePlan : FailurePlan .short request plan where
  only op f hf := by
    rw [(plan_eq_some hf).1]
    exact rfl
  mv f hf := by
    obtain ⟨-, htext, hdone⟩ := plan_eq_some hf
    exact ⟨by rw [htext]; rfl, hdone⟩

theorem completes : Completes .short request plan TwoParts.world where
  user := by decide
  written := Or.inl (by decide)
  good := by decide +kernel
  last := by
    rw [Disk.ncard_of_arrived (n := 1)]
    · decide
    · intro i
      have hempty : (disk .short TwoParts.world).part request.usr request.fileSign i = none :=
        (EmptyDirs.start _ _).part_none _ _ _
      have hpart := Disk.putPart_arrived (d := disk .short TwoParts.world) (r := Part.of request) (i := i)
      exact hpart.trans ((or_iff_left (not_not.mpr hempty)).trans Nat.lt_one_iff.symm)

end MvFails

theorem truthful_mv_fails :
    Truthful .short OnePart.request TwoParts.world
        ((Do .short OnePart.request .empty).run (planned MvFails.plan .bare 0) TwoParts.world).1
        ((Do .short OnePart.request .empty).run (planned MvFails.plan .bare 0) TwoParts.world).2 ↔
      Sound .short OnePart.request MvFails.plan TwoParts.world :=
  truthful_iff .bare 0 MvFails.failurePlan (EmptyDirs.start _ _).shape (OnePart.names _ List.mem_cons_self).1
    (OnePart.names _ List.mem_cons_self).2 MvFails.completes

/-- The answer is a success; the link leads nowhere, and there is a row for a file that is not stored. -/
theorem mv_fails_answers_true : ¬ Truthful .short OnePart.request TwoParts.world
    ((Do .short OnePart.request .empty).run (planned MvFails.plan .bare 0) TwoParts.world).1
    ((Do .short OnePart.request .empty).run (planned MvFails.plan .bare 0) TwoParts.world).2 := by
  intro h
  have hpublished := h.success (by decide +kernel)
  exact absurd hpublished.stored (by decide +kernel)

end NetDisk
