import NetDisk.Clear
import NetDisk.Registered
import NetDisk.Registrants
import NetDisk.Services.Effect

/-!
# What the calls ask for

Each operation of an upload or of a registration, and what it does to the files and to the tables, however it goes.
-/

namespace NetDisk.Services

open Machine UploadRpc RegisterView Registered Server

section
variable (env : Env) (fl : Flags)

/-- The path of an entry, whatever is there. -/
def LeadsTo (text : Bytes) (p : Path) : Prop :=
  ∀ fs, Shape fl fs → locate env fs text = .ok p ∨ ∃ e, locate env fs text = .error e ∧ e ≠ .eexist

/-- The path of what is there, or could be. -/
def Finds (text : Bytes) (p : Path) : Prop :=
  ∀ fs, Shape fl fs → resolve env fs text = .ok p ∨ ∃ e, resolve env fs text = .error e

section
variable {fl} {r : NetDiskRequest} (hu : Plain r.usr) (hsg : Plain r.fileSign)

theorem LeadsTo.of_clear {p : Path} {n : Name} (hp : ∀ m ∈ p, Plain m) (hn : Plain n)
    (hl : ∀ fs, Shape fl fs → NoLinks fs p) : LeadsTo env fl (dirText p ++ n) (p ++ [n]) := by
  intro fs hs
  by_cases hd : fs.node p = some .dir
  · exact Or.inl (locate_name hp hn hd)
  · exact Or.inr (NetDisk.locate_off env hp hn (hl fs hs) hd)

theorem noLinks_above {p : Path} (hp : p <+: partPath fl r) (fs : FS) (hs : Shape fl fs) : NoLinks fs p :=
  fun q hq => hs.noLinks_part r q (hq.trans hp)

theorem LeadsTo.home {usr : Name} (hu : Single usr) : LeadsTo env fl (dirText fl.usrRoot ++ usr) (fl.usrRoot ++ [usr]) :=
  fun _ hs => Or.inl (locate_single fl.usr_plain hu hs.usr_root)

include hu in
theorem LeadsTo.files : LeadsTo env fl (dirText (fl.usrRoot ++ [r.usr]) ++ FILES) (fl.usrRoot ++ [r.usr, FILES]) := by
  have h := of_clear env (plain_snoc fl.usr_plain hu) plain_FILES (noLinks_above own_prefix_part)
  rwa [List.append_assoc] at h

include hu in
theorem LeadsTo.tmp : LeadsTo env fl (dirText (fl.usrRoot ++ [r.usr] ++ [TMP])) (fl.usrRoot ++ [r.usr, TMP]) := by
  intro fs hs
  have h := of_clear env (plain_snoc fl.usr_plain hu) plain_TMP (noLinks_above own_prefix_part) fs hs
  rw [locate_dirText env fs _ _ (plain_snoc fl.usr_plain hu) plain_TMP]
  rwa [List.append_assoc] at h

include hu hsg

theorem LeadsTo.signDir :
    LeadsTo env fl (dirText (fl.usrRoot ++ [r.usr, TMP]) ++ r.fileSign) (fl.usrRoot ++ [r.usr, TMP, r.fileSign]) := by
  have hpre : fl.usrRoot ++ [r.usr, TMP] <+: partPath fl r :=
    ⟨[r.fileSign, toString r.partIndex.toNat], by simp [partPath]⟩
  have h := of_clear env (plain_tmp fl hu) hsg (noLinks_above hpre)
  rwa [List.append_assoc] at h

theorem LeadsTo.sign :
    LeadsTo env fl (dirText (fl.usrRoot ++ [r.usr, TMP] ++ [r.fileSign])) (fl.usrRoot ++ [r.usr, TMP, r.fileSign]) := by
  intro fs hs
  rw [locate_dirText env fs _ _ (plain_tmp fl hu) hsg]
  exact LeadsTo.signDir env hu hsg fs hs

theorem LeadsTo.link :
    LeadsTo env fl (dirText (fl.usrRoot ++ [r.usr, FILES]) ++ r.fileSign) (fl.usrRoot ++ [r.usr, FILES, r.fileSign]) := by
  have h := of_clear env (plain_files fl hu) hsg fun fs hs => hs.noLinks_files r.usr
  rwa [List.append_assoc] at h

theorem LeadsTo.part : LeadsTo env fl (cStr (filePath fl r)) (partPath fl r) := by
  have hplain := plain_signDir fl hu hsg
  rw [filePath_text, FileSys.cStr_name hplain (plain_toString _), partPath_eq]
  exact of_clear env hplain (plain_toString _) (noLinks_above (partPath_eq fl r ▸ List.prefix_append _ _))

theorem Finds.part : Finds env fl (cStr (filePath fl r)) (partPath fl r) := by
  intro fs hs
  have hplain := plain_signDir fl hu hsg
  rw [filePath_text, FileSys.cStr_name hplain (plain_toString _), partPath_eq]
  exact resolve_clear env hplain (plain_toString _) (partPath_eq fl r ▸ hs.noLinks_part r)

end

/-- The operation changes neither the files nor the tables; it may close a file. -/
def Harmless : Sys → Prop
  | .opendir _ | .access _ | .readdir _ | .close _ | .fetch | .lock | .unlock | .send _ _ => True
  | _ => False

/-- What an upload or a registration may ask for. -/
inductive Asks (works : Prop) (w : World) : Actor → Sys → Prop
  | harmless {a : Actor} {op : Sys} (h : Harmless op) : Asks works w a op
  | home {r : NetDiskRequest} {text : Bytes} (hloc : LeadsTo env fl text (fl.usrRoot ++ [r.usr]))
      (hdir : w.fs.node (fl.usrRoot ++ [r.usr]) = some .dir) : Asks works w (.upload r) (.mkdir text)
  | dir {r : NetDiskRequest} {text : Bytes} {q : Path} (hq : q ∈ [[r.usr, FILES], [r.usr, TMP], [r.usr, TMP, r.fileSign]])
      (hloc : LeadsTo env fl text (fl.usrRoot ++ q)) : Asks works w (.upload r) (.mkdir text)
  | openFile {r : NetDiskRequest} {text : Bytes} (hfinds : Finds env fl text (partPath fl r)) :
      Asks works w (.upload r) (.openFile text)
  | write {r : NetDiskRequest} {fd : Nat} {buf : Bytes} (hopen : Opened fl r fd (filesOf w)) (hbuf : ∀ b ∈ buf, b ∈ r.body) :
      Asks works w (.upload r) (.write fd buf)
  | remove {r : NetDiskRequest} {text : Bytes} (hloc : LeadsTo env fl text (partPath fl r)) :
      Asks works w (.upload r) (.remove text)
  | link {r : NetDiskRequest} {text : Bytes} (hloc : LeadsTo env fl text (fl.usrRoot ++ [r.usr, FILES, r.fileSign]))
      (hstored : works → w.fs.node (fl.filesRoot ++ [r.fileSign]) = some .dir) :
      Asks works w (.upload r) (.symlink (fl.filesDir ++ r.fileSign) text)
  | md5sum (r : NetDiskRequest) : Asks works w (.upload r) (.shell (cStr (ascii "md5sum " ++ filePath fl r)))
  | mv (r : NetDiskRequest) : Asks works w (.upload r) (.shell (mvCmd fl r))
  | count {r : NetDiskRequest} {cmd : Bytes} (hcmd : cmd = selectSignCmd r.fileSign ∨ cmd = updateSignCmd r.fileSign ∨
      cmd = insertSignCmd r.fileSign r.fileName) : Asks works w (.upload r) (.query cmd)
  | user {usr : Name} {text : Bytes} (hloc : LeadsTo env fl text (fl.usrRoot ++ [usr]))
      (hrow : usr ∈ w.db.usr.map UsrRow.name) : Asks works w (.register usr) (.mkdir text)
  | row {usr : Name} {cmd : Bytes} (hcmd : cmd = usrNotExistCmd usr ∨
      ∃ passwd, SqlText.litSafe passwd = true ∧ cmd = insertUsrCmd usr passwd) : Asks works w (.register usr) (.query cmd)

/-- The names are components of paths, or stand for themselves in a statement. -/
def Actor.Clean : Actor → Prop
  | .upload r => PlainNames r
  | .register usr => SqlText.litSafe usr = true

/-- The users with a row. -/
def HasRow (db : DB) (usr : Name) : Prop := usr ∈ db.usr.map UsrRow.name

end

/-! ## The files -/

section
variable {env : Env} {fl : Flags} {works : Prop} {w : World} {a : Actor} {tid : Nat}

variable (tid) in
theorem mkdir_files {text : Bytes} {p : Path} (hs : Shape fl w.fs) (hloc : LeadsTo env fl text p) :
    filesOf (exec env tid (.mkdir text) w).2 = filesOf w ∨
      ∃ h, w.fs.node p = none ∧ filesOf (exec env tid (.mkdir text) w).2 = { filesOf w with fs := w.fs.put p .dir h } := by
  simp only [exec, Machine.mkdir]
  rcases hloc w.fs hs with h | ⟨e, h, -⟩
  · rw [h]
    dsimp only
    split
    · rename_i hcan
      exact Or.inr ⟨hcan.1, hcan.2, rfl⟩
    · exact Or.inl rfl
  · rw [h]
    exact Or.inl rfl

theorem mkdir_made {text : Bytes} {p : Path} (hs : Shape fl w.fs) (hloc : LeadsTo env fl text p)
    (hmade : (exec env tid (.mkdir text) w).1 = none ∨ (exec env tid (.mkdir text) w).1 = some .eexist) :
    (exec env tid (.mkdir text) w).2.fs.node p ≠ none := by
  simp only [exec, Machine.mkdir] at hmade ⊢
  rcases hloc w.fs hs with h | ⟨e, h, hne⟩
  · rw [h]
    dsimp only
    by_cases hnone : w.fs.node p = none
    · rw [dif_pos ⟨canPut_of_locate h (by simp [hnone]), hnone⟩]
      simp
    · rw [dif_neg fun h => hnone h.2]
      exact hnone
  · rw [h] at hmade
    simp [hne] at hmade

variable (env) in
theorem mv_target (hs : Shape fl w.fs) {r : NetDiskRequest}
    (hdir : w.fs.node (fl.usrRoot ++ [r.usr, TMP, r.fileSign]) = some .dir) :
    mvTarget env w.fs (fl.usrRoot ++ [r.usr, TMP, r.fileSign]) fl.filesDir = .ok (fl.filesRoot ++ [r.fileSign]) ∧
      mvReplaces w.fs (fl.usrRoot ++ [r.usr, TMP, r.fileSign]) (fl.filesRoot ++ [r.fileSign]) := by
  constructor
  · have hstore : isDir env w.fs fl.filesDir = some fl.filesRoot := by
      simp only [isDir, Flags.filesDir, resolve_dir fl.files_plain hs.files_root, hs.files_root, if_true]
    have hlast : (fl.usrRoot ++ [r.usr, TMP, r.fileSign]).getLast? = some r.fileSign := by simp
    simp only [mvTarget, hstore, hlast]
  · cases hnode : w.fs.node (fl.filesRoot ++ [r.fileSign]) with
    | none => exact Or.inl hnode
    | some n =>
      rw [hs.store_entry _ _ hnode] at hnode
      exact Or.inr (iff_of_true hdir hnode)

variable (env tid) in
theorem mv_files (hs : Shape fl w.fs) {r : NetDiskRequest} (hr : PlainNames r) :
    filesOf (exec env tid (.shell (mvCmd fl r)) w).2 = filesOf w ∧
        (Placed fl r (filesOf w) → w.fs.node (fl.filesRoot ++ [r.fileSign]) = some .dir) ∨
      ∃ h, w.fs.node (fl.usrRoot ++ [r.usr, TMP, r.fileSign]) = some .dir ∧
        filesOf (exec env tid (.shell (mvCmd fl r)) w).2 =
          (filesOf w).move (fl.usrRoot ++ [r.usr, TMP, r.fileSign]) (fl.filesRoot ++ [r.fileSign]) h := by
  obtain ⟨hu, hsg⟩ := hr
  have hrun : (exec env tid (.shell (mvCmd fl r)) w).2 =
      mv env w (dirText (fl.usrRoot ++ [r.usr, TMP]) ++ r.fileSign) fl.filesDir := by
    simp only [exec, Machine.shell, (mvCmd_words fl hu hsg).2, if_true]
  rw [hrun]
  unfold mv mvPaths
  rcases LeadsTo.signDir env hu hsg w.fs hs with hsrc | ⟨e, hsrc, -⟩
  · rw [hsrc]
    dsimp only
    cases hnode : w.fs.node (fl.usrRoot ++ [r.usr, TMP, r.fileSign]) with
    | none =>
      rw [if_pos rfl]
      refine Or.inl ⟨rfl, fun hplaced => hplaced.resolve_left ?_⟩
      exact fun hdir => by cases hnode.symm.trans hdir
    | some n =>
      obtain rfl := (hs.usr_entry _ _ hnode).2 rfl
      obtain ⟨htarget, hrep⟩ := mv_target env hs hnode
      rw [if_neg (by simp), htarget]
      dsimp only
      rw [if_pos hrep]
      dsimp only
      by_cases hcan : w.fs.CanMove (fl.usrRoot ++ [r.usr, TMP, r.fileSign]) (fl.filesRoot ++ [r.fileSign])
      · rw [dif_pos hcan]
        exact Or.inr ⟨hcan, rfl, rfl⟩
      · rw [dif_neg hcan]
        refine Or.inl ⟨rfl, fun _ => ?_⟩
        obtain ⟨n, hn⟩ := Option.ne_none_iff_exists'.mp fun hnone => hcan (hs.canMove hnone)
        rw [hn, hs.store_entry [r.fileSign] n hn]
  · rw [hsrc]
    refine Or.inl ⟨rfl, fun hplaced => hplaced.resolve_left fun hdir => ?_⟩
    have htmp := w.fs.dir_above (fl.usrRoot ++ [r.usr, TMP]) [r.fileSign] (by simp) (by
      rw [List.append_assoc]
      exact fun hnone => by cases hnone.symm.trans hdir)
    rw [locate_name (plain_tmp fl hu) hsg htmp] at hsrc
    cases hsrc

theorem harmless_files {op : Sys} (h : Harmless op) :
    Effect fl (HasRow w.db) works (filesOf w) a (filesOf (exec env tid op w).2) := by
  cases op with
  | close fd => exact .close fd
  | opendir path => exact .keep
  | access path => exact .keep
  | readdir path => exact .keep
  | fetch => exact .keep
  | lock => exact .keep
  | unlock => exact .keep
  | send fd msg => exact .keep
  | _ => exact absurd h not_false

theorem query_files (cmd : Bytes) : filesOf (exec env tid (.query cmd) w).2 = filesOf w := by
  simp only [exec]
  split <;> rfl

theorem md5sum_files {r : NetDiskRequest} (hr : PlainNames r) :
    (exec env tid (.shell (cStr (ascii "md5sum " ++ filePath fl r))) w).2 = w := by
  rw [filePath_text]
  simp only [exec, FileSys.md5Cmd_words (plain_signDir fl hr.1 hr.2) (plain_toString _), Machine.shell, if_true]

theorem openFile_files (hs : Shape fl w.fs) {r : NetDiskRequest} {text : Bytes}
    (hfinds : Finds env fl text (partPath fl r)) :
    Effect fl (HasRow w.db) works (filesOf w) (.upload r) (filesOf (exec env tid (.openFile text) w).2) := by
  simp only [exec, Machine.openFile]
  rcases hfinds w.fs hs with h | ⟨e, h⟩
  · rw [h]
    cases hnode : w.fs.node (partPath fl r) with
    | none =>
      by_cases hcan : w.fs.CanPut (partPath fl r)
      · simp only [hnode, dif_pos hcan]
        exact .create hcan hnode
      · simp only [hnode, dif_neg hcan]
        exact .keep
    | some n =>
      obtain ⟨c, k, rfl, -⟩ := hs.usr_entry _ _ hnode rfl
      simp only [hnode]
      exact .opened hnode
  · simp only [h]
    exact .keep

theorem write_files {r : NetDiskRequest} {fd : Nat} {buf : Bytes} (hopen : Opened fl r fd (filesOf w))
    (hbuf : ∀ b ∈ buf, b ∈ r.body) :
    Effect fl (HasRow w.db) works (filesOf w) (.upload r) (filesOf (exec env tid (.write fd buf) w).2) := by
  simp only [exec]
  cases hf : w.fds fd with
  | none => exact .keep
  | some f => exact .write hf hopen hbuf

theorem remove_files (hs : Shape fl w.fs) {r : NetDiskRequest} {text : Bytes} (hloc : LeadsTo env fl text (partPath fl r)) :
    Effect fl (HasRow w.db) works (filesOf w) (.upload r) (filesOf (exec env tid (.remove text) w).2) := by
  simp only [exec, Machine.remove]
  rcases hloc w.fs hs with h | ⟨e, h, -⟩
  · rw [h]
    dsimp only
    split_ifs with hnone hcan
    · exact .keep
    · exact .gone hcan
    · exact .keep
  · rw [h]
    exact .keep

theorem symlink_files (hs : Shape fl w.fs) {r : NetDiskRequest} {text : Bytes}
    (hloc : LeadsTo env fl text (fl.usrRoot ++ [r.usr, FILES, r.fileSign]))
    (hstored : works → w.fs.node (fl.filesRoot ++ [r.fileSign]) = some .dir) :
    Effect fl (HasRow w.db) works (filesOf w) (.upload r)
      (filesOf (exec env tid (.symlink (fl.filesDir ++ r.fileSign) text) w).2) := by
  simp only [exec, Machine.symlink]
  rw [if_neg (by simp [Flags.filesDir, dirText])]
  rcases hloc w.fs hs with h | ⟨e, h, -⟩
  · rw [h]
    dsimp only
    split_ifs with hcan hslash
    · exact .link hcan.1 hcan.2 hstored
    · exact .keep
    · exact .keep
  · rw [h]
    exact .keep

theorem Asks.effect_exec (hs : Shape fl w.fs) (ha : a.Clean) {op : Sys} (h : Asks env fl works w a op) :
    Effect fl (HasRow w.db) works (filesOf w) a (filesOf (exec env tid op w).2) := by
  cases h with
  | harmless h => exact harmless_files h
  | home hloc hdir =>
    rcases mkdir_files tid hs hloc with h | ⟨hcan, hnone, -⟩
    · rw [h]
      exact .keep
    · cases hnone.symm.trans hdir
  | dir hq hloc =>
    rcases mkdir_files tid hs hloc with h | ⟨hcan, hnone, h⟩
    · rw [h]
      exact .keep
    · rw [h]
      exact .dir hq hcan hnone
  | openFile hfinds => exact openFile_files hs hfinds
  | write hopen hbuf => exact write_files hopen hbuf
  | remove hloc => exact remove_files hs hloc
  | link hloc hstored => exact symlink_files hs hloc hstored
  | md5sum r =>
    rw [md5sum_files ha]
    exact .keep
  | mv r =>
    rcases mv_files env tid hs ha with ⟨h, -⟩ | ⟨hcan, hdir, h⟩
    · rw [h]
      exact .keep
    · rw [h]
      exact .move hdir hcan
  | count hcmd =>
    rw [query_files]
    exact .keep
  | user hloc hrow =>
    rcases mkdir_files tid hs hloc with h | ⟨hcan, hnone, h⟩
    · rw [h]
      exact .keep
    · rw [h]
      exact .user hrow hcan hnone
  | row hcmd =>
    rw [query_files]
    exact .keep

theorem Asks.effect_failed (hs : Shape fl w.fs) (ha : a.Clean) {op : Sys} (h : Asks env fl works w a op) (f : Fault) :
    Effect fl (HasRow w.db) works (filesOf w) a (filesOf (failed f env tid op w).2) := by
  have hshell : ∀ cmd, Asks env fl works w a (.shell cmd) →
      Effect fl (HasRow w.db) works (filesOf w) a (filesOf (Machine.failed f env tid (.shell cmd) w).2) := by
    intro cmd h
    simp only [Machine.failed]
    split
    · exact h.effect_exec hs ha
    · exact .keep
  cases h with
  | @harmless a op h =>
    have hexec : Effect fl (HasRow w.db) works (filesOf w) a (filesOf (Machine.exec env tid op w).2) := harmless_files h
    cases op with
    | close fd => exact hexec
    | fetch => exact hexec
    | lock => exact hexec
    | unlock => exact hexec
    | send fd msg => exact hexec
    | opendir path => exact .keep
    | access path => exact .keep
    | readdir path => exact .keep
    | _ => exact absurd h not_false
  | write hopen hbuf => exact write_files hopen fun b hb => hbuf b (List.mem_of_mem_take hb)
  | md5sum r => exact hshell _ (.md5sum r)
  | mv r => exact hshell _ (.mv r)
  | _ => exact .keep

variable (tid) in
theorem Asks.effect (can : Sys → Bool) {s : Faulty} (hs : Shape fl s.world.fs) (ha : a.Clean) {op : Sys}
    (h : Asks env fl works s.world a op) :
    Effect fl (HasRow s.world.db) works (filesOf s.world) a (filesOf (faulty can env tid op s).2.world) :=
  faulty_spec (Q := fun _ w => Effect fl (HasRow s.world.db) works (filesOf s.world) a (filesOf w)) (h.effect_exec hs ha)
    fun _ f => h.effect_failed hs ha f

/-! ## The tables -/

theorem count_usr (hsql : LeavesUsr env) {r : NetDiskRequest} (hr : PlainNames r) {cmd : Bytes}
    (hcmd : cmd = selectSignCmd r.fileSign ∨ cmd = updateSignCmd r.fileSign ∨ cmd = insertSignCmd r.fileSign r.fileName) :
    (queryOutcome env w.db cmd).2.usr = w.db.usr := by
  rcases hcmd with rfl | rfl | rfl
  · unfold queryOutcome
    rw [sql_of_read (Stmt.read_selectSignCmd hr.2.litSafe)]
    rfl
  · unfold queryOutcome
    rw [sql_of_read (Stmt.read_updateSignCmd hr.2.litSafe)]
    rfl
  · exact insertSign_usr hsql w.db r.fileSign r.fileName

theorem query_db (cmd : Bytes) : (exec env tid (.query cmd) w).2.db = (queryOutcome env w.db cmd).2 := by
  simp only [exec, queryOutcome]
  cases sql env w.db cmd <;> rfl

theorem row_usr {usr : Name} (hu : SqlText.litSafe usr = true) {cmd : Bytes} (hcmd : cmd = usrNotExistCmd usr ∨
    ∃ passwd, SqlText.litSafe passwd = true ∧ cmd = insertUsrCmd usr passwd) :
    w.db.usr <+: (queryOutcome env w.db cmd).2.usr := by
  unfold queryOutcome
  rcases hcmd with rfl | ⟨passwd, hp, rfl⟩
  · rw [sql_of_read (Stmt.read_usrNotExistCmd hu)]
    exact List.prefix_rfl
  · rw [sql_of_read (Stmt.read_insertUsrCmd hu hp)]
    simp only [DB.exec]
    split_ifs
    · exact List.prefix_append _ _
    · exact List.prefix_rfl

variable (tid) in
theorem Asks.usr_exec (hsql : LeavesUsr env) (ha : a.Clean) {op : Sys} (h : Asks env fl works w a op) :
    w.db.usr <+: (exec env tid op w).2.db.usr := by
  by_cases hquery : ∃ cmd, op = .query cmd
  · obtain ⟨cmd, rfl⟩ := hquery
    rw [query_db]
    cases h with
    | harmless h => exact absurd h not_false
    | count hcmd => rw [count_usr hsql ha hcmd]
    | row hcmd => exact row_usr ha hcmd
  · rw [exec_db env tid w fun cmd he => hquery ⟨cmd, he⟩]

theorem failed_db (f : Fault) (op : Sys) :
    (failed f env tid op w).2.db = w.db ∨ (failed f env tid op w).2.db = (exec env tid op w).2.db := by
  cases op with
  | write fd buf =>
    left
    simp only [failed]
    exact exec_db env tid w fun cmd he => by cases he
  | shell cmd =>
    simp only [failed]
    split
    · exact Or.inr rfl
    · exact Or.inl rfl
  | close fd => exact Or.inr rfl
  | fetch => exact Or.inr rfl
  | lock => exact Or.inr rfl
  | unlock => exact Or.inr rfl
  | send fd msg => exact Or.inr rfl
  | _ => exact Or.inl rfl

variable (tid) in
theorem Asks.usr (hsql : LeavesUsr env) (ha : a.Clean) (can : Sys → Bool) {s : Faulty} {op : Sys}
    (h : Asks env fl works s.world a op) : s.world.db.usr <+: (faulty can env tid op s).2.world.db.usr := by
  have hexec := h.usr_exec tid hsql ha
  refine faulty_spec (Q := fun _ w => s.world.db.usr <+: w.db.usr) hexec fun _ f => ?_
  rcases failed_db f op with hdb | hdb
  · rw [hdb]
  · rw [hdb]
    exact hexec

end

end NetDisk.Services
