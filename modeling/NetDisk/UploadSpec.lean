import NetDisk.Layout
import NetDisk.Statements

/-!
# `UploadRpc::Do` on the disk

For a plain user name and a plain sign, one call of `Do` is one `upload` of the disk, whatever the
queries do. What they do to the tables is `linkQueries`.
-/

namespace NetDisk

open Machine

variable {env : Env} {tid : Nat} {fl : Flags} {fs fs' : FS} {db db' : DB}

/-- What a request brings. -/
def Part.of (request : NetDiskRequest) : Part where
  usr := request.usr
  sign := request.fileSign
  index := request.partIndex.toNat
  count := UploadRpc.shardSize request.shard
  digest := request.partSign
  body := FileSys.written request.body

namespace UploadRpc

open FileSys Mmysql

/-! ## The paths -/

section
variable (fl : Flags) (request : NetDiskRequest)

theorem usrFiles_text (usr : Name) :
    fl.usrDir ++ usr ++ ascii "/files" = dirText (fl.usrRoot ++ [usr]) ++ FILES := by
  rw [dirText_snoc, List.append_assoc, List.append_assoc, List.append_assoc]
  rfl

theorem linkPath_text :
    linkPath fl request = dirText (fl.usrRoot ++ [request.usr, FILES]) ++ request.fileSign := by
  have hdir := dirText_snoc (fl.usrRoot ++ [request.usr]) FILES
  rw [List.append_assoc, List.singleton_append, dirText_snoc] at hdir
  rw [hdir, linkPath]
  simp only [List.append_assoc]
  rfl

theorem usrUploadDir_text : usrUploadDir fl request = dirText (fl.usrRoot ++ [request.usr] ++ [TMP]) := by
  rw [dirText_snoc, dirText_snoc, usrUploadDir]
  simp only [List.append_assoc]
  rfl

theorem signDir_text :
    usrUploadDir fl request ++ request.fileSign = dirText (fl.usrRoot ++ [request.usr, TMP]) ++ request.fileSign := by
  rw [usrUploadDir_text, List.append_assoc]
  rfl

theorem signDir_slash_text : usrUploadDir fl request ++ request.fileSign ++ ascii "/" =
    dirText (fl.usrRoot ++ [request.usr, TMP] ++ [request.fileSign]) := by
  rw [signDir_text, dirText_snoc]
  rfl

theorem filePath_text : filePath fl request =
    dirText (fl.usrRoot ++ [request.usr, TMP, request.fileSign]) ++ toString request.partIndex.toNat := by
  rw [filePath, signDir_slash_text, List.append_assoc]
  rfl

/-- `mv` of a directory of parts into the store. -/
def mvText (u s : Name) : Bytes :=
  ascii "mv" ++ [space] ++ (dirText (fl.usrRoot ++ [u, TMP]) ++ s) ++ [space] ++ dirText fl.filesRoot

theorem mvCmd_text : mvCmd fl request = mvText fl request.usr request.fileSign := by
  rw [mvCmd, signDir_text]
  rfl

end

theorem plain_snoc {p : Path} {n : Name} (hp : ∀ m ∈ p, Plain m) (hn : Plain n) : ∀ m ∈ p ++ [n], Plain m := by
  intro m hm
  rcases List.mem_append.mp hm with hm | hm
  · exact hp m hm
  · rw [List.mem_singleton.mp hm]; exact hn

/-- Where the part of the request goes. -/
def partPath (fl : Flags) (request : NetDiskRequest) : Path :=
  fl.usrRoot ++ [request.usr, TMP, request.fileSign, toString request.partIndex.toNat]

theorem partPath_eq (fl : Flags) (request : NetDiskRequest) : partPath fl request =
    fl.usrRoot ++ [request.usr, TMP, request.fileSign] ++ [toString request.partIndex.toNat] := by
  simp [partPath]

theorem part_eq {fl : Flags} {fs : FS} (hs : Shape fl fs) (request : NetDiskRequest) : fs.node (partPath fl request) =
    ((Disk.of fl fs).part request.usr request.fileSign request.partIndex.toNat).map .file := by
  have hpart : (Disk.of fl fs).part request.usr request.fileSign request.partIndex.toNat =
      fileAt fs (partPath fl request) := rfl
  rw [hpart, fileAt]
  cases hnode : fs.node (partPath fl request) with
  | none => rfl
  | some n =>
    obtain ⟨c, k, rfl, -⟩ := hs.usr_entry _ _ hnode rfl
    rfl

/-! ## `shard` as an `int` -/

theorem shardSize_eq {shard : UInt32} (h : shard.toNat < 2147483648) : shardSize shard = shard.toNat := by
  have hmsb : shard.toBitVec.msb = false := by
    rw [BitVec.msb_eq_false_iff_two_mul_lt]
    change 2 * shard.toNat < 2 ^ 32
    omega
  rw [shardSize, BitVec.toNat_signExtend, hmsb]
  simp only [BitVec.toNat_setWidth, UInt32.toNat_toBitVec]
  have := shard.toNat_lt
  rw [if_neg (by simp), Nat.mod_eq_of_lt (by omega), Nat.add_zero]

theorem le_shardSize (shard : UInt32) : shard.toNat ≤ shardSize shard := by
  rw [shardSize, BitVec.toNat_signExtend, BitVec.toNat_setWidth, UInt32.toNat_toBitVec]
  have := shard.toNat_lt
  split
  · rw [Nat.mod_eq_of_lt (by omega)]
    omega
  · rw [Nat.mod_eq_of_lt (by omega)]
    omega

/-! ## The queries of `linkToUsr` -/

/-- Whether a query succeeds, and the tables after it. -/
def queryOutcome (env : Env) (db : DB) (cmd : Bytes) : Bool × DB :=
  match sql env db cmd with
  | none => (false, db)
  | some (db, _) => (true, db)

/-- Whether all of them succeed, and the tables after them. -/
def linkQueries (env : Env) (db : DB) (sign fileName : Bytes) : Bool × DB :=
  match sql env db (selectSignCmd sign) with
  | none => (false, db)
  | some (db, rows) =>
    match rows.bind List.head? with
    | none => queryOutcome env db (insertSignCmd sign fileName)
    | some _ => queryOutcome env db (updateSignCmd sign)

variable (env tid) in
theorem runQuery_none {w : World} {cmd : Bytes} (h : sql env w.db cmd = none) :
    (runQuery cmd).run (exec env tid) w = (1, w) := by
  have hop : exec env tid (.query cmd) w = (false, w) := by simp only [exec, h]
  exact Prog.run_call_of _ hop

variable (env tid) in
theorem runQuery_some {w : World} {cmd : Bytes} {rows : Option (List Row)} (h : sql env w.db cmd = some (db, rows)) :
    (runQuery cmd).run (exec env tid) w =
      (0, { w with db := db, pending := Function.update w.pending tid rows }) := by
  have hop : exec env tid (.query cmd) w =
      (true, { w with db := db, pending := Function.update w.pending tid rows }) := by simp only [exec, h]
  exact Prog.run_call_of _ hop

variable (env tid) in
theorem runQuery_zero {w : World} {cmd : Bytes} (h : (exec env tid (.query cmd) w).1 = true) :
    ((runQuery cmd).run (exec env tid) w).1 = 0 := by
  cases hq : sql env w.db cmd with
  | none => simp [exec, hq] at h
  | some r => rw [runQuery_some env tid hq]

theorem lockedQuery_spec (cmd : Bytes) :
    Ends env tid (lockedQuery cmd) fs db (if (queryOutcome env db cmd).1 then 0 else -1) fs
      (queryOutcome env db cmd).2 := by
  intro w hfs hdb
  subst hfs hdb
  unfold queryOutcome
  cases hq : sql env w.db cmd with
  | none =>
    have hrun := runQuery_none env tid (w := { w with locked := true }) hq
    have : (lockedQuery cmd).run (exec env tid) w = (-1, { w with locked := false }) := by
      refine (Prog.run_call_of _ (t := { w with locked := true }) rfl).trans ?_
      exact Prog.run_bind_of _ hrun
    rw [this]
    exact ⟨rfl, rfl, rfl⟩
  | some r =>
    have hrun := runQuery_some env tid (w := { w with locked := true }) hq
    have : (lockedQuery cmd).run (exec env tid) w =
        (0, { w with db := r.1, pending := Function.update w.pending tid r.2, locked := false }) := by
      refine (Prog.run_call_of _ (t := { w with locked := true }) rfl).trans ?_
      exact Prog.run_bind_of _ hrun
    rw [this]
    exact ⟨rfl, rfl, rfl⟩

theorem countRow_spec (sign fileName : Bytes) (row : Option Row) :
    Ends env tid (match row with
      | none => addSignMap sign fileName
      | some _ => lockedQuery (updateSignCmd sign)) fs db
      (if (match row with
        | none => queryOutcome env db (insertSignCmd sign fileName)
        | some _ => queryOutcome env db (updateSignCmd sign)).1 then 0 else -1) fs
      (match row with
        | none => queryOutcome env db (insertSignCmd sign fileName)
        | some _ => queryOutcome env db (updateSignCmd sign)).2 := by
  cases row with
  | none => exact lockedQuery_spec (insertSignCmd sign fileName)
  | some row => exact lockedQuery_spec (updateSignCmd sign)

/-- `linkToUsr` after its link. -/
def countLink (sign fileName : Bytes) : Code Int := do
  let rt ← runQuery (selectSignCmd sign)
  if rt ≠ 0 then
    return -1
  else do
    let row ← fetchRes
    match row with
    | none => addSignMap sign fileName
    | some _ => lockedQuery (updateSignCmd sign)

theorem countLink_spec (sign fileName : Bytes) :
    Ends env tid (countLink sign fileName) fs db (if (linkQueries env db sign fileName).1 then 0 else -1) fs
      (linkQueries env db sign fileName).2 := by
  intro w hfs hdb
  subst hfs hdb
  unfold countLink linkQueries
  cases hq : sql env w.db (selectSignCmd sign) with
  | none =>
    rw [Prog.run_bind_of _ (runQuery_none env tid hq)]
    exact ⟨rfl, rfl, rfl⟩
  | some r =>
    obtain ⟨db1, rows⟩ := r
    rw [Prog.run_bind_of _ (runQuery_some env tid hq)]
    -- The row is fetched from the state that the query left.
    have hfetch : fetchRes.run (exec env tid) { w with db := db1, pending := Function.update w.pending tid rows } =
        (rows.bind List.head?, { w with db := db1, pending := Function.update w.pending tid none }) := by
      simp [fetchRes, sys, Prog.lift, Prog.run_call, exec]
    rw [if_neg (by simp), Prog.run_bind_of _ hfetch]
    exact countRow_spec sign fileName (rows.bind List.head?) { w with db := db1, pending := Function.update w.pending tid none }
      rfl rfl

def ensureLink (fs : FS) (p : Path) (target : Bytes) : FS := ensure fs p (.link target)

section
variable (env tid db) {p : Path} {n : Name} (hp : ∀ m ∈ p, Plain m) (hn : Plain n) {target : Bytes}
  (ht : cStr target = target) (ht0 : target ≠ []) (hd : fs.node p = some .dir)
include hp hn ht ht0 hd

theorem link_ensures :
    Ends env tid (link target (dirText p ++ n)) fs db 0 (ensureLink fs (p ++ [n]) target) db := by
  by_cases hnone : fs.node (p ++ [n]) = none
  · have hcan := canPut_of_parent hd (n := n) (by simp [hnone])
    rw [ensureLink, ensure_new hnone hcan]
    exact link_spec env tid db hp hn ht ht0 hd hnone
  · rw [ensureLink, ensure_old hnone]
    exact link_old_spec env tid db hp hn ht ht0 hd hnone

theorem linkToUsr_spec (sign fileName : Bytes) :
    Ends env tid (linkToUsr target (dirText p ++ n) sign fileName) fs db
      (if (linkQueries env db sign fileName).1 then 0 else -1) (ensureLink fs (p ++ [n]) target)
      (linkQueries env db sign fileName).2 :=
  Ends.bind (link_ensures env tid db hp hn ht ht0 hd) (countLink_spec sign fileName)

end

/-! ## Ending a call -/

/-- The call ends with `res`, the disk and the tables. -/
def Answers (env : Env) (tid : Nat) (fl : Flags) (c : Code NetDiskResponse) (fs : FS) (db : DB) (disk : Disk)
    (res : Bool) (db' : DB) : Prop :=
  ∃ response fs', Ends env tid c fs db response fs' db' ∧ Shape fl fs' ∧ Disk.of fl fs' = disk ∧
    response.res = some res

theorem Answers.bind {α : Type} {c : Code α} {f : α → Code NetDiskResponse} {a : α} {fs1 : FS} {db1 : DB}
    {disk : Disk} {res : Bool} (hc : Ends env tid c fs db a fs1 db1)
    (hf : Answers env tid fl (f a) fs1 db1 disk res db') : Answers env tid fl (c >>= f) fs db disk res db' := by
  obtain ⟨response, fs', hends, h⟩ := hf
  exact ⟨response, fs', hc.bind hends, h⟩

theorem Answers.answer (hs : Shape fl fs) (response : NetDiskResponse) (res : Bool) (body : String) :
    Answers env tid fl (.pure (response.answer res body)) fs db (Disk.of fl fs) res db :=
  ⟨_, fs, Ends.pure _, hs, rfl, rfl⟩

theorem shape_ensureLink (hs : Shape fl fs) (u s : Name) :
    Shape fl (ensureLink fs (fl.usrRoot ++ [u, FILES, s]) (fl.filesDir ++ s)) :=
  hs.ensure_usr ⟨fun _ => rfl, fun h => absurd h FILES_ne_TMP⟩

theorem of_ensureLink {u : Name} (hd : fs.node (fl.usrRoot ++ [u, FILES]) = some .dir) (s : Name) (target : Bytes) :
    Disk.of fl (ensureLink fs (fl.usrRoot ++ [u, FILES, s]) target) = (Disk.of fl fs).link u s := by
  unfold ensureLink
  by_cases hnone : fs.node (fl.usrRoot ++ [u, FILES, s]) = none
  · have hcan : fs.CanPut (fl.usrRoot ++ [u, FILES, s]) := by
      simpa using canPut_of_parent (n := s) hd (by simp [hnone])
    rw [ensure_new hnone hcan]
    exact Disk.of_put_link u s _ _
  · rw [ensure_old hnone]
    refine (Disk.link_of_linked _ ?_).symm
    simpa [Disk.of] using hnone

/-! ## Plain names -/

section
variable (fl) {u s : Name} (hu : Plain u) (hsg : Plain s)
include hu

theorem plain_tmp : ∀ m ∈ fl.usrRoot ++ [u, TMP], Plain m := by
  have h := plain_snoc (plain_snoc fl.usr_plain hu) plain_TMP
  simpa using h

theorem plain_files : ∀ m ∈ fl.usrRoot ++ [u, FILES], Plain m := by
  have h := plain_snoc (plain_snoc fl.usr_plain hu) plain_FILES
  simpa using h

include hsg

theorem plain_signDir : ∀ m ∈ fl.usrRoot ++ [u, TMP, s], Plain m := by
  have h := plain_snoc (plain_tmp fl hu) hsg
  simpa using h

theorem mvText_words : cStr (mvText fl u s) = mvText fl u s ∧ shWords (mvText fl u s) =
    some [ascii "mv", dirText (fl.usrRoot ++ [u, TMP]) ++ s, fl.filesDir] := by
  have hmv : ShellSafe (ascii "mv") := by decide +kernel
  have hsrc := shellSafe_append (shellSafe_dirText (plain_tmp fl hu)) (Plain.shellSafe hsg)
  have hdst := shellSafe_dirText fl.files_plain
  unfold mvText
  constructor
  · apply cStr_eq_self
    simp only [List.mem_append, List.mem_singleton]
    rintro ((((h | h) | h | h) | h) | h)
    · exact (hmv 0 h).1 rfl
    · exact absurd h (by decide)
    · exact (hsrc 0 (List.mem_append.mpr (Or.inl h))).1 rfl
    · exact (hsrc 0 (List.mem_append.mpr (Or.inr h))).1 rfl
    · exact absurd h (by decide)
    · exact (hdst 0 h).1 rfl
  · exact shWords_three hmv (by decide) hsrc (by simp [dirText]) hdst (by simp [dirText])
      (dirText_no_dash _ _) (by simpa using dirText_no_dash fl.filesRoot [])

theorem exec_mv {w : World} (hfroot : w.fs.node fl.filesRoot = some .dir)
    (hdir : w.fs.node (fl.usrRoot ++ [u, TMP, s]) = some .dir) (hnot : w.fs.node (fl.filesRoot ++ [s]) = none) :
    exec env tid (.shell (mvText fl u s)) w = (some [], { w with
      fs := w.fs.move _ _ (Shape.canMove_new (u := u) hfroot hnot)
      fds := moveFds (fl.usrRoot ++ [u, TMP, s]) (fl.filesRoot ++ [s]) w.fds }) := by
  have hroot : w.fs.node (fl.usrRoot ++ [u, TMP]) = some .dir :=
    w.fs.dir_above _ [s] (by simp) (by simp [hdir])
  have hdir' : w.fs.node (fl.usrRoot ++ [u, TMP] ++ [s]) = some .dir := by simpa using hdir
  have hmove := mv_dir env (w := w) (plain_tmp fl hu) hsg fl.files_plain hroot hdir' hfroot hnot
    (by simpa using Shape.canMove_new hfroot hnot)
  simp only [exec, Machine.shell, (mvText_words fl hu hsg).2, if_true]
  rw [Flags.filesDir, hmove]
  simp only [List.append_assoc, List.cons_append, List.nil_append]

end

section
variable (request : NetDiskRequest) (response : NetDiskResponse)
variable {request} (hu : Plain request.usr) (hsg : Plain request.fileSign)
include hu hsg

variable (fl) in
theorem mvCmd_words : cStr (mvCmd fl request) = mvCmd fl request ∧ shWords (mvCmd fl request) =
    some [ascii "mv", dirText (fl.usrRoot ++ [request.usr, TMP]) ++ request.fileSign, fl.filesDir] := by
  rw [mvCmd_text]
  exact mvText_words fl hu hsg

theorem mv_spec (hfroot : fs.node fl.filesRoot = some .dir)
    (hdir : fs.node (fl.usrRoot ++ [request.usr, TMP, request.fileSign]) = some .dir)
    (hnot : fs.node (fl.filesRoot ++ [request.fileSign]) = none) :
    Ends env tid (shellOut (mvCmd fl request)) fs db (some [])
      (fs.move _ _ (Shape.canMove_new (u := request.usr) hfroot hnot)) db := by
  rw [mvCmd_text]
  refine Ends.sys fun w hfs hdb => ?_
  subst hfs
  rw [(mvText_words fl hu hsg).1, exec_mv fl hu hsg hfroot hdir hnot]
  exact ⟨rfl, rfl, hdb⟩

omit hu in
variable (fl) in
theorem fileDir_cStr : cStr (fileDir fl request) = fileDir fl request :=
  FileSys.cStr_name fl.files_plain hsg

omit hu hsg in
variable (fl request) in
theorem fileDir_ne_nil : fileDir fl request ≠ [] := by simp [fileDir, Flags.filesDir, dirText]

variable (env tid db) in
theorem publish_ends (hfroot : fs.node fl.filesRoot = some .dir)
    (hfiles : fs.node (fl.usrRoot ++ [request.usr, FILES]) = some .dir)
    (hdir : fs.node (fl.usrRoot ++ [request.usr, TMP, request.fileSign]) = some .dir)
    (hnot : fs.node (fl.filesRoot ++ [request.fileSign]) = none) :
    ∃ response', response'.res = some (linkQueries env db request.fileSign request.fileName).1 ∧
      Ends env tid (publish fl request response) fs db response'
        (ensureLink (fs.move _ _ (Shape.canMove_new (u := request.usr) hfroot hnot))
          (fl.usrRoot ++ [request.usr, FILES, request.fileSign]) (fileDir fl request))
        (linkQueries env db request.fileSign request.fileName).2 := by
  have hcan := Shape.canMove_new (u := request.usr) hfroot hnot
  have hfiles' : (fs.move _ _ hcan).node (fl.usrRoot ++ [request.usr, FILES]) = some .dir := by
    rw [Shape.move_node_usr, if_neg (by simp), hfiles]
  have hlink := linkToUsr_spec env tid db (plain_files fl hu) hsg
    (fileDir_cStr fl hsg) (fileDir_ne_nil fl request) hfiles' request.fileSign request.fileName
  rw [← linkPath_text, List.append_assoc] at hlink
  cases hq : (linkQueries env db request.fileSign request.fileName).1 with
  | true =>
    refine ⟨response.answer true "success", rfl, (mv_spec hu hsg hfroot hdir hnot).bind ?_⟩
    rw [if_neg (by simp)]
    refine hlink.bind ?_
    rw [if_neg (by simp [hq])]
    exact Ends.pure _
  | false =>
    refine ⟨response.answer false "link failed", rfl, (mv_spec hu hsg hfroot hdir hnot).bind ?_⟩
    rw [if_neg (by simp)]
    refine hlink.bind ?_
    rw [if_pos (by simp [hq])]
    exact Ends.pure _

theorem publish_answers (hs : Shape fl fs) (hfiles : fs.node (fl.usrRoot ++ [request.usr, FILES]) = some .dir)
    (hdir : fs.node (fl.usrRoot ++ [request.usr, TMP, request.fileSign]) = some .dir)
    (hnot : fs.node (fl.filesRoot ++ [request.fileSign]) = none) :
    Answers env tid fl (publish fl request response) fs db
      (((Disk.of fl fs).publish request.usr request.fileSign).link request.usr request.fileSign)
      (linkQueries env db request.fileSign request.fileName).1
      (linkQueries env db request.fileSign request.fileName).2 := by
  have hcan := hs.canMove hnot (u := request.usr)
  obtain ⟨response', hres, hends⟩ := publish_ends env tid db response hu hsg
    hs.files_root hfiles hdir hnot
  have hfiles' : (fs.move _ _ hcan).node (fl.usrRoot ++ [request.usr, FILES]) = some .dir := by
    rw [Shape.move_node_usr, if_neg (by simp), hfiles]
  refine ⟨response', _, hends, shape_ensureLink (hs.move hdir hcan) _ _, ?_, hres⟩
  rw [of_ensureLink hfiles', Disk.of_move hdir hcan]

/-! ## Counting the parts -/

/-- The names that `lsDir` gives of a directory. -/
def listed (fs : FS) (p : Path) : Finset Name := (fs.entries p).filter fun d => d.head? ≠ some (ch '.')

omit hu hsg in
theorem filter_dots (names : Finset Name) :
    ((insert dot (insert dotdot names)).filter fun d => d.head? ≠ some (ch '.')) =
      names.filter fun d => d.head? ≠ some (ch '.') := by
  rw [Finset.filter_insert, Finset.filter_insert, if_neg (by decide), if_neg (by decide)]

omit hu hsg in
theorem listed_entries (hs : Shape fl fs) (u s : Name) :
    listed fs (fl.usrRoot ++ [u, TMP, s]) = fs.entries (fl.usrRoot ++ [u, TMP, s]) := by
  refine Finset.filter_true_of_mem fun d hd hdot => ?_
  rw [FileTree.mem_entries, List.append_assoc] at hd
  obtain ⟨n, hn⟩ := Option.ne_none_iff_exists'.mp hd
  obtain ⟨c, k, rfl, rfl⟩ := hs.usr_entry _ _ hn rfl
  have := toString_digits k _ (List.mem_of_head? hdot)
  exact absurd this.1 (by decide)

theorem allPartArrived_listed (hdir : fs.node (fl.usrRoot ++ [request.usr, TMP, request.fileSign]) = some .dir)
    (shard : UInt32) :
    Ends env tid (allPartArrived (usrUploadDir fl request ++ request.fileSign) shard) fs db
      (shardSize shard = (listed fs (fl.usrRoot ++ [request.usr, TMP, request.fileSign])).card) fs db := by
  have hroot : fs.node (fl.usrRoot ++ [request.usr, TMP]) = some .dir :=
    fs.dir_above _ [request.fileSign] (by simp) (by simp [hdir])
  have hls := lsDir_spec env tid db (plain_tmp fl hu) hsg hroot (by simpa using hdir)
  rw [← signDir_text] at hls
  refine Ends.bind hls ?_
  have happ : fl.usrRoot ++ [request.usr, TMP] ++ [request.fileSign] =
      fl.usrRoot ++ [request.usr, TMP, request.fileSign] := by simp
  simp only [happ, filter_dots]
  exact Ends.pure _

theorem allPartArrived_spec (hs : Shape fl fs)
    (hdir : fs.node (fl.usrRoot ++ [request.usr, TMP, request.fileSign]) = some .dir) (shard : UInt32) :
    Ends env tid (allPartArrived (usrUploadDir fl request ++ request.fileSign) shard) fs db
      (shardSize shard = ((Disk.of fl fs).arrived request.usr request.fileSign).ncard) fs db := by
  rw [Disk.ncard_arrived hs, ← listed_entries hs]
  exact allPartArrived_listed hu hsg hdir shard

theorem checkArrived_published (hs : Shape fl fs)
    (hfiles : fs.node (fl.usrRoot ++ [request.usr, FILES]) = some .dir)
    (hdir : fs.node (fl.usrRoot ++ [request.usr, TMP, request.fileSign]) = some .dir)
    (hnot : fs.node (fl.filesRoot ++ [request.fileSign]) = none)
    (hall : ((Disk.of fl fs).arrived request.usr request.fileSign).ncard = shardSize request.shard) :
    Answers env tid fl (checkArrived fl request response) fs db
      (((Disk.of fl fs).publish request.usr request.fileSign).link request.usr request.fileSign)
      (linkQueries env db request.fileSign request.fileName).1
      (linkQueries env db request.fileSign request.fileName).2 := by
  refine Answers.bind (allPartArrived_spec hu hsg hs hdir request.shard) ?_
  rw [if_pos (by simp [hall])]
  exact publish_answers response hu hsg hs hfiles hdir hnot

theorem checkArrived_accepted (hs : Shape fl fs)
    (hdir : fs.node (fl.usrRoot ++ [request.usr, TMP, request.fileSign]) = some .dir)
    (hnot : ((Disk.of fl fs).arrived request.usr request.fileSign).ncard ≠ shardSize request.shard) :
    Answers env tid fl (checkArrived fl request response) fs db (Disk.of fl fs) true db := by
  refine Answers.bind (allPartArrived_spec hu hsg hs hdir request.shard) ?_
  rw [if_neg (by simpa using hnot.symm)]
  exact Answers.answer hs _ _ _

/-! ## Storing a part -/

section
variable {disk : Disk} {res : Bool} (hdir : fs.node (fl.usrRoot ++ [request.usr, TMP, request.fileSign]) = some .dir)
include hdir

theorem md5Sum_part {c : Bytes} (hc : fs.node (partPath fl request) = some (.file c)) :
    Ends env tid (md5Sum (filePath fl request)) fs db (some (Md5.hexDigest c)) fs db := by
  rw [filePath_text]
  exact md5Sum_spec env tid db (plain_signDir fl hu hsg) (plain_toString _) hdir (by rw [← partPath_eq]; exact hc)

theorem checkSign_rejected (hs : Shape fl fs) {c : Bytes} (hc : fs.node (partPath fl request) = some (.file c))
    (hbad : Md5.hexDigest c ≠ request.partSign) :
    Answers env tid fl (checkSign fl request response) fs db (Disk.of fl fs) false db := by
  refine Answers.bind (md5Sum_part hu hsg hdir hc) ?_
  simp only [if_pos hbad]
  exact Answers.answer hs _ _ _

theorem checkSign_checked {c : Bytes} (hc : fs.node (partPath fl request) = some (.file c))
    (hgood : Md5.hexDigest c = request.partSign)
    (h : Answers env tid fl (checkArrived fl request response) fs db disk res db') :
    Answers env tid fl (checkSign fl request response) fs db disk res db' := by
  refine Answers.bind (md5Sum_part hu hsg hdir hc) ?_
  simp only [hgood, ne_eq, not_true_eq_false, if_false]
  exact h

theorem existFile_part (hfile : fs.node (partPath fl request) = none ∨
    ∃ c, fs.node (partPath fl request) = some (.file c)) :
    Ends env tid (existFile (filePath fl request)) fs db (decide (fs.node (partPath fl request) ≠ none)) fs db := by
  rw [filePath_text, partPath_eq] at *
  refine existFile_spec env tid db (plain_signDir fl hu hsg) (plain_toString _) hdir ?_
  rcases hfile with h | ⟨c, h⟩ <;> simp only [h] <;> simp

theorem deleteFile_part {c : Bytes} (hc : fs.node (partPath fl request) = some (.file c)) :
    Ends env tid (deleteFile (filePath fl request)) fs db 0
      (fs.erase (partPath fl request) (fs.canErase_of_not_dir (by simp [hc]))) db := by
  have hspec := deleteFile_spec env tid db (plain_signDir fl hu hsg)
    (plain_toString request.partIndex.toNat) hdir (by rw [← partPath_eq]; exact hc)
  rw [← filePath_text] at hspec
  simpa only [partPath_eq] using hspec

end

/-! ## The directories of a part -/

omit hu hsg in
theorem ensureDir_keeps {p : Path} {n : Name} (hd : fs.node p = some .dir) {q : Path} (hq : fs.node q ≠ none) :
    (ensureDir fs (p ++ [n])).node q = fs.node q := by
  rw [node_ensureDir hd, if_neg]
  rintro ⟨rfl, hnone⟩
  exact hq hnone

omit hu hsg in
theorem ensureDir_made {p : Path} {n : Name} (hd : fs.node p = some .dir)
    (h : ∀ m, fs.node (p ++ [n]) = some m → m = .dir) : (ensureDir fs (p ++ [n])).node (p ++ [n]) = some .dir := by
  rw [node_ensureDir hd]
  cases hn : fs.node (p ++ [n]) with
  | none => simp
  | some m => simp [h m hn]

/-- The file system with the directory of the parts. -/
def tmpDirs (fl : Flags) (fs : FS) (request : NetDiskRequest) : FS :=
  ensureDir (ensureDir fs (fl.usrRoot ++ [request.usr] ++ [TMP]))
    (fl.usrRoot ++ [request.usr, TMP] ++ [request.fileSign])

/-- Where the call makes its directories, nothing else is in the way. -/
structure Ready (fl : Flags) (request : NetDiskRequest) (fs : FS) : Prop where
  user : fs.node (fl.usrRoot ++ [request.usr]) = some .dir
  tmp : ∀ m, fs.node (fl.usrRoot ++ [request.usr, TMP]) = some m → m = .dir
  sign : ∀ m, fs.node (fl.usrRoot ++ [request.usr, TMP, request.fileSign]) = some m → m = .dir

omit hu hsg in
theorem Ready.of_shape (hs : Shape fl fs) (huser : fs.node (fl.usrRoot ++ [request.usr]) = some .dir) :
    Ready fl request fs where
  user := huser
  tmp m hm := hs.usr_entry [request.usr, TMP] m hm (Or.inr rfl)
  sign m hm := (hs.usr_entry [request.usr, TMP, request.fileSign] m hm).2 rfl

section
variable (hready : Ready fl request fs)
include hready

omit hu hsg in
theorem tmp_made : (ensureDir fs (fl.usrRoot ++ [request.usr] ++ [TMP])).node
    (fl.usrRoot ++ [request.usr, TMP]) = some .dir := by
  have h := ensureDir_made (n := TMP) hready.user fun m hm => hready.tmp m (by simpa using hm)
  simpa using h

omit hu hsg in
theorem node_tmpDirs (q : Path) : (tmpDirs fl fs request).node q =
    if fs.node q = none ∧ (q = fl.usrRoot ++ [request.usr, TMP] ∨ q = fl.usrRoot ++ [request.usr, TMP, request.fileSign])
    then some .dir else fs.node q := by
  have htmp := tmp_made hready
  have hne : fl.usrRoot ++ [request.usr, TMP, request.fileSign] ≠ fl.usrRoot ++ [request.usr, TMP] := by simp
  rw [tmpDirs, node_ensureDir htmp, node_ensureDir hready.user, node_ensureDir hready.user]
  simp only [List.append_assoc, List.cons_append, List.nil_append, hne, false_and, if_false]
  by_cases hsign : q = fl.usrRoot ++ [request.usr, TMP, request.fileSign]
  · subst hsign
    simp [hne]
  · by_cases hq : q = fl.usrRoot ++ [request.usr, TMP]
    · subst hq
      simp
    · simp [hsign, hq]

omit hu hsg in
theorem tmpDirs_keeps {q : Path} (hq : fs.node q ≠ none) : (tmpDirs fl fs request).node q = fs.node q := by
  rw [node_tmpDirs hready, if_neg fun h => hq h.1]

omit hu hsg in
theorem tmpDirs_made :
    (tmpDirs fl fs request).node (fl.usrRoot ++ [request.usr, TMP, request.fileSign]) = some .dir := by
  rw [node_tmpDirs hready]
  cases hn : fs.node (fl.usrRoot ++ [request.usr, TMP, request.fileSign]) with
  | none => simp
  | some m => simp [hready.sign m hn]

theorem makeTmpDirs_spec : Ends env tid (makeTmpDirs fl request) fs db true (tmpDirs fl fs request) db := by
  have hplain := plain_snoc fl.usr_plain hu
  have hroot : fs.node fl.usrRoot = some .dir := fs.dir_above _ [request.usr] (by simp) (by simp [hready.user])
  have h1 := mkdir_spec env tid db fl.usr_plain hu hroot
  rw [ensureDir, ensure_old (by rw [hready.user]; simp)] at h1
  have h2 := mkdir_dirText_spec env tid db hplain plain_TMP hready.user
  have h3 := mkdir_dirText_spec env tid db (plain_tmp fl hu) hsg
    (tmp_made hready)
  rw [← usrUploadDir_text] at h2
  rw [← signDir_slash_text] at h3
  refine Ends.bind h1 ?_
  rw [if_neg (by simp)]
  refine Ends.bind h2 ?_
  rw [if_neg (by simp)]
  exact Ends.bind h3 (Ends.pure _)

end

variable (request) in
omit hu hsg in
theorem tmpDirs_shape (hs : Shape fl fs) :
    Shape fl (tmpDirs fl fs request) ∧ Disk.of fl (tmpDirs fl fs request) = Disk.of fl fs := by
  have hs1 : Shape fl (ensureDir fs (fl.usrRoot ++ [request.usr] ++ [TMP])) :=
    hs.ensureDir_usr fun _ => rfl
  refine ⟨hs1.ensureDir_usr ⟨fun h => absurd h FILES_ne_TMP.symm, fun _ => rfl⟩, ?_⟩
  rw [tmpDirs, Disk.of_ensureDir_sign, Disk.of_ensureDir_tmp]

/-! ## The part is stored -/

/-- The helpers that the code up to the check of the digest calls. -/
structure Asks (fl : Flags) (request : NetDiskRequest) (ok : ∀ ⦃α : Type⦄, Code α → Prop) : Prop where
  makeTmpDirs : ok (makeTmpDirs fl request)
  existFile : ok (existFile (filePath fl request))
  md5Sum : ok (md5Sum (filePath fl request))
  deleteFile : ok (deleteFile (filePath fl request))
  write : ok (FileSys.write request.body (filePath fl request))

omit hu hsg in
theorem Asks.any : Asks fl request fun _ _ => True := ⟨trivial, trivial, trivial, trivial, trivial⟩

/-- What holds of a call when it holds of what is left of it behind code that is `ok`. -/
def Steps (env : Env) (tid : Nat) (ok : ∀ ⦃α : Type⦄, Code α → Prop) (db : DB) (K : Code NetDiskResponse → FS → Prop) :
    Prop :=
  ∀ ⦃α : Type⦄ ⦃c : Code α⦄ ⦃f : α → Code NetDiskResponse⦄ ⦃a : α⦄ ⦃fs fs' : FS⦄,
    Ends env tid c fs db a fs' db → ok c → K (f a) fs' → K (c >>= f) fs

omit hu hsg in
theorem Answers.steps (disk : Disk) (res : Bool) (db' : DB) :
    Steps env tid (fun _ _ => True) db fun c fs => Answers env tid fl c fs db disk res db' :=
  fun _ _ _ _ _ _ hends _ hleft => Answers.bind hends hleft

section
variable {ok : ∀ ⦃α : Type⦄, Code α → Prop} {K : Code NetDiskResponse → FS → Prop} (hask : Asks fl request ok)
  (hK : Steps env tid ok db K)
include hask hK

theorem writePart_steps (hdir : fs.node (fl.usrRoot ++ [request.usr, TMP, request.fileSign]) = some .dir)
    (old : Option Bytes) (hold : fs.node (partPath fl request) = old.map .file)
    (h : ∀ hcan, K (checkSign fl request response)
      (fs.put (partPath fl request) (.file (overlay (old.getD []) (written request.body))) hcan)) :
    K (writePart fl request response) fs := by
  rw [partPath_eq] at hold h
  have hwrite := write_spec env tid db (plain_signDir fl hu hsg)
    (plain_toString _) request.body old hdir hold
  rw [← filePath_text] at hwrite
  refine hK hwrite hask.write ?_
  rw [if_neg (by simp)]
  exact h _

theorem storePart_steps (hdir : fs.node (fl.usrRoot ++ [request.usr, TMP, request.fileSign]) = some .dir)
    (old : Option Bytes) (hold : fs.node (partPath fl request) = old.map .file)
    (h : ∀ response hcan, K (checkSign fl request response)
      (fs.put (partPath fl request) (.file ((Part.of request).content old)) hcan)) :
    K (storePart fl request response) fs := by
  cases old with
  | none =>
    refine hK (existFile_part hu hsg hdir (Or.inl hold)) hask.existFile ?_
    rw [if_neg (by simp [hold])]
    refine writePart_steps response hu hsg hask hK hdir none hold fun hcan => ?_
    have hcontent : (Part.of request).content none = written request.body := rfl
    have := h response hcan
    rw [hcontent] at this
    simpa using this
  | some c =>
    have hnode : fs.node (partPath fl request) = some (.file c) := hold
    refine hK (existFile_part hu hsg hdir (Or.inr ⟨c, hnode⟩)) hask.existFile ?_
    rw [if_pos (by simp [hnode])]
    refine hK (md5Sum_part hu hsg hdir hnode) hask.md5Sum ?_
    dsimp only
    by_cases hgood : Md5.hexDigest c = request.partSign
    · have hcontent : (Part.of request).content (some c) = overlay c (written request.body) := Part.content_good hgood
      rw [if_pos hgood]
      refine writePart_steps _ hu hsg hask hK hdir (some c) hnode fun hcan => ?_
      have := h { response with body := some (ascii "this part already exist") } hcan
      rwa [hcontent] at this
    · have hcontent : (Part.of request).content (some c) = written request.body := Part.content_bad hgood
      rw [if_neg hgood]
      refine hK (deleteFile_part hu hsg hdir hnode) hask.deleteFile ?_
      have hne : fl.usrRoot ++ [request.usr, TMP, request.fileSign] ≠ partPath fl request := by
        simp [partPath]
      refine writePart_steps response hu hsg hask hK (by rw [FileTree.node_erase, if_neg hne, hdir]) none (by simp)
        fun hcan => ?_
      have hput := canPut_of_parent (n := toString request.partIndex.toNat) hdir
        (by rw [← partPath_eq, hnode]; simp)
      rw [← partPath_eq] at hput
      have := h response hput
      rw [hcontent] at this
      -- Removed and made new is the same as written over.
      convert this using 1
      apply FileTree.ext_node
      funext q
      by_cases hq : q = partPath fl request <;> simp [hq]

theorem uploadPart_steps (hs : Shape fl fs) (huser : fs.node (fl.usrRoot ++ [request.usr]) = some .dir)
    (hfiles : fs.node (fl.usrRoot ++ [request.usr, FILES]) = some .dir)
    (h : ∀ response fs', Shape fl fs' → Disk.of fl fs' = (Disk.of fl fs).putPart (Part.of request) →
      fs'.node (fl.usrRoot ++ [request.usr, TMP, request.fileSign]) = some .dir →
      fs'.node (fl.usrRoot ++ [request.usr, FILES]) = some .dir →
      fs'.node (partPath fl request) = some (.file ((Disk.of fl fs).content (Part.of request))) →
      K (checkSign fl request response) fs') : K (uploadPart fl request response) fs := by
  have hready : Ready fl request fs := .of_shape hs huser
  obtain ⟨hs2, hdisk2⟩ := tmpDirs_shape request hs
  have hdir := tmpDirs_made hready
  have hfiles2 := (tmpDirs_keeps hready (by simp [hfiles])).trans hfiles
  refine hK (makeTmpDirs_spec hu hsg hready) hask.makeTmpDirs ?_
  rw [if_pos rfl]
  rw [← hdisk2] at h
  generalize tmpDirs fl fs request = fs2 at *
  have hold := part_eq hs2 request
  rw [Disk.content_eq] at h
  refine storePart_steps response hu hsg hask hK hdir _ hold fun response hcan => h response _ ?_ ?_ ?_ ?_ ?_
  · exact hs2.put_usr hcan fun _ => ⟨_, _, rfl, rfl⟩
  · exact Disk.of_put_part (Part.of request) hcan
  · rw [FileTree.node_put, if_neg (by simp [partPath]), hdir]
  · rw [FileTree.node_put, if_neg (by simp [partPath]), hfiles2]
  · rw [FileTree.node_put, if_pos rfl]
    rfl

end

/-! ## The whole call -/

variable (env tid db) in
theorem speedUpload_ends (hfiles : fs.node (fl.usrRoot ++ [request.usr, FILES]) = some .dir) :
    ∃ response', response'.res = some (linkQueries env db request.fileSign request.fileName).1 ∧
      Ends env tid (speedUpload fl request response) fs db response'
        (ensureLink fs (fl.usrRoot ++ [request.usr, FILES, request.fileSign]) (fileDir fl request))
        (linkQueries env db request.fileSign request.fileName).2 := by
  have hlink := linkToUsr_spec env tid db (plain_files fl hu) hsg
    (fileDir_cStr fl hsg) (fileDir_ne_nil fl request) hfiles request.fileSign request.fileName
  rw [← linkPath_text, List.append_assoc] at hlink
  cases hq : (linkQueries env db request.fileSign request.fileName).1 with
  | true =>
    refine ⟨response.answer true "file already in server, speed", rfl, hlink.bind ?_⟩
    rw [if_neg (by simp [hq])]
    exact Ends.pure _
  | false =>
    refine ⟨response.answer false "speed upload link failed", rfl, hlink.bind ?_⟩
    rw [if_pos (by simp [hq])]
    exact Ends.pure _

theorem speedUpload_answers (hs : Shape fl fs) (hfiles : fs.node (fl.usrRoot ++ [request.usr, FILES]) = some .dir) :
    Answers env tid fl (speedUpload fl request response) fs db
      ((Disk.of fl fs).link request.usr request.fileSign)
      (linkQueries env db request.fileSign request.fileName).1
      (linkQueries env db request.fileSign request.fileName).2 := by
  obtain ⟨response', hres, hends⟩ := speedUpload_ends env tid db response hu hsg hfiles
  exact ⟨response', _, hends, shape_ensureLink hs _ _, of_ensureLink hfiles _ _, hres⟩

theorem uploadPart_answers (hs : Shape fl fs) (huser : fs.node (fl.usrRoot ++ [request.usr]) = some .dir)
    (hfiles : fs.node (fl.usrRoot ++ [request.usr, FILES]) = some .dir)
    (hnot : fs.node (fl.filesRoot ++ [request.fileSign]) = none) :
    Answers env tid fl (uploadPart fl request response) fs db ((Disk.of fl fs).upload (Part.of request))
      (((Disk.of fl fs).outcome (Part.of request)).res (linkQueries env db request.fileSign request.fileName).1)
      (if ((Disk.of fl fs).outcome (Part.of request)).links then
        (linkQueries env db request.fileSign request.fileName).2 else db) := by
  have hduser : (Disk.of fl fs).user request.usr = true := by simp [Disk.of, huser]
  have hdstored : (Disk.of fl fs).stored request.fileSign = false := by simp [Disk.of, hnot]
  refine uploadPart_steps response hu hsg Asks.any (Answers.steps _ _ _) hs huser hfiles ?_
  intro response fs' hs' hdisk hdir' hfiles' hc
  by_cases hgood : Md5.hexDigest ((Disk.of fl fs).content (Part.of request)) = request.partSign
  swap
  · have hout : (Disk.of fl fs).outcome (Part.of request) = .rejected :=
      Disk.outcome_rejected.mpr ⟨hduser, hdstored, hgood⟩
    rw [Disk.upload, hout, ← hdisk]
    exact checkSign_rejected response hu hsg hdir' hs' hc hgood
  refine checkSign_checked response hu hsg hdir' hc hgood ?_
  by_cases hall : ((Disk.of fl fs').arrived request.usr request.fileSign).ncard = shardSize request.shard
  · have hout : (Disk.of fl fs).outcome (Part.of request) = .published :=
      Disk.outcome_published.mpr ⟨hduser, hdstored, hgood, by rw [← hdisk]; exact hall⟩
    have hnot' : fs'.node (fl.filesRoot ++ [request.fileSign]) = none := by
      by_contra hsome
      obtain ⟨n, hn⟩ := Option.ne_none_iff_exists'.mp hsome
      have hst : (Disk.of fl fs').stored request.fileSign = true := by
        obtain rfl := hs'.store_entry _ _ hn
        simp [Disk.of, hn]
      rw [hdisk] at hst
      exact absurd (hdstored.symm.trans hst) (by simp)
    rw [Disk.upload, hout, ← hdisk]
    exact checkArrived_published response hu hsg hs' hfiles' hdir' hnot' hall
  · have hout : (Disk.of fl fs).outcome (Part.of request) = .accepted :=
      Disk.outcome_accepted.mpr ⟨hduser, hdstored, hgood, by rw [← hdisk]; exact hall⟩
    rw [Disk.upload, hout, ← hdisk]
    exact checkArrived_accepted response hu hsg hs' hdir' hall

omit hsg in
theorem Do_noUser (hroot : fs.node fl.usrRoot = some .dir) (hnone : fs.node (fl.usrRoot ++ [request.usr]) = none) :
    Ends env tid (Do fl request response) fs db (response.answer false "create usr files dir failed") fs db := by
  have hmkdir := mkdir_missing_spec env tid db fl.usr_plain hu hroot hnone plain_FILES
  rw [← usrFiles_text] at hmkdir
  refine hmkdir.bind ?_
  rw [if_pos (by simp)]
  exact Ends.pure _

variable (env tid db) in
/-- The outcome decides the answer, and whether the link is counted. -/
theorem Do_answers (hs : Shape fl fs) :
    Answers env tid fl (Do fl request response) fs db ((Disk.of fl fs).upload (Part.of request))
      (((Disk.of fl fs).outcome (Part.of request)).res (linkQueries env db request.fileSign request.fileName).1)
      (if ((Disk.of fl fs).outcome (Part.of request)).links then
        (linkQueries env db request.fileSign request.fileName).2 else db) := by
  by_cases huser : fs.node (fl.usrRoot ++ [request.usr]) = some .dir
  swap
  · have hnone : fs.node (fl.usrRoot ++ [request.usr]) = none := by
      by_contra h
      exact huser (hs.user_dir h)
    have hout : (Disk.of fl fs).outcome (Part.of request) = .noUser := by
      rw [Disk.outcome_noUser]
      simp [Disk.of, Part.of, hnone]
    rw [Disk.upload, hout]
    exact ⟨_, fs, Do_noUser response hu hs.usr_root hnone, hs, rfl, rfl⟩
  have hduser : (Disk.of fl fs).user request.usr = true := by simp [Disk.of, huser]
  have hmkdir := mkdir_spec env tid db (plain_snoc fl.usr_plain hu) plain_FILES huser
  rw [← usrFiles_text] at hmkdir
  have hs1 : Shape fl (ensureDir fs (fl.usrRoot ++ [request.usr] ++ [FILES])) := hs.ensureDir_usr fun _ => rfl
  have hdisk1 : Disk.of fl (ensureDir fs (fl.usrRoot ++ [request.usr] ++ [FILES])) = Disk.of fl fs :=
    Disk.of_ensureDir_files request.usr
  have hfiles := ensureDir_made (n := FILES) huser fun m hm =>
    hs.usr_entry [request.usr, FILES] m (by simpa using hm) (Or.inl rfl)
  have huser1 := ensureDir_keeps (n := FILES) huser (q := fl.usrRoot ++ [request.usr]) (by rw [huser]; simp)
  rw [huser] at huser1
  have hstore1 : (ensureDir fs (fl.usrRoot ++ [request.usr] ++ [FILES])).node (fl.filesRoot ++ [request.fileSign]) =
      fs.node (fl.filesRoot ++ [request.fileSign]) := by
    rw [node_ensureDir huser, if_neg]
    rintro ⟨h, _⟩
    rw [List.append_assoc] at h
    exact fl.files_ne_usr _ _ h
  refine Answers.bind hmkdir ?_
  rw [if_neg (by simp)]
  generalize ensureDir fs (fl.usrRoot ++ [request.usr] ++ [FILES]) = fs1 at hs1 hdisk1 hfiles huser1 hstore1
  rw [List.append_assoc, List.singleton_append] at hfiles
  have hnolink : ∀ target, fs1.node (fl.filesRoot ++ [request.fileSign]) ≠ some (.link target) := by
    intro target h
    have := hs1.store_entry _ _ h
    simp [storeEntry] at this
  have hexist := existDir_spec env tid db fl.files_plain hsg hs1.files_root hnolink
  refine Answers.bind hexist ?_
  rw [← hdisk1]
  by_cases hin : fs1.node (fl.filesRoot ++ [request.fileSign]) = some .dir
  · have hout : (Disk.of fl fs1).outcome (Part.of request) = .linked := by
      rw [Disk.outcome_linked]
      simp [Disk.of, Part.of, huser1, hin]
    rw [if_pos (by simpa using hin), Disk.upload, hout]
    exact speedUpload_answers response hu hsg hs1 hfiles
  · have hnone : fs1.node (fl.filesRoot ++ [request.fileSign]) = none := by
      by_contra h
      obtain ⟨n, hn⟩ := Option.ne_none_iff_exists'.mp h
      exact hin (by rw [hn, hs1.store_entry _ _ hn])
    rw [if_neg (by simpa using hin)]
    exact uploadPart_answers response hu hsg hs1 huser1 hfiles hnone

end

end UploadRpc

end NetDisk
