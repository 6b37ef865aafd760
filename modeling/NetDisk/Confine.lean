import NetDisk.Named
import NetDisk.Publish

/-!
# Whose files an upload touches

A plain user name and a plain sign keep an upload below that user's directory, and in the store at
the one entry of the sign. Names with slashes or dots in them do not.
-/

namespace NetDisk

open Machine UploadRpc FileSys Mmysql Server

variable {env : Env} {tid : Nat} {fl : Flags}

/-! ## Paths with no link on their way -/

def NoLinks (fs : FS) (p : Path) : Prop := ∀ r, r <+: p → ∀ target, fs.node r ≠ some (.link target)

section
variable (env) {fs : FS} {p : Path} {n : Name} (hp : ∀ m ∈ p, Plain m) (hn : Plain n)
include hp hn

theorem locate_clear (hl : NoLinks fs p) :
    locate env fs (dirText p ++ n) = .ok (p ++ [n]) ∨ ∃ e, locate env fs (dirText p ++ n) = .error e := by
  have hne : dirText p ++ n ≠ [] := by simp [dirText]
  rw [locate, if_neg hne, startDir, if_pos (isAbsolute_dirText p n), pathComps_name p n hp hn]
  exact fs.locate_no_links readPath maxLinks p n hl

theorem resolve_clear (hl : NoLinks fs (p ++ [n])) :
    resolve env fs (dirText p ++ n) = .ok (p ++ [n]) ∨ ∃ e, resolve env fs (dirText p ++ n) = .error e := by
  have hne : dirText p ++ n ≠ [] := by simp [dirText]
  rw [resolve, if_neg hne, startDir, if_pos (isAbsolute_dirText p n), pathComps_name p n hp hn,
    finalSlash_name p n hn]
  exact fs.walk_no_links readPath maxLinks (p ++ [n]) [] (Or.inl rfl) hl

end

variable (env) in
theorem resolve_dirText_clear {fs : FS} {p : Path} (hp : ∀ m ∈ p, Plain m) (hl : NoLinks fs p) :
    resolve env fs (dirText p) = .ok p ∨ ∃ e, resolve env fs (dirText p) = .error e := by
  have hne : dirText p ≠ [] := by simp [dirText]
  have habs := isAbsolute_dirText p []
  rw [List.append_nil] at habs
  rw [resolve, if_neg hne, startDir, if_pos habs, pathComps_dirText p hp, finalSlash_dirText]
  exact fs.walk_no_links readPath maxLinks p [.here] (Or.inr rfl) hl

/-! ## What changes -/

/-- Outside the user's directory nothing that is there changes, and what is new is in the store, below
the entry of the sign. -/
structure Kept (fl : Flags) (u s : Name) (fs fs' : FS) : Prop where
  old : ∀ q, ¬ fl.usrRoot ++ [u] <+: q → fs.node q ≠ none → fs'.node q = fs.node q
  new : ∀ q, ¬ fl.usrRoot ++ [u] <+: q → fs.node q = none → fs'.node q ≠ none →
    fl.filesRoot <+: q ∧ (fs.node fl.filesRoot = some .dir → fl.filesRoot ++ [s] <+: q)

/-- What holds until the parts are moved: only the user's directory has changed, and no link leads out
of it. -/
structure Own (fl : Flags) (request : NetDiskRequest) (fs fs' : FS) : Prop where
  outside : ∀ q, ¬ fl.usrRoot ++ [request.usr] <+: q → fs'.node q = fs.node q
  files : NoLinks fs' (fl.usrRoot ++ [request.usr, FILES])
  part : NoLinks fs' (partPath fl request)

section
variable {request : NetDiskRequest} {fs0 fs : FS}

theorem Own.kept (h : Own fl request fs0 fs) : Kept fl request.usr request.fileSign fs0 fs where
  old q hq _ := h.outside q hq
  new q hq hnone hsome := absurd hnone (by rwa [← h.outside q hq])

theorem Own.set (h : Own fl request fs0 fs) {p : Path} {fs' : FS} (hp : fl.usrRoot ++ [request.usr] <+: p)
    (hkeep : ∀ q, q ≠ p → fs'.node q = fs.node q) (hset : ∀ target, fs'.node p ≠ some (.link target)) :
    Own fl request fs0 fs' := by
  have hlinks : ∀ {r}, NoLinks fs r → NoLinks fs' r := by
    intro r hl q hq target
    by_cases he : q = p
    · rw [he]
      exact hset target
    · rw [hkeep q he]
      exact hl q hq target
  refine ⟨?_, hlinks h.files, hlinks h.part⟩
  intro q hq
  rw [hkeep q (by rintro rfl; exact hq hp)]
  exact h.outside q hq

theorem Own.put (h : Own fl request fs0 fs) {p : Path} {n : Node Bytes Bytes}
    (hp : fl.usrRoot ++ [request.usr] <+: p) (hcan : fs.CanPut p) (hn : ∀ target, n ≠ .link target) :
    Own fl request fs0 (fs.put p n hcan) := by
  apply h.set hp
  · intro q hq
    rw [FileTree.node_put, if_neg hq]
  · intro target ht
    rw [FileTree.node_put, if_pos rfl] at ht
    exact hn target (Option.some.inj ht)

theorem Own.erase (h : Own fl request fs0 fs) {p : Path} (hp : fl.usrRoot ++ [request.usr] <+: p)
    (hcan : fs.CanErase p) : Own fl request fs0 (fs.erase p hcan) := by
  apply h.set hp
  · intro q hq
    rw [FileTree.node_erase, if_neg hq]
  · intro target
    simp

theorem Kept.put {u s : Name} (h : Kept fl u s fs0 fs) {p : Path} {n : Node Bytes Bytes}
    (hp : fl.usrRoot ++ [u] <+: p) (hcan : fs.CanPut p) : Kept fl u s fs0 (fs.put p n hcan) := by
  have hkeep : ∀ q, ¬ fl.usrRoot ++ [u] <+: q → (fs.put p n hcan).node q = fs.node q := by
    intro q hq
    rw [FileTree.node_put, if_neg (by rintro rfl; exact hq hp)]
  constructor
  · intro q hq hsome
    rw [hkeep q hq]
    exact h.old q hq hsome
  · intro q hq hnone hsome
    rw [hkeep q hq] at hsome
    exact h.new q hq hnone hsome

/-! ## One operation at a time -/

section
variable {text : Bytes} {q : Path} (hq : fl.usrRoot ++ [request.usr] <+: q)
include hq

theorem mkdir_own (hloc : ∀ fs, Own fl request fs0 fs → locate env fs (cStr text) = .ok q ∨
    ∃ e, locate env fs (cStr text) = .error e) :
    Prog.Triple (exec env tid) (fun w => Own fl request fs0 w.fs) (FileSys.mkdir text)
      (fun _ w => Own fl request fs0 w.fs) := by
  unfold FileSys.mkdir
  refine Prog.Triple.bind (fun _ w => Own fl request fs0 w.fs) ?_ ?_
  · apply Prog.Triple.lift
    intro w hw
    simp only [exec, Machine.mkdir]
    rcases hloc w.fs hw with h | ⟨e, h⟩
    · rw [h]
      dsimp only
      split
      · rename_i hcan
        exact hw.put hq hcan.1 (by simp)
      · exact hw
    · rw [h]
      exact hw
  · intro err
    exact Prog.Triple.ite (fun _ => Prog.Triple.pure fun _ h => h) (fun _ => Prog.Triple.pure fun _ h => h)

theorem deleteFile_own (hloc : ∀ fs, Own fl request fs0 fs → locate env fs (cStr text) = .ok q ∨
    ∃ e, locate env fs (cStr text) = .error e) :
    Prog.Triple (exec env tid) (fun w => Own fl request fs0 w.fs) (deleteFile text)
      (fun _ w => Own fl request fs0 w.fs) := by
  unfold deleteFile
  refine Prog.Triple.bind (fun _ w => Own fl request fs0 w.fs) ?_ ?_
  · apply Prog.Triple.lift
    intro w hw
    simp only [exec, Machine.remove]
    rcases hloc w.fs hw with h | ⟨e, h⟩
    · rw [h]
      dsimp only
      split_ifs with hnone hcan
      · exact hw
      · exact hw.erase hq hcan
      · exact hw
    · rw [h]
      exact hw
  · intro err
    exact Prog.Triple.ite (fun _ => Prog.Triple.pure fun _ h => h) (fun _ => Prog.Triple.pure fun _ h => h)

/-- The file is open, and stays one. -/
def Opened (fl : Flags) (request : NetDiskRequest) (fs0 : FS) (q : Path) (fd : Nat) (w : World) : Prop :=
  Own fl request fs0 w.fs ∧ (∃ c, w.fs.node q = some (.file c)) ∧ ∃ o, w.fds fd = some ⟨some q, o⟩

/-- The file is open, or could not be opened. -/
def MayOpen (fl : Flags) (request : NetDiskRequest) (fs0 : FS) (q : Path) : Option Nat → World → Prop
  | none, w => Own fl request fs0 w.fs
  | some fd, w => Opened fl request fs0 q fd w

theorem write_opened {fd : Nat} {w : World} (buf : Bytes) (h : Opened fl request fs0 q fd w) :
    Opened fl request fs0 q fd (exec env tid (.write fd buf) w).2 := by
  obtain ⟨hown, ⟨c, hc⟩, o, ho⟩ := h
  simp only [exec, ho, writeFile, hc]
  refine ⟨?_, ?_, o + buf.length, by simp⟩
  · dsimp only
    split
    · exact hown.put hq _ (by simp)
    · exact hown
  · dsimp only
    split
    · simp
    · exact ⟨c, hc⟩

theorem writeLoop_opened (fd : Nat) (s : Bytes) (fuel len : Nat) :
    Prog.Triple (exec env tid) (Opened fl request fs0 q fd) (writeLoop fd s fuel len)
      (fun _ => Opened fl request fs0 q fd) := by
  induction fuel generalizing len with
  | zero => exact Prog.Triple.pure fun _ h => h
  | succ fuel ih =>
    unfold writeLoop
    apply Prog.Triple.ite
    · intro _
      refine Prog.Triple.bind (fun _ => Opened fl request fs0 q fd) ?_ fun _ => ih (len - writeLen)
      exact Prog.Triple.lift fun w hw => write_opened hq _ hw
    · exact fun _ => Prog.Triple.pure fun _ h => h

theorem write_own (str : Bytes) (hres : ∀ fs, Own fl request fs0 fs → resolve env fs (cStr text) = .ok q ∨
    ∃ e, resolve env fs (cStr text) = .error e) :
    Prog.Triple (exec env tid) (fun w => Own fl request fs0 w.fs) (write str text)
      (fun rt w => Own fl request fs0 w.fs ∧ (rt = 0 → ∃ c, w.fs.node q = some (.file c))) := by
  unfold write
  refine Prog.Triple.bind (MayOpen fl request fs0 q) ?_ ?_
  · apply Prog.Triple.lift
    intro w hw
    simp only [exec, openFile]
    rcases hres w.fs hw with h | ⟨e, h⟩
    · rw [h]
      cases hnode : w.fs.node q with
      | none =>
        by_cases hcan : w.fs.CanPut q
        · simp only [hnode, dif_pos hcan]
          exact ⟨hw.put hq hcan (by simp), ⟨[], by simp⟩, 0, by simp⟩
        · simp only [hnode, dif_neg hcan]
          exact hw
      | some n =>
        cases n with
        | file c =>
          simp only [hnode]
          exact ⟨hw, ⟨c, hnode⟩, 0, by simp⟩
        | dir => simpa only [hnode, MayOpen] using hw
        | link target => simpa only [hnode, MayOpen] using hw
    · rw [h]
      exact hw
  · intro fd
    cases fd with
    | none => exact Prog.Triple.pure fun _ h => ⟨h, by simp⟩
    | some fd =>
      refine Prog.Triple.bind _ (writeLoop_opened hq fd _ _ _) fun len => ?_
      refine Prog.Triple.bind (fun _ => Opened fl request fs0 q fd) (Prog.Triple.lift fun w hw => write_opened hq _ hw) fun _ => ?_
      exact fun w hw => ⟨hw.1, fun _ => hw.2.1⟩

end

/-! ## The move -/

variable {w : World} {c : Bytes}

theorem locate_store (hroot : NoLinks fs fl.filesRoot) {d : Path} (h : locate env fs fl.filesDir = .ok d) :
    d = fl.filesRoot := by
  have hne : fl.filesRoot ≠ [] := by
    intro he
    exact fl.disjoint.2 (by simp [he])
  have hplain := fl.files_plain
  unfold Flags.filesDir at h
  rw [← List.dropLast_append_getLast hne] at h hroot hplain ⊢
  have hp : ∀ m ∈ fl.filesRoot.dropLast, Plain m := fun m hm => hplain m (List.mem_append_left _ hm)
  have hn : Plain (fl.filesRoot.getLast hne) := hplain _ (by simp)
  rw [locate_dirText env fs _ _ hp hn] at h
  rcases locate_clear env hp hn fun r hr => hroot r (hr.trans (List.prefix_append _ _)) with hl | ⟨e, hl⟩
  · rw [hl] at h
    exact (Except.ok.inj h).symm
  · rw [hl] at h
    cases h

theorem mvTarget_store (hroot : NoLinks fs fl.filesRoot) {d : Path}
    (h : mvTarget env fs (fl.usrRoot ++ [request.usr, TMP, request.fileSign]) fl.filesDir = .ok d) :
    (d = fl.filesRoot ∨ d = fl.filesRoot ++ [request.fileSign]) ∧
      (fs.node fl.filesRoot = some .dir → d = fl.filesRoot ++ [request.fileSign]) ∧
      (d = fl.filesRoot → fs.node fl.filesRoot ≠ some .dir) := by
  unfold mvTarget at h
  by_cases hd : fs.node fl.filesRoot = some .dir
  · have hdir : isDir env fs fl.filesDir = some fl.filesRoot := by
      simp only [isDir, Flags.filesDir, resolve_dir fl.files_plain hd, hd, if_true]
    have hlast : (fl.usrRoot ++ [request.usr, TMP, request.fileSign]).getLast? = some request.fileSign := by simp
    rw [hdir, hlast] at h
    obtain rfl := Except.ok.inj h
    exact ⟨Or.inr rfl, fun _ => rfl, by simp⟩
  · have hdir : isDir env fs fl.filesDir = none := by
      unfold isDir Flags.filesDir
      rcases resolve_dirText_clear env fl.files_plain hroot with hr | ⟨e, hr⟩
      · simp only [hr, if_neg hd]
      · simp only [hr]
    rw [hdir] at h
    exact ⟨Or.inl (locate_store hroot h), fun h => absurd h hd, fun _ => hd⟩

theorem Own.move (h : Own fl request fs0 fs) {d : Path}
    (hd : d = fl.filesRoot ∨ d = fl.filesRoot ++ [request.fileSign])
    (hstore : fs.node fl.filesRoot = some .dir → d = fl.filesRoot ++ [request.fileSign]) (hnone : fs.node d = none)
    (hcan : fs.CanMove (fl.usrRoot ++ [request.usr, TMP, request.fileSign]) d) :
    Kept fl request.usr request.fileSign fs0 (fs.move _ d hcan) ∧
      NoLinks (fs.move _ d hcan) (fl.usrRoot ++ [request.usr, FILES]) := by
  have hpre : fl.filesRoot <+: d := by
    rcases hd with rfl | rfl
    · exact List.prefix_rfl
    · exact List.prefix_append _ _
  have hsrc : ∀ q, ¬ fl.usrRoot ++ [request.usr] <+: q →
      ¬ fl.usrRoot ++ [request.usr, TMP, request.fileSign] <+: q := by
    intro q hq hp
    exact hq (List.IsPrefix.trans ⟨[TMP, request.fileSign], by simp⟩ hp)
  refine ⟨⟨?_, ?_⟩, ?_⟩
  · intro q hq hsome
    have hdq : ¬ d <+: q := by
      rintro ⟨r, rfl⟩
      rw [← h.outside _ hq] at hsome
      by_cases hr : r = []
      · simp [hr, hnone] at hsome
      · exact hsome (fs.none_below (by simp [hnone]) hr)
    rw [FileTree.node_move, if_neg hdq, if_neg (hsrc q hq)]
    exact h.outside q hq
  · intro q hq hq0 hsome
    rw [FileTree.node_move, if_neg (hsrc q hq)] at hsome
    split at hsome
    · rename_i hdq
      refine ⟨hpre.trans hdq, fun hdir => ?_⟩
      have hout : ¬ fl.usrRoot ++ [request.usr] <+: fl.filesRoot := by
        simpa using fl.not_usr_prefix_files [request.usr] []
      rw [← h.outside _ hout] at hdir
      exact hstore hdir ▸ hdq
    · rw [h.outside q hq] at hsome
      exact absurd hq0 hsome
  · intro r hr target
    have hdr : ¬ d <+: r := by
      intro hp
      exact fl.not_files_prefix_usr [request.usr, FILES] [] (by simpa using hpre.trans (hp.trans hr))
    rw [FileTree.node_move, if_neg hdr]
    split
    · simp
    · exact h.files r hr target

theorem mv_own {w : World} {c : Bytes} (hu : Plain request.usr) (hsg : Plain request.fileSign)
    (hroot : NoLinks fs0 fl.filesRoot) (hnot : fs0.node (fl.filesRoot ++ [request.fileSign]) ≠ some .dir)
    (hw : Own fl request fs0 w.fs) (hc : w.fs.node (partPath fl request) = some (.file c)) :
    Kept fl request.usr request.fileSign fs0
        (mv env w (dirText (fl.usrRoot ++ [request.usr, TMP]) ++ request.fileSign) fl.filesDir).fs ∧
      NoLinks (mv env w (dirText (fl.usrRoot ++ [request.usr, TMP]) ++ request.fileSign) fl.filesDir).fs
        (fl.usrRoot ++ [request.usr, FILES]) := by
  have hstay := And.intro hw.kept hw.files
  have hdir : w.fs.node (fl.usrRoot ++ [request.usr, TMP, request.fileSign]) = some .dir :=
    w.fs.dir_above _ [toString request.partIndex.toNat] (by simp) (by rw [← partPath_eq, hc]; simp)
  have hplace : fl.usrRoot ++ [request.usr, TMP] ++ [request.fileSign] =
      fl.usrRoot ++ [request.usr, TMP, request.fileSign] := by simp
  have hroot' : NoLinks w.fs fl.filesRoot := by
    intro r hr target
    rw [hw.outside r fun hp => fl.not_usr_prefix_files [request.usr] [] (by simpa using hp.trans hr)]
    exact hroot r hr target
  have hnot' : w.fs.node (fl.filesRoot ++ [request.fileSign]) ≠ some .dir := by
    rw [hw.outside _ (fl.not_usr_prefix_files _ _)]
    exact hnot
  unfold mv mvPaths
  have hclear : NoLinks w.fs (fl.usrRoot ++ [request.usr, TMP]) :=
    fun r hr => hw.part r (hr.trans ⟨[request.fileSign, toString request.partIndex.toNat], by simp [partPath]⟩)
  rcases locate_clear env (plain_tmp fl hu) hsg hclear with hl | ⟨e, hl⟩
  swap
  · simp only [hl]
    exact hstay
  simp only [hl, hplace, hdir]
  rw [if_neg (by simp)]
  cases htarget : mvTarget env w.fs (fl.usrRoot ++ [request.usr, TMP, request.fileSign]) fl.filesDir with
  | error e => exact hstay
  | ok d =>
    obtain ⟨hd, hstore, hroot⟩ := mvTarget_store hroot' htarget
    have hdd : w.fs.node d ≠ some .dir := by
      rcases hd with rfl | rfl
      · exact hroot rfl
      · exact hnot'
    by_cases hrep : mvReplaces w.fs (fl.usrRoot ++ [request.usr, TMP, request.fileSign]) d
    · -- A directory replaces no file, so nothing is there yet.
      have hnone : w.fs.node d = none := hrep.resolve_right fun h => hdd (h.mp hdir)
      simp only [if_pos hrep]
      split
      · rename_i hcan
        exact hw.move hd hstore hnone hcan
      · exact hstay
    · simp only [if_neg hrep]
      exact hstay

/-! ## The call, part by part -/

theorem countLink_reads (P : FS → Prop) (sign fileName : Bytes) :
    Prog.Triple (exec env tid) (fun w => P w.fs) (countLink sign fileName) (fun _ w => P w.fs) := by
  intro w hw
  obtain ⟨_, hfs, _⟩ := countLink_spec sign fileName w rfl rfl
  rw [hfs]
  exact hw

theorem lsDir_reads (P : World → Prop) (dir : Bytes) :
    Prog.Triple (exec env tid) P (lsDir dir) (fun _ => P) := by
  unfold lsDir
  refine Prog.Triple.bind (fun _ => P) (Prog.Triple.lift fun w hw => hw) ?_
  intro names
  cases names <;> exact Prog.Triple.pure fun _ h => h

variable (response : NetDiskResponse) (hu : Plain request.usr) (hsg : Plain request.fileSign)
include hu hsg

theorem linkToUsr_kept (target sign fileName : Bytes) :
    Prog.Triple (exec env tid) (fun w => Kept fl request.usr request.fileSign fs0 w.fs ∧
        NoLinks w.fs (fl.usrRoot ++ [request.usr, FILES]))
      (linkToUsr target (linkPath fl request) sign fileName)
      (fun _ w => Kept fl request.usr request.fileSign fs0 w.fs) := by
  rw [linkPath_text]
  unfold linkToUsr link
  refine Prog.Triple.bind (fun _ w => Kept fl request.usr request.fileSign fs0 w.fs) ?_ ?_
  · refine Prog.Triple.bind (fun _ w => Kept fl request.usr request.fileSign fs0 w.fs) ?_ ?_
    · apply Prog.Triple.lift
      rintro w ⟨hw, hl⟩
      simp only [exec, symlink, cStr_name (plain_files fl hu) hsg]
      by_cases htarget : cStr target = []
      · rw [if_pos htarget]
        exact hw
      rw [if_neg htarget]
      rcases locate_clear env (plain_files fl hu) hsg hl with h | ⟨e, h⟩
      · simp only [h]
        split_ifs with hcan hslash
        · exact hw.put ⟨[FILES, request.fileSign], by simp⟩ hcan.1
        · exact hw
        · exact hw
      · simp only [h]
        exact hw
    · intro err
      exact Prog.Triple.ite (fun _ => Prog.Triple.pure fun _ h => h) (fun _ => Prog.Triple.pure fun _ h => h)
  · intro rt
    exact Prog.Triple.ite (fun _ => Prog.Triple.pure fun _ h => h) fun _ => countLink_reads _ sign fileName

omit hu hsg in
theorem answer_kept (response : NetDiskResponse) :
    Prog.Triple (exec env tid) (fun w => Kept fl request.usr request.fileSign fs0 w.fs) (.pure response)
      (fun _ w => Kept fl request.usr request.fileSign fs0 w.fs) := Prog.Triple.pure fun _ h => h

variable (hroot : NoLinks fs0 fl.filesRoot) (hnot : fs0.node (fl.filesRoot ++ [request.fileSign]) ≠ some .dir)

section
include hroot hnot

theorem publish_kept : Prog.Triple (exec env tid)
    (fun w => Own fl request fs0 w.fs ∧ ∃ c, w.fs.node (partPath fl request) = some (.file c))
    (publish fl request response) (fun _ w => Kept fl request.usr request.fileSign fs0 w.fs) := by
  unfold publish shellOut
  refine Prog.Triple.bind (fun _ w => Kept fl request.usr request.fileSign fs0 w.fs ∧
    NoLinks w.fs (fl.usrRoot ++ [request.usr, FILES])) ?_ ?_
  · apply Prog.Triple.lift
    rintro w ⟨hw, c, hc⟩
    obtain ⟨hcmd, hwords⟩ := mvCmd_words fl hu hsg
    simp only [exec, hcmd, Machine.shell, hwords, if_true]
    exact mv_own hu hsg hroot hnot hw hc
  · intro shellRes
    refine Prog.Triple.ite (fun _ => Prog.Triple.pure fun _ h => h.1) fun _ => ?_
    refine Prog.Triple.bind _ (linkToUsr_kept hu hsg _ _ _) fun rt => ?_
    exact Prog.Triple.ite (fun _ => answer_kept _) fun _ => answer_kept _

end

theorem md5Sum_reads (P : World → Prop) :
    Prog.Triple (exec env tid) P (md5Sum (filePath fl request)) (fun _ => P) := by
  rw [filePath_text]
  unfold md5Sum shellOut
  refine Prog.Triple.bind (fun _ => P) ?_ ?_
  · apply Prog.Triple.lift
    intro w hw
    simp only [exec, md5Cmd_words (plain_signDir fl hu hsg) (plain_toString _), Machine.shell, if_true]
    exact hw
  · intro res
    cases res <;> exact Prog.Triple.pure fun _ h => h

section
include hroot hnot

theorem checkSign_kept : Prog.Triple (exec env tid)
    (fun w => Own fl request fs0 w.fs ∧ ∃ c, w.fs.node (partPath fl request) = some (.file c))
    (checkSign fl request response) (fun _ w => Kept fl request.usr request.fileSign fs0 w.fs) := by
  unfold checkSign checkArrived allPartArrived
  refine Prog.Triple.bind _ (md5Sum_reads hu hsg _) fun curMd5 => ?_
  cases curMd5 with
  | none => exact Prog.Triple.pure fun _ h => h.1.kept
  | some curMd5 =>
    refine Prog.Triple.ite (fun _ => Prog.Triple.pure fun _ h => h.1.kept) fun _ => ?_
    refine Prog.Triple.bind (fun _ w => Own fl request fs0 w.fs ∧
      ∃ c, w.fs.node (partPath fl request) = some (.file c)) ?_ ?_
    · exact Prog.Triple.bind _ (lsDir_reads _ _) fun _ => Prog.Triple.pure fun _ h => h
    · intro arrived
      exact Prog.Triple.ite (fun _ => publish_kept response hu hsg hroot hnot)
        fun _ => Prog.Triple.pure fun _ h => h.1.kept

end

omit hu hsg in
theorem own_prefix_part : fl.usrRoot ++ [request.usr] <+: partPath fl request :=
  ⟨[TMP, request.fileSign, toString request.partIndex.toNat], by simp [partPath]⟩

theorem resolve_part (fs : FS) (hw : Own fl request fs0 fs) :
    resolve env fs (cStr (filePath fl request)) = .ok (partPath fl request) ∨
      ∃ e, resolve env fs (cStr (filePath fl request)) = .error e := by
  have hpart := hw.part
  rw [partPath_eq] at hpart ⊢
  rw [filePath_text, cStr_name (plain_signDir fl hu hsg) (plain_toString _)]
  exact resolve_clear env (plain_signDir fl hu hsg) (plain_toString _) hpart

theorem locate_part (fs : FS) (hw : Own fl request fs0 fs) :
    locate env fs (cStr (filePath fl request)) = .ok (partPath fl request) ∨
      ∃ e, locate env fs (cStr (filePath fl request)) = .error e := by
  have hpart := hw.part
  rw [partPath_eq] at hpart ⊢
  rw [filePath_text, cStr_name (plain_signDir fl hu hsg) (plain_toString _)]
  exact locate_clear env (plain_signDir fl hu hsg) (plain_toString _)
    fun r hr => hpart r (hr.trans (List.prefix_append _ _))

theorem makeTmpDirs_own : Prog.Triple (exec env tid) (fun w => Own fl request fs0 w.fs)
    (makeTmpDirs fl request) (fun _ w => Own fl request fs0 w.fs) := by
  have husr := plain_snoc fl.usr_plain hu
  have hsign := plain_snoc (plain_tmp fl hu) hsg
  have hclear : ∀ {fs}, Own fl request fs0 fs → ∀ {p}, p <+: partPath fl request → NoLinks fs p :=
    fun hw _ hp r hr => hw.part r (hr.trans hp)
  unfold makeTmpDirs
  refine Prog.Triple.bind _ (mkdir_own (q := fl.usrRoot ++ [request.usr]) List.prefix_rfl ?_) fun rt => ?_
  · intro fs hw
    rw [Flags.usrDir, cStr_name fl.usr_plain hu]
    exact locate_clear env fl.usr_plain hu (hclear hw ((List.prefix_append _ _).trans own_prefix_part))
  refine Prog.Triple.ite (fun _ => Prog.Triple.pure fun _ h => h) fun _ => ?_
  rw [signDir_slash_text, usrUploadDir_text]
  refine Prog.Triple.bind _ (mkdir_own (q := fl.usrRoot ++ [request.usr] ++ [TMP]) (List.prefix_append _ _) ?_)
    fun rt => ?_
  · intro fs hw
    rw [cStr_dirText (plain_snoc husr plain_TMP), locate_dirText env fs _ _ husr plain_TMP]
    exact locate_clear env husr plain_TMP (hclear hw own_prefix_part)
  refine Prog.Triple.ite (fun _ => Prog.Triple.pure fun _ h => h) fun _ => ?_
  refine Prog.Triple.bind _ (mkdir_own (q := fl.usrRoot ++ [request.usr, TMP] ++ [request.fileSign])
    ⟨[TMP, request.fileSign], by simp⟩ ?_) fun rt => Prog.Triple.pure fun _ h => h
  intro fs hw
  rw [cStr_dirText hsign, locate_dirText env fs _ _ (plain_tmp fl hu) hsg]
  exact locate_clear env (plain_tmp fl hu) hsg
    (hclear hw ⟨[request.fileSign, toString request.partIndex.toNat], by simp [partPath]⟩)

section
include hroot hnot

theorem writePart_kept : Prog.Triple (exec env tid) (fun w => Own fl request fs0 w.fs)
    (writePart fl request response) (fun _ w => Kept fl request.usr request.fileSign fs0 w.fs) := by
  unfold writePart
  refine Prog.Triple.bind _ (write_own own_prefix_part request.body (resolve_part hu hsg)) fun rt => ?_
  by_cases hrt : rt = 0
  · rw [if_neg (by simpa using hrt)]
    intro w hw
    exact checkSign_kept response hu hsg hroot hnot w ⟨hw.1, hw.2 hrt⟩
  · rw [if_pos hrt]
    exact Prog.Triple.pure fun _ h => h.1.kept

theorem storePart_kept : Prog.Triple (exec env tid) (fun w => Own fl request fs0 w.fs)
    (storePart fl request response) (fun _ w => Kept fl request.usr request.fileSign fs0 w.fs) := by
  unfold storePart existingPart existFile
  refine Prog.Triple.bind (fun _ w => Own fl request fs0 w.fs) (Prog.Triple.lift fun w hw => hw) fun exist => ?_
  refine Prog.Triple.ite (fun _ => ?_) fun _ => writePart_kept response hu hsg hroot hnot
  refine Prog.Triple.bind _ (md5Sum_reads hu hsg _) fun curMd5 => ?_
  cases curMd5 with
  | none => exact Prog.Triple.pure fun _ h => h.kept
  | some curMd5 =>
    refine Prog.Triple.ite (fun _ => writePart_kept _ hu hsg hroot hnot) fun _ => ?_
    refine Prog.Triple.bind _ (deleteFile_own own_prefix_part (locate_part hu hsg)) fun _ => ?_
    exact writePart_kept response hu hsg hroot hnot

end

omit hu in
theorem existDir_own : Prog.Triple (exec env tid) (fun w => Own fl request fs0 w.fs)
    (existDir (fileDir fl request)) (fun stored w => Own fl request fs0 w.fs ∧
      (stored = false → fs0.node (fl.filesRoot ++ [request.fileSign]) ≠ some .dir)) := by
  unfold existDir
  apply Prog.Triple.lift
  intro w hw
  refine ⟨hw, fun hstored hdir => ?_⟩
  rw [← hw.outside _ (fl.not_usr_prefix_files _ _)] at hdir
  have hparent := w.fs.parent_dir _ _ (by rw [hdir]; simp)
  have hfound : isDir env w.fs (dirText fl.filesRoot ++ request.fileSign) = some (fl.filesRoot ++ [request.fileSign]) := by
    rw [isDir_name fl.files_plain hsg hparent (by simp [hdir]), if_pos hdir]
  simp only [exec, fileDir_cStr fl hsg] at hstored
  unfold fileDir Flags.filesDir at hstored
  rw [hfound] at hstored
  simp at hstored

variable (env tid) in
include hroot in
theorem Do_kept : Prog.Triple (exec env tid) (fun w => Own fl request fs0 w.fs)
    (Do fl request response) (fun _ w => Kept fl request.usr request.fileSign fs0 w.fs) := by
  have husr := plain_snoc fl.usr_plain hu
  unfold Do speedUpload
  rw [usrFiles_text]
  refine Prog.Triple.bind _ (mkdir_own (q := fl.usrRoot ++ [request.usr] ++ [FILES]) (List.prefix_append _ _) ?_)
    fun rt => ?_
  · intro fs hw
    rw [cStr_name husr plain_FILES]
    exact locate_clear env husr plain_FILES fun r hr => hw.files r (hr.trans ⟨[FILES], by simp⟩)
  refine Prog.Triple.ite (fun _ => Prog.Triple.pure fun _ h => h.kept) fun _ => ?_
  refine Prog.Triple.bind _ (existDir_own hsg) fun stored => ?_
  cases stored with
  | true =>
    rw [if_pos rfl]
    refine Prog.Triple.bind (fun _ w => Kept fl request.usr request.fileSign fs0 w.fs) ?_ fun rt => ?_
    · exact fun w hw => linkToUsr_kept hu hsg _ _ _ w ⟨hw.1.kept, hw.1.files⟩
    · exact Prog.Triple.ite (fun _ => answer_kept _) fun _ => answer_kept _
  | false =>
    rw [if_neg (by simp)]
    intro w hw
    have hrest : Prog.Triple (exec env tid) (fun w => Own fl request fs0 w.fs) (uploadPart fl request response)
        (fun _ w => Kept fl request.usr request.fileSign fs0 w.fs) := by
      refine Prog.Triple.bind _ (makeTmpDirs_own hu hsg) fun made => ?_
      exact Prog.Triple.ite (fun _ => storePart_kept response hu hsg hroot (hw.2 rfl))
        fun _ => Prog.Triple.pure fun _ h => h.kept
    exact hrest w hw.1

end

/-! ## What a request touches -/

/-- Whatever the operations reply, they name entries of the user only, but for the move into the store; and
where no symbolic link leads out of the two directories, nothing else changes. -/
theorem upload_confined (request : NetDiskRequest) (response : NetDiskResponse) (hu : Plain request.usr)
    (hsg : Plain request.fileSign) :
    (Do fl request response).Uses (NamesOwn fl request.usr request.fileSign) ∧
    ∀ (env : Env) (tid : Nat) (w : World), NoLinks w.fs fl.filesRoot →
      NoLinks w.fs (fl.usrRoot ++ [request.usr, FILES]) → NoLinks w.fs (partPath fl request) →
      Kept fl request.usr request.fileSign w.fs ((Do fl request response).run (exec env tid) w).2.fs ∧
      ∀ v q, v ≠ request.usr → fl.usrRoot ++ [v] <+: q →
        ((Do fl request response).run (exec env tid) w).2.fs.node q = w.fs.node q := by
  refine ⟨Do_uses response hu hsg, fun env tid w hroot hfiles hpart => ?_⟩
  have hkept := Do_kept env tid response hu hsg hroot w ⟨fun _ _ => rfl, hfiles, hpart⟩
  refine ⟨hkept, ?_⟩
  intro v q hv hq
  have hother : ¬ fl.usrRoot ++ [request.usr] <+: q := by
    intro hp
    obtain ⟨r, rfl⟩ := hq
    simp only [List.append_assoc, List.prefix_append_right_inj, List.cons_append, List.nil_append,
      List.cons_prefix_cons, List.nil_prefix, and_true] at hp
    exact hv hp.symm
  by_cases hnone : w.fs.node q = none
  · rw [hnone]
    by_contra hsome
    obtain ⟨hpre, _⟩ := hkept.new q hother hnone hsome
    obtain ⟨r, rfl⟩ := hq
    exact fl.not_files_prefix_usr ([v] ++ r) [] (by simpa using hpre)
  · exact hkept.old q hother hnone

theorem start_noLinks (fl : Flags) (users : List Name) (p : Path) : NoLinks (start fl users).fs p := by
  intro r _ target h
  change (if _ then _ else _) = _ at h
  split at h <;> simp at h

/-- The first part of a file of two. -/
def firstPart : NetDiskRequest := TwoParts.request "alice" 0 "a"

theorem upload_confined_part : Kept .short firstPart.usr firstPart.fileSign TwoParts.world.fs
    ((Do .short firstPart .empty).run (exec .bare 0) TwoParts.world).2.fs :=
  ((upload_confined firstPart .empty (by decide +kernel) (by decide +kernel)).2 .bare 0 TwoParts.world
    (start_noLinks _ _ _) (start_noLinks _ _ _) (start_noLinks _ _ _)).1

/-- A user name that leads through another user's directory. -/
def throughAlice : NetDiskRequest := TwoParts.request "alice/../bob" 0 "a"

/-- A directory is made for `bob`, who did not ask. -/
theorem dotdot_reaches_other : ¬ ∀ v q, v ≠ throughAlice.usr → Flags.short.usrRoot ++ [v] <+: q →
    (handle .bare .short TwoParts.world throughAlice).2.fs.node q = TwoParts.world.fs.node q := by
  intro h
  exact absurd (h (ascii "bob") (Flags.short.usrRoot ++ [ascii "bob", FILES]) (by decide) ⟨[FILES], by simp⟩)
    (by decide +kernel)

end NetDisk
