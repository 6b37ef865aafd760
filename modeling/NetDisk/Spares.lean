import NetDisk.Felt
import NetDisk.Stable

/-!
# Which requests leave nothing open

In the layout of the server, and for plain names: the condition on a request, on the disk before it, on what goes wrong
with each of its operations and on how many descriptors are left.
-/

namespace NetDisk

open Prog Machine

namespace Host

/-! ## The condition -/

section
variable (free : Nat) (request : NetDiskRequest)

open UploadRpc FileSys

/-- What `ShellOut` makes of a `mv`, which prints nothing itself. -/
def printed (fault : Option Fault) : Bytes := (fault.bind Fault.text).getD []

/-- The directory of the parts does not open. No parts are enough when `shard` is 0: then the `mv` prints something, or
the link or the `SELECT` fails. -/
def ListSpares (faults : Nat → Option Fault) : Prop :=
  felt free 1 (faults 0) ≠ none ∧
    (shardSize request.shard = 0 → printed (felt free 2 (faults 1)) ≠ [] ∨ faults 2 ≠ none ∨ faults 3 ≠ none)

/-- How many times `write` is called. -/
def writes : Nat := rounds (intLen (cStr request.body).length) + 1

/-- The file cannot be opened; or it does not have the digest after the write; or the count spares handles. -/
def WriteSpares (faults : Nat → Option Fault) (old : Option Bytes) : Prop :=
  felt free 1 (faults 0) = none →
    seen (felt free 2 (faults (writes request + 2))) (overlay (old.getD []) (landed request.body (later faults))) =
      some request.partSign →
    ListSpares free request fun k => faults (k + (writes request + 3))

/-- The same with the question whether the part is there, and the digest and the removal of one that is. -/
def PartSpares (faults : Nat → Option Fault) : Option Bytes → Prop
  | none => WriteSpares free request (later faults) none
  | some c =>
    if faults 0 ≠ none then WriteSpares free request (later faults) (some c)
    else match seen (felt free 2 (faults 1)) c with
      | none => True
      | some sum =>
        if sum = request.partSign then WriteSpares free request (later (later faults)) (some c)
        else WriteSpares free request (later (later (later faults))) (if faults 2 = none then none else some c)

/-- The first `mkdir` fails, or there is no user; or the stored file does not open, and one of the other three `mkdir`s
fails or the part spares handles. -/
def Sparing (faults : Nat → Option Fault) (d : Disk) : Prop :=
  faults 0 ≠ none ∨ d.user request.usr = false ∨
    (felt free 1 (faults 1) ≠ none ∨ d.stored request.fileSign = false) ∧
      (faults 2 ≠ none ∨ faults 3 ≠ none ∨ faults 4 ≠ none ∨
        PartSpares free request (fun k => faults (k + 5))
          (d.part request.usr request.fileSign request.partIndex.toNat))

/-! ### Where nothing goes wrong -/

section
variable {free request}

theorem felt_quiet {n : Nat} (hfree : n ≤ free) : felt free n none = none := if_neg (Nat.not_lt.mpr hfree)

theorem writeSpares_quiet (hfree : 2 ≤ free) (old : Option Bytes) : WriteSpares free request (fun _ => none) old ↔
    Md5.hexDigest (overlay (old.getD []) (written request.body)) ≠ request.partSign := by
  unfold WriteSpares ListSpares
  rw [felt_quiet (by omega), felt_quiet hfree, imp_iff_right rfl, show later (fun _ => none) = fun _ => none from rfl,
    landed_quiet]
  constructor
  · exact fun h hsum => (h (congrArg some hsum)).1 rfl
  · exact fun h hsum => absurd (Option.some.inj hsum) h

theorem partSpares_quiet (hfree : 2 ≤ free) (old : Option Bytes) : PartSpares free request (fun _ => none) old ↔
    Md5.hexDigest ((Part.of request).content old) ≠ request.partSign := by
  have hnew : WriteSpares free request (fun _ => none) none ↔ Md5.hexDigest (written request.body) ≠ request.partSign := by
    rw [writeSpares_quiet hfree, Option.getD_none, overlay_nil_old]
  cases old with
  | none => exact hnew
  | some c =>
    rw [PartSpares, if_neg (by simp), felt_quiet hfree]
    dsimp only [seen]
    by_cases hgood : Md5.hexDigest c = request.partSign
    · rw [if_pos hgood, Part.content_good hgood]
      exact writeSpares_quiet hfree (some c)
    · rw [if_neg hgood, Part.content_bad hgood, if_pos rfl]
      exact hnew

/-- Where nothing goes wrong, the user has no directory, or the file is not stored and the part does not have its
digest. -/
theorem sparing_quiet (hfree : 2 ≤ free) (d : Disk) : Sparing free request (fun _ => none) d ↔
    d.user request.usr = false ∨
      d.stored request.fileSign = false ∧ Md5.hexDigest (d.content (Part.of request)) ≠ request.partSign := by
  unfold Sparing
  rw [partSpares_quiet hfree, felt_quiet (by omega), Disk.content_eq]
  simp only [ne_eq, not_true_eq_false, false_or]
  rfl

end

end

variable {limit : Nat} {env : Env} {tid : Nat} {α β : Type} {free : Nat} {fs fs' : FS} {faults : Nat → Option Fault}
  {s : Host} {X : Prop}

/-! ## `UploadRpc::Do` -/

section
variable {fl : Flags} {request : NetDiskRequest} (response : NetDiskResponse) (hu : Plain request.usr)
  (hsg : Plain request.fileSign)

open UploadRpc FileSys Mmysql

/-! ### The directories and the `SELECT` -/

theorem mkdir_step {path : Bytes} {f : Int → Code β} (hs : On limit free fs faults s)
    (hends : Ends env tid (FileSys.mkdir path) fs s.machine.world.db 0 fs' s.machine.world.db)
    (hbad : ∀ s', left limit env tid (f (-1)) s' = 0)
    (h : ∀ s', On limit free fs' (later faults) s' → (left limit env tid (f 0) s' = 0 ↔ X)) :
    left limit env tid (FileSys.mkdir path >>= f) s = 0 ↔ faults 0 ≠ none ∨ X := by
  by_cases h0 : faults 0 = none
  · rw [or_iff_right (not_not.mpr h0)]
    exact hs.quiet (mkdir_helper limit env tid path) (mkdir_one _) hends ((felt_zero _ _).trans h0) h
  · obtain ⟨f, hf⟩ := Option.ne_none_iff_exists'.mp h0
    have hrun := mkdir_fails env tid s.machine.world hf path
    rw [← first_zero free faults] at hrun
    exact hs.step (mkdir_helper limit env tid path) hrun fun s' _ => iff_of_true (hbad s') (Or.inl h0)

/-! ### The link -/

theorem selects_iff {cmd : Bytes} (hexec : ∀ w, ∃ rows w', Machine.exec env tid (.query cmd) w = (true, w') ∧
    w'.pending tid = some rows) (hs : On limit free fs faults s) :
    (∀ s', Gives limit env tid (runQuery cmd) s 0 s' → s'.machine.world.pending tid = none) ↔ faults 0 ≠ none := by
  have hquery := runQuery_helper limit env tid cmd
  have hgives : ∀ {rt : Int} {w' : World}, (runQuery cmd).run (faulty anyFails env tid) ⟨s.machine.world, faults⟩ =
      (rt, ⟨w', later faults⟩) → ∃ s', Gives limit env tid (runQuery cmd) s rt s' ∧ s'.machine.world = w' := by
    intro rt w' hrun
    rw [← first_zero free faults] at hrun
    obtain ⟨s', hgives, -, hworld⟩ := hs.gives hquery.first (hquery.tidy s) hquery.balanced hrun
    exact ⟨s', hgives, hworld⟩
  cases h0 : faults 0 with
  | none =>
    refine iff_of_false (fun h => ?_) (by simp)
    obtain ⟨rows, w', hexec, hrows⟩ := hexec s.machine.world
    obtain ⟨s', hzero, hworld⟩ := hgives (RegisterView.runQuery_none env tid h0 hexec)
    have hpending := h s' hzero
    rw [hworld, hrows] at hpending
    cases hpending
  | some f =>
    refine iff_of_true (fun s' hzero => ?_) (by simp)
    obtain ⟨s'', hone, -⟩ := hgives (RegisterView.runQuery_some env tid h0 rfl)
    cases congrArg Prod.fst (hzero.symm.trans hone)

theorem countLink_spares {sign : Name} (hsign : SqlText.litSafe sign = true) (fileName : Bytes)
    (hs : On limit free fs faults s) : left limit env tid (countLink sign fileName) s = 0 ↔ faults 0 ≠ none := by
  rw [countLink_left]
  refine selects_iff (fun w => ?_) hs
  obtain ⟨rows, hexec, -⟩ := exec_select env hsign tid w
  exact ⟨rows, _, hexec, Function.update_self _ _ _⟩

include hsg

theorem linkToUsr_spares (hs : On limit free fs faults s) (hplain : Plain request.usr)
    (hfiles : fs.node (fl.usrRoot ++ [request.usr, FILES]) = some .dir) : left limit env tid
    (linkToUsr (fileDir fl request) (linkPath fl request) request.fileSign request.fileName) s = 0 ↔
      faults 0 ≠ none ∨ faults 1 ≠ none := by
  have hhelper := link_helper limit env tid (fileDir fl request) (linkPath fl request)
  change left limit env tid (link (fileDir fl request) (linkPath fl request) >>= fun rt =>
    if rt ≠ 0 then .pure (-1) else countLink request.fileSign request.fileName) s = 0 ↔ _
  cases h0 : faults 0 with
  | none =>
    have hlink := link_ensures env tid s.machine.world.db (plain_files fl hplain) hsg (fileDir_cStr fl hsg)
      (fileDir_ne_nil fl request) hfiles
    rw [← linkPath_text] at hlink
    refine hs.quiet hhelper (link_one _ _) hlink ?_ fun s' hs' => ?_
    · rw [felt_zero, h0]
    · rw [if_neg (by simp), or_iff_right (by simp)]
      exact countLink_spares hsg.litSafe request.fileName hs'
  | some f =>
    have hrun := UploadRpc.link_fails env tid s.machine.world h0 (fileDir fl request) (linkPath fl request)
    rw [← first_zero free faults] at hrun
    refine hs.step hhelper hrun fun s' _ => ?_
    rw [if_pos (by decide)]
    exact iff_of_true rfl (Or.inl (by simp))

/-! ### The `mv` and the count -/

omit hsg in
variable (env tid) in
theorem mv_faulty {w : World} (hshape : Shape fl w.fs) (hu : Plain request.usr) (hsg : Plain request.fileSign)
    (hdir : w.fs.node (fl.usrRoot ++ [request.usr, TMP, request.fileSign]) = some .dir)
    (hfiles : w.fs.node (fl.usrRoot ++ [request.usr, FILES]) = some .dir) (faults : Nat → Option Fault) :
    ∃ res w', (shellOut (mvCmd fl request)).run (faulty anyFails env tid) ⟨w, faults⟩ = (res, ⟨w', later faults⟩) ∧
      res.getD [] = printed (faults 0) ∧ w'.fs.node (fl.usrRoot ++ [request.usr, FILES]) = some .dir := by
  obtain ⟨hout, -, hmoved⟩ := mv_cases env tid hshape hu hsg hdir
  have hcmd : cStr (mvCmd fl request) = mvCmd fl request := (mvCmd_words fl hu hsg).1
  have hkept : (Machine.exec env tid (.shell (mvCmd fl request)) w).2.fs.node (fl.usrRoot ++ [request.usr, FILES]) =
      some .dir := by
    rcases hmoved with ⟨-, hfs⟩ | ⟨hcan, hfs⟩
    · rw [hfs, hfiles]
    · rw [hfs, Shape.move_node_usr, if_neg (by simp [FILES_ne_TMP.symm]), hfiles]
  unfold shellOut
  rw [hcmd]
  cases h0 : faults 0 with
  | none =>
    refine ⟨_, _, Prog.run_call_of _ (faulty_quiet env tid w _ h0), ?_, hkept⟩
    rw [hout]
    rfl
  | some f =>
    refine ⟨_, _, Prog.run_call_of _ (faulty_fails env tid w _ h0), rfl, ?_⟩
    simp only [failed]
    split
    · exact hkept
    · exact hfiles

section
variable (hshape : Shape fl fs) (hdir : fs.node (fl.usrRoot ++ [request.usr, TMP, request.fileSign]) = some .dir)
  (hfiles : fs.node (fl.usrRoot ++ [request.usr, FILES]) = some .dir)
include hu hshape hdir hfiles

theorem publish_spares (hs : On limit free fs faults s) : left limit env tid (publish fl request response) s = 0 ↔
    printed (felt free 2 (faults 0)) ≠ [] ∨ faults 1 ≠ none ∨ faults 2 ≠ none := by
  obtain ⟨res, w', hrun, hres, hfiles'⟩ := mv_faulty env tid (w := s.machine.world) (by rw [hs.files]; exact hshape)
    hu hsg (by rw [hs.files]; exact hdir) (by rw [hs.files]; exact hfiles) (first (felt free 2 (faults 0)) (later faults))
  unfold publish
  refine hs.step (shellOut_helper limit env tid _) hrun fun s' hs' => ?_
  rw [hres]
  change left limit env tid (if printed (felt free 2 (faults 0)) ≠ [] then _ else _) s' = 0 ↔ _
  by_cases hprints : printed (felt free 2 (faults 0)) = []
  · rw [if_neg (not_not.mpr hprints), or_iff_right (not_not.mpr hprints), left_bind_eq_zero,
      linkToUsr_spares hsg hs' hu hfiles']
    refine and_iff_left fun rt s₂ _ => ?_
    split <;> rfl
  · rw [if_pos hprints]
    exact iff_of_true rfl (Or.inl hprints)

theorem checkArrived_spares (hs : On limit free fs faults s) :
    left limit env tid (checkArrived fl request response) s = 0 ↔ ListSpares free request faults := by
  unfold checkArrived allPartArrived ListSpares
  rw [bind_assoc']
  cases hfelt : felt free 1 (faults 0) with
  | none =>
    refine iff_of_false (fun hleft => ?_) (by simp)
    have hroot : fs.node (fl.usrRoot ++ [request.usr, TMP]) = some .dir :=
      fs.dir_above _ [request.fileSign] (by simp) (by simp [hdir])
    have hls := lsDir_spec env tid s.machine.world.db (plain_tmp fl hu) hsg hroot (by simpa using hdir)
    rw [← signDir_text] at hls
    obtain ⟨w', hrun, -⟩ := quiet_one tid (first (felt free 1 (faults 0)) (later faults)) (lsDir_one _) hls hfelt
      hs.files rfl
    obtain ⟨s', hgives⟩ := hs.starts (lsDir_first _) hrun
    cases (lsDir_left _ s).mp (left_bind_eq_zero.mp hleft).1 _ s' hgives
  | some f =>
    have h0 : first (felt free 1 (faults 0)) (later faults) 0 = some f := hfelt
    have hrun := UploadRpc.lsDir_fails env tid s.machine.world h0 (usrUploadDir fl request ++ request.fileSign)
    obtain ⟨s₁, hfails⟩ := hs.starts (lsDir_first _) hrun
    have hleft : left limit env tid (lsDir (usrUploadDir fl request ++ request.fileSign)) s = 0 := by
      refine (lsDir_left _ s).mpr fun partNum s' hgives => ?_
      obtain rfl : partNum = (-1, ∅) := congrArg Prod.fst (hgives.symm.trans hfails)
      rfl
    obtain ⟨s', hgives, hs', -⟩ := hs.gives (lsDir_first _) hleft (lsDir_balanced _) hrun
    rw [hgives.left_bind hleft, and_iff_right (by simp)]
    change left limit env tid (if decide (shardSize request.shard = (∅ : Finset Name).card) = true then
      publish fl request response else .pure (response.answer true "success")) s' = 0 ↔ _
    rw [Finset.card_empty]
    rw [hs.files] at hs'
    by_cases hzero : shardSize request.shard = 0
    · rw [if_pos (decide_eq_true hzero), imp_iff_right hzero]
      exact publish_spares response hu hsg hshape hdir hfiles hs'
    · rw [if_neg (by simpa using hzero)]
      exact iff_of_true rfl fun h => absurd h hzero

end

/-! ### The part -/

include hu in
theorem md5Sum_step {f : Option Bytes → Code β} {c : Bytes} (hs : On limit free fs faults s)
    (hdir : fs.node (fl.usrRoot ++ [request.usr, TMP, request.fileSign]) = some .dir)
    (hc : fs.node (partPath fl request) = some (.file c))
    (h : ∀ s', On limit free fs (later faults) s' → (left limit env tid (f (seen (felt free 2 (faults 0)) c)) s' = 0 ↔ X)) :
    left limit env tid (md5Sum (filePath fl request) >>= f) s = 0 ↔ X := by
  have hold : s.machine.world.fs.node (partPath fl request) = (some c).map .file := by
    rw [hs.files]
    exact hc
  obtain ⟨sum, w', hrun, hfs, hsum⟩ := md5Sum_part_faulty env tid (first (felt free 2 (faults 0)) (later faults)) hu hsg
    (by rw [hs.files]; exact hdir) hold
  obtain rfl := hsum c rfl
  rw [← hs.files, ← hfs] at h
  exact hs.step (md5Sum_helper limit env tid _) hrun h

section
variable (hshape : Shape fl fs) (hdir : fs.node (fl.usrRoot ++ [request.usr, TMP, request.fileSign]) = some .dir)
  (hfiles : fs.node (fl.usrRoot ++ [request.usr, FILES]) = some .dir)
include hu hshape hdir hfiles

theorem checkSign_spares {c : Bytes} (hc : fs.node (partPath fl request) = some (.file c))
    (hs : On limit free fs faults s) : left limit env tid (checkSign fl request response) s = 0 ↔
      (seen (felt free 2 (faults 0)) c = some request.partSign → ListSpares free request (later faults)) := by
  unfold checkSign
  refine md5Sum_step hu hsg hs hdir hc fun s' hs' => ?_
  cases hsum : seen (felt free 2 (faults 0)) c with
  | none => exact iff_of_true rfl fun h => by cases h
  | some sum =>
    dsimp only
    by_cases hgood : sum = request.partSign
    · rw [if_neg (not_not.mpr hgood), imp_iff_right (congrArg some hgood)]
      exact checkArrived_spares response hu hsg hshape hdir hfiles hs'
    · rw [if_pos hgood]
      exact iff_of_true rfl fun h => absurd (Option.some.inj h) hgood

theorem writePart_spares {old : Option Bytes} (hold : fs.node (partPath fl request) = old.map .file)
    (hs : On limit free fs faults s) : left limit env tid (writePart fl request response) s = 0 ↔
      WriteSpares free request faults old := by
  have hfs := hs.files
  rw [← hfs] at hdir hold
  obtain ⟨hres, hcan⟩ := part_opens env hu hsg hdir hold
  unfold writePart WriteSpares
  by_cases h0 : felt free 1 (faults 0) = none
  · have hopens : Opens env s.machine.world.fs (filePath fl request) (partPath fl request)
        (first (felt free 1 (faults 0)) (later faults) 0) := ⟨h0, hres, hcan⟩
    obtain ⟨w', faults', hrun, hfs', -⟩ := write_opens tid request.body hold hopens
    have hrest : ∀ k, faults' k = faults (k + (writes request + 2)) := by
      intro k
      have hall : faults' k = first (felt free 1 (faults 0)) (later faults)
          (k + (rounds (intLen (cStr request.body).length) + 3)) := congrFun (write_rest hrun) k
      rw [hall, first_later, writes]
    refine hs.step (write_helper limit env tid _ _) hrun fun s' hs' => ?_
    rw [if_neg (by simp), imp_iff_right h0]
    have hput : w'.fs.node (partPath fl request) =
        some (.file (overlay (old.getD []) (landed request.body (later faults)))) := by
      rw [hfs', FileTree.node_put, if_pos rfl]
      rfl
    have hkept : ∀ q, q ≠ partPath fl request → w'.fs.node q = s.machine.world.fs.node q := by
      intro q hq
      rw [hfs', FileTree.node_put, if_neg hq]
    have hshape' : Shape fl w'.fs := by
      rw [hfs']
      rw [← hfs] at hshape
      exact hshape.put_usr hopens.2.2 fun _ => ⟨_, _, rfl, rfl⟩
    rw [checkSign_spares response hu hsg hshape' ((hkept _ (by simp [partPath])).trans hdir)
      ((hkept _ (by simp [partPath])).trans (hfs ▸ hfiles)) hput hs', hrest, Nat.zero_add]
    refine imp_congr_right fun _ => iff_of_eq (congrArg (ListSpares free request) (funext fun k => ?_))
    exact (hrest (k + 1)).trans (congrArg faults (by omega))
  · have hopens : ¬ Opens env s.machine.world.fs (filePath fl request) (partPath fl request)
        (first (felt free 1 (faults 0)) (later faults) 0) := fun hopen => h0 hopen.1
    have hrun := write_not_opens tid request.body (fun q hq => (Except.ok.inj (hres.symm.trans hq)).symm) hold hopens
    refine hs.step (write_helper limit env tid _ _) hrun fun s' _ => ?_
    rw [if_pos (by decide)]
    exact iff_of_true rfl fun h => absurd h h0

theorem storePart_spares {old : Option Bytes} (hold : fs.node (partPath fl request) = old.map .file)
    (hs : On limit free fs faults s) : left limit env tid (storePart fl request response) s = 0 ↔
      PartSpares free request faults old := by
  have hexist := existFile_helper limit env tid (filePath fl request)
  unfold storePart
  by_cases h0 : faults 0 = none
  swap
  · obtain ⟨f, hf⟩ := Option.ne_none_iff_exists'.mp h0
    have hrun := existFile_fails env tid s.machine.world hf (filePath fl request)
    rw [← first_zero free faults] at hrun
    refine hs.step hexist hrun fun s' hs' => ?_
    rw [if_neg (by simp), writePart_spares response hu hsg (hs.files ▸ hshape) (hs.files ▸ hdir) (hs.files ▸ hfiles)
      (hs.files ▸ hold) hs']
    cases old with
    | none => exact Iff.rfl
    | some c => exact (iff_of_eq (if_pos h0)).symm
  have hfile : fs.node (partPath fl request) = none ∨ ∃ c, fs.node (partPath fl request) = some (.file c) := by
    cases old with
    | none => exact Or.inl hold
    | some c => exact Or.inr ⟨c, hold⟩
  refine hs.quiet hexist (existFile_one _) (existFile_part hu hsg hdir hfile) ((felt_zero _ _).trans h0) fun s₁ hs₁ => ?_
  cases old with
  | none =>
    rw [if_neg (by rw [hold]; simp)]
    exact writePart_spares response hu hsg hshape hdir hfiles hold hs₁
  | some c =>
    rw [if_pos (by rw [hold]; simp), PartSpares, if_neg (not_not.mpr h0)]
    unfold existingPart
    refine md5Sum_step hu hsg hs₁ hdir hold fun s₂ hs₂ => ?_
    change left limit env tid (match seen (felt free 2 (faults 1)) c with
      | none => _
      | some curMd5 => _) s₂ = 0 ↔ _
    cases seen (felt free 2 (faults 1)) c with
    | none => exact iff_of_true rfl trivial
    | some sum =>
      dsimp only
      by_cases hgood : sum = request.partSign
      · rw [if_pos hgood, if_pos hgood]
        exact writePart_spares _ hu hsg hshape hdir hfiles hold hs₂
      rw [if_neg hgood, if_neg hgood]
      have hdelete := deleteFile_helper limit env tid (filePath fl request)
      by_cases h2 : faults 2 = none
      · rw [if_pos h2]
        refine hs₂.quiet hdelete (deleteFile_one _) (deleteFile_part hu hsg hdir hold) ((felt_zero _ _).trans h2) ?_
        intro s₃ hs₃
        have hcan := fs.canErase_of_not_dir (p := partPath fl request) (by simp [hold])
        have hshape' : Shape fl (fs.erase (partPath fl request) hcan) := hshape.erase_usr (by simp) hcan
        refine writePart_spares response hu hsg hshape' ?_ ?_ ?_ hs₃
        · rw [FileTree.node_erase, if_neg (by simp [partPath]), hdir]
        · rw [FileTree.node_erase, if_neg (by simp [partPath]), hfiles]
        · rw [FileTree.node_erase, if_pos rfl]
          rfl
      · rw [if_neg h2]
        obtain ⟨f, hf⟩ := Option.ne_none_iff_exists'.mp h2
        have hrun := deleteFile_fails env tid s₂.machine.world (show later (later faults) 0 = some f from hf)
          (filePath fl request)
        rw [← first_zero free (later (later faults))] at hrun
        refine hs₂.step hdelete hrun fun s₃ hs₃ => ?_
        rw [hs₂.files] at hs₃
        exact writePart_spares response hu hsg hshape hdir hfiles hold hs₃

end

/-! ### The whole call -/

include hu in
theorem uploadPart_spares (hshape : Shape fl fs) (huser : fs.node (fl.usrRoot ++ [request.usr]) = some .dir)
    (hfiles : fs.node (fl.usrRoot ++ [request.usr, FILES]) = some .dir) (hs : On limit free fs faults s) :
    left limit env tid (uploadPart fl request response) s = 0 ↔ faults 0 ≠ none ∨ faults 1 ≠ none ∨ faults 2 ≠ none ∨
      PartSpares free request (fun k => faults (k + 3))
        ((Disk.of fl fs).part request.usr request.fileSign request.partIndex.toNat) := by
  have hready : Ready fl request fs := .of_shape hshape huser
  have hroot : fs.node fl.usrRoot = some .dir := fs.dir_above _ [request.usr] (by simp) (by simp [huser])
  have hmade : ∀ db, Ends env tid (FileSys.mkdir (fl.usrDir ++ request.usr)) fs db 0 fs db := by
    intro db
    have hmkdir := mkdir_spec env tid db fl.usr_plain hu hroot
    rwa [ensureDir, ensure_old (by rw [huser]; simp)] at hmkdir
  unfold uploadPart makeTmpDirs
  rw [bind_assoc']
  refine mkdir_step hs (hmade _) (fun s' => ?_) fun s₁ hs₁ => ?_
  · rw [if_pos (by decide)]
    rfl
  rw [if_neg (by simp), bind_assoc']
  have htmp := mkdir_dirText_spec env tid s₁.machine.world.db (plain_snoc fl.usr_plain hu) plain_TMP hready.user
  rw [← usrUploadDir_text] at htmp
  refine mkdir_step hs₁ htmp (fun s' => ?_) fun s₂ hs₂ => ?_
  · rw [if_pos (by decide)]
    rfl
  rw [if_neg (by simp), bind_assoc']
  have hsign := mkdir_dirText_spec env tid s₂.machine.world.db (plain_tmp fl hu) hsg (tmp_made hready)
  rw [← signDir_slash_text] at hsign
  refine mkdir_step hs₂ hsign (fun s' => rfl) fun s₃ hs₃ => ?_
  obtain ⟨hshape', hdisk⟩ := tmpDirs_shape request hshape
  rw [← hdisk]
  exact storePart_spares response hu hsg hshape' (tmpDirs_made hready)
    ((tmpDirs_keeps hready (by simp [hfiles])).trans hfiles) (part_eq hshape' request) hs₃

theorem existDir_step {p q : Code β} (hshape : Shape fl fs) (hs : On limit free fs faults s)
    (h : ∀ s', On limit free fs (later faults) s' → (left limit env tid q s' = 0 ↔ X)) :
    left limit env tid (existDir (fileDir fl request) >>= fun stored => if stored = true then p else q) s = 0 ↔
      (felt free 1 (faults 0) ≠ none ∨ (Disk.of fl fs).stored request.fileSign = false) ∧ X := by
  have hfirst : First 1 (existDir (fileDir fl request)) := existDir_first _
  -- The directory does not open: the call goes on with the part.
  have hclosed : ∀ w', w'.fs = fs → (existDir (fileDir fl request)).run (faulty anyFails env tid)
      ⟨s.machine.world, first (felt free 1 (faults 0)) (later faults)⟩ = (false, ⟨w', later faults⟩) →
      (left limit env tid (existDir (fileDir fl request) >>= fun stored => if stored = true then p else q) s = 0 ↔ X) := by
    intro w' hfs' hrun
    obtain ⟨s₁, hfails⟩ := hs.starts hfirst hrun
    have hleft : left limit env tid (existDir (fileDir fl request)) s = 0 :=
      (existDir_left _ s).mpr fun stored s' hgives => congrArg Prod.fst (hgives.symm.trans hfails)
    obtain ⟨s', hgives, hs', -⟩ := hs.gives hfirst hleft (Balanced.sys rfl) hrun
    rw [hgives.left_bind hleft, if_neg (by simp)]
    rw [hfs'] at hs'
    exact h s' hs'
  cases hfelt : felt free 1 (faults 0) with
  | some f =>
    have h0 : first (felt free 1 (faults 0)) (later faults) 0 = some f := hfelt
    rw [hclosed s.machine.world hs.files (existDir_fails env tid s.machine.world h0 _), and_iff_right (Or.inl (by simp))]
  | none =>
    have hexist := existDir_spec env tid s.machine.world.db fl.files_plain hsg hshape.files_root fun target hlink => by
      have := hshape.store_entry _ _ hlink
      simp [storeEntry] at this
    obtain ⟨w', hrun, hfs', -⟩ := quiet_one tid (first (felt free 1 (faults 0)) (later faults))
      (existDir_one _) hexist hfelt hs.files rfl
    by_cases hin : fs.node (fl.filesRoot ++ [request.fileSign]) = some .dir
    · refine iff_of_false (fun hzero => ?_) (by simp [Disk.of, hin])
      rw [hin, decide_eq_true rfl] at hrun
      obtain ⟨s₁, hopens⟩ := hs.starts hfirst hrun
      cases (existDir_left _ s).mp (left_bind_eq_zero.mp hzero).1 _ s₁ hopens
    · have hnone : fs.node (fl.filesRoot ++ [request.fileSign]) = none := by
        by_contra hnode
        obtain ⟨n, hn⟩ := Option.ne_none_iff_exists'.mp hnode
        exact hin (by rw [hn, hshape.store_entry _ _ hn])
      rw [decide_eq_false hin] at hrun
      rw [hclosed w' hfs' hrun, and_iff_right (Or.inr (by simp [Disk.of, hnone]))]

include hu in
/-- In the layout, an upload leaves nothing open exactly if it is sparing. -/
theorem Do_spares (hshape : Shape fl fs) (hs : On limit free fs faults s) :
    left limit env tid (Do fl request response) s = 0 ↔ Sparing free request faults (Disk.of fl fs) := by
  unfold Do Sparing
  by_cases huser : fs.node (fl.usrRoot ++ [request.usr]) = some .dir
  swap
  · have hnone : fs.node (fl.usrRoot ++ [request.usr]) = none := by
      by_contra h
      exact huser (hshape.user_dir h)
    have hduser : (Disk.of fl fs).user request.usr = false := by simp [Disk.of, hnone]
    have hmkdir := mkdir_missing_spec env tid s.machine.world.db fl.usr_plain hu hshape.usr_root hnone plain_FILES
    rw [← usrFiles_text] at hmkdir
    have hhelper := mkdir_helper limit env tid (fl.usrDir ++ request.usr ++ ascii "/files")
    have hfails : ∃ s', Gives limit env tid (FileSys.mkdir (fl.usrDir ++ request.usr ++ ascii "/files")) s (-1) s' := by
      cases h0 : faults 0 with
      | none =>
        obtain ⟨w', hrun, -⟩ := quiet_one tid (first (felt free 0 (faults 0)) (later faults)) (mkdir_one _) hmkdir
          ((felt_zero _ _).trans h0) hs.files rfl
        exact hs.starts hhelper.first hrun
      | some f =>
        have hrun := mkdir_fails env tid s.machine.world h0 (fl.usrDir ++ request.usr ++ ascii "/files")
        rw [← first_zero free faults] at hrun
        exact hs.starts hhelper.first hrun
    obtain ⟨s', hgives⟩ := hfails
    rw [hgives.left_bind (hhelper.tidy s), if_pos (by decide)]
    exact iff_of_true rfl (Or.inr (Or.inl hduser))
  have hduser : (Disk.of fl fs).user request.usr = true := by simp [Disk.of, huser]
  have hmkdir := mkdir_spec env tid s.machine.world.db (plain_snoc fl.usr_plain hu) plain_FILES huser
  rw [← usrFiles_text] at hmkdir
  rw [hduser, or_iff_right (show ¬ true = false by simp), ← Disk.of_ensureDir_files request.usr]
  have hshape' : Shape fl (ensureDir fs (fl.usrRoot ++ [request.usr] ++ [FILES])) := hshape.ensureDir_usr fun _ => rfl
  have hfiles := ensureDir_made (n := FILES) huser fun m hm =>
    hshape.usr_entry [request.usr, FILES] m (by simpa using hm) (Or.inl rfl)
  have huser' := ensureDir_keeps (n := FILES) huser (q := fl.usrRoot ++ [request.usr]) (by rw [huser]; simp)
  rw [huser] at huser'
  generalize ensureDir fs (fl.usrRoot ++ [request.usr] ++ [FILES]) = fs₁ at *
  rw [List.append_assoc, List.singleton_append] at hfiles
  refine mkdir_step hs hmkdir (fun s' => ?_) fun s₁ hs₁ => ?_
  · rw [if_pos (by decide)]
    rfl
  rw [if_neg (by simp)]
  exact existDir_step hsg hshape' hs₁ fun s₂ hs₂ => uploadPart_spares response hu hsg hshape' huser' hfiles hs₂

end

/-! ## `RegisterView::Process` -/

/-- In a registration whose name has no quotes, the `SELECT` fails. -/
theorem registerSpares_iff {ρ : Type} {j : Jsoncpp ρ} {reqVal : Json ρ}
    (hsafe : ∀ usr passwd, RegisterView.readRequest j reqVal = .ok (usr, passwd) → SqlText.litSafe usr = true)
    (hs : On limit free fs faults s) : RegisterSpares limit env tid j reqVal s ↔
      (∀ names, RegisterView.readRequest j reqVal ≠ .ok names) ∨ faults 0 ≠ none := by
  have hselect : ∀ usr passwd, RegisterView.readRequest j reqVal = .ok (usr, passwd) →
      ((∀ s', Gives limit env tid (Mmysql.runQuery (RegisterView.usrNotExistCmd usr)) s 0 s' →
        s'.machine.world.pending tid = none) ↔ faults 0 ≠ none) := by
    intro usr passwd hread
    refine selects_iff (fun w => ?_) hs
    have hsql : sql env w.db (RegisterView.usrNotExistCmd usr) = w.db.exec (.selectUsr usr) :=
      sql_of_read (Stmt.read_usrNotExistCmd (hsafe usr passwd hread))
    simp only [Machine.exec, hsql, DB.exec]
    exact ⟨_, _, rfl, Function.update_self _ _ _⟩
  unfold RegisterSpares
  by_cases hread : ∃ names, RegisterView.readRequest j reqVal = .ok names
  · obtain ⟨⟨usr, passwd⟩, hread⟩ := hread
    rw [or_iff_right fun h => h _ hread, ← hselect usr passwd hread]
    refine ⟨fun h => h usr passwd hread, fun h usr' passwd' hread' => ?_⟩
    obtain ⟨rfl, rfl⟩ := Prod.mk.inj (Except.ok.inj (hread.symm.trans hread'))
    exact h
  · exact iff_of_true (fun usr passwd h => absurd ⟨_, h⟩ hread) (Or.inl fun names h => hread ⟨names, h⟩)

/-! ## The layout stays -/

section
variable {fl : Flags} {fs0 : FS}

open RegisterView Mmysql

theorem regist_held {usr : Name} (hu : Single usr) (passwd : Bytes) :
    Prog.Triple (faulty anyFails env tid) (Held fl fs0) (regist fl usr passwd) (fun _ => Held fl fs0) := by
  have hmkdir : Prog.Triple (faulty anyFails env tid) (Held fl fs0) (FileSys.mkdir (fl.usrDir ++ usr))
      (fun _ => Held fl fs0) := by
    refine mkdir_held (r := ⟨0, 0, 0, [], [], [], usr, []⟩) (q := [usr]) (by simp) fun fs hs => Or.inl ?_
    rw [Flags.usrDir, FileSys.cStr_single fl.usr_plain hu]
    exact locate_single fl.usr_plain hu hs.usr_root
  unfold regist usrNotExist insertUsr createUsrDir
  refine Prog.Triple.bind (fun _ => Held fl fs0) ?_ fun rt => ?_
  · refine Prog.Triple.bind _ query_keeps fun rt => ?_
    refine Prog.Triple.ite (fun _ => Prog.Triple.pure fun _ h => h) fun _ => ?_
    refine Prog.Triple.bind _ (read_keeps held_of_fs (fun _ => rfl) fun _ _ => rfl) fun row => ?_
    cases row <;> exact Prog.Triple.pure fun _ h => h
  refine Prog.Triple.ite (fun _ => Prog.Triple.pure fun _ h => h) fun _ => ?_
  refine Prog.Triple.ite (fun _ => Prog.Triple.pure fun _ h => h) fun _ => ?_
  refine Prog.Triple.bind (fun _ => Held fl fs0) (Prog.Triple.bind _ query_keeps fun rt => ?_) fun rt => ?_
  · exact Prog.Triple.ite (fun _ => Prog.Triple.pure fun _ h => h) fun _ => Prog.Triple.pure fun _ h => h
  refine Prog.Triple.ite (fun _ => Prog.Triple.pure fun _ h => h) fun _ => ?_
  refine Prog.Triple.bind (fun _ => Held fl fs0) (Prog.Triple.bind _ hmkdir fun rt => ?_) fun rt => ?_
  · exact Prog.Triple.ite (fun _ => Prog.Triple.pure fun _ h => h) fun _ => Prog.Triple.pure fun _ h => h
  exact Prog.Triple.ite (fun _ => Prog.Triple.pure fun _ h => h) fun _ => Prog.Triple.pure fun _ h => h

theorem Process_held {ρ : Type} {j : Jsoncpp ρ} {reqVal : Json ρ}
    (hu : ∀ usr passwd, readRequest j reqVal = .ok (usr, passwd) → Single usr) (clientFd : Int) :
    Prog.Triple (faulty anyFails env tid) (Held fl fs0) (RegisterView.Process j fl reqVal clientFd)
      (fun _ => Held fl fs0) := by
  unfold RegisterView.Process
  cases hread : readRequest j reqVal with
  | error crash => exact Prog.Triple.pure fun _ h => h
  | ok names =>
    refine Prog.Triple.bind _ (regist_held (hu names.1 names.2 hread) names.2) fun msg => ?_
    unfold respond
    cases (Json.null : Json ρ).set "Response" (.str msg) with
    | error crash => exact Prog.Triple.pure fun _ h => h
    | ok val =>
      refine Prog.Triple.bind (fun _ => Held fl fs0) ?_ fun _ => Prog.Triple.pure fun _ h => h
      refine Prog.Triple.bind _ (read_keeps held_of_fs (fun _ => rfl) fun _ _ => rfl) fun _ => ?_
      exact Prog.Triple.pure fun _ h => h

end

end Host

/-! ## Calls one after another -/

/-- A request, and the thread that handles it with its connection to MySQL. -/
inductive ServerCall (ρ : Type) where
  | upload (tid : Nat) (request : NetDiskRequest)
  | register (tid : Nat) (reqVal : Json ρ) (clientFd : Int)

namespace ServerCall

open Host Server

variable {ρ : Type} (j : Jsoncpp ρ) (fl : Flags) (limit : Nat) (env : Env)

def tid : ServerCall ρ → Nat
  | .upload tid _ => tid
  | .register tid _ _ => tid

def code : ServerCall ρ → Code Unit
  | .upload _ request => UploadRpc.Do fl request .empty >>= fun _ => .pure ()
  | .register _ reqVal clientFd => RegisterView.Process j fl reqVal clientFd >>= fun _ => .pure ()

def after (c : ServerCall ρ) (s : Host) : Host := ((c.code j fl).run (Host.exec limit env c.tid) s).2

def afterAll (calls : List (ServerCall ρ)) (s : Host) : Host := calls.foldl (fun s c => c.after j fl limit env s) s

/-- The operations of the call, each with the state that it starts in. -/
def moments (c : ServerCall ρ) (s : Host) : List (Sys × Host) := (c.code j fl).moments (Host.exec limit env c.tid) s

/-- The condition on a call and the state before it. -/
def Spares (s : Host) : ServerCall ρ → Prop
  | .upload tid request => UploadSpares limit env tid fl request s
  | .register tid reqVal _ => RegisterSpares limit env tid j reqVal s

/-- The user and the file have plain names, a new user a component of a path without quotes. -/
def Named : ServerCall ρ → Prop
  | .upload _ request => Plain request.usr ∧ Plain request.fileSign
  | .register _ reqVal _ => ∀ usr passwd, RegisterView.readRequest j reqVal = .ok (usr, passwd) →
      SqlText.litSafe usr = true ∧ Single usr

/-- The condition on the request, on the files before it, on what goes wrong with its operations and on the descriptors
that are left. -/
def Sparing (free : Nat) (faults : Nat → Option Fault) (w : World) : ServerCall ρ → Prop
  | .upload _ request => Host.Sparing free request faults (disk fl w)
  | .register _ reqVal _ => (∀ names, RegisterView.readRequest j reqVal ≠ .ok names) ∨ faults 0 ≠ none

theorem code_balanced (c : ServerCall ρ) : Balanced limit env c.tid (c.code j fl) := by
  cases c with
  | upload tid request => exact (Do_balanced fl request .empty).bind fun _ => Balanced.pure _
  | register tid reqVal clientFd => exact (Process_balanced j fl reqVal clientFd).bind fun _ => Balanced.pure _

theorem code_left (c : ServerCall ρ) (s : Host) :
    left limit env c.tid (c.code j fl) s = 0 ↔ c.Spares j fl limit env s := by
  cases c with
  | upload tid request =>
    exact (left_bind_eq_zero.trans (and_iff_left fun _ _ _ => rfl)).trans (Do_left fl request .empty s)
  | register tid reqVal clientFd =>
    exact (left_bind_eq_zero.trans (and_iff_left fun _ _ _ => rfl)).trans (Process_left j fl reqVal clientFd s)

theorem after_opened_iff (c : ServerCall ρ) (s : Host) :
    (c.after j fl limit env s).opened = s.opened ↔ c.Spares j fl limit env s := by
  unfold after
  rw [(code_balanced j fl limit env c).opened, ← code_left]
  exact add_eq_right

variable {j fl limit env}

theorem spares_iff_sparing {c : ServerCall ρ} {s : Host} (hshape : Shape fl s.machine.world.fs) (hc : c.Named j) :
    c.Spares j fl limit env s ↔ c.Sparing j fl (limit - s.used) s.machine.faults s.machine.world := by
  have hs : On limit (limit - s.used) s.machine.world.fs s.machine.faults s := ⟨rfl, rfl, rfl⟩
  cases c with
  | upload tid request => exact (Do_left fl request .empty s).symm.trans (Do_spares .empty hc.1 hc.2 hshape hs)
  | register tid reqVal clientFd => exact registerSpares_iff (fun usr passwd h => (hc usr passwd h).1) hs

theorem after_stocked {c : ServerCall ρ} {s : Host} (hstocked : Stocked fl s.machine.world.fs) (hc : c.Named j) :
    Stocked fl (c.after j fl limit env s).machine.world.fs := by
  have hheld : Prog.Triple (faulty anyFails env c.tid) (Held fl s.machine.world.fs) (c.code j fl)
      (fun _ => Held fl s.machine.world.fs) := by
    cases c with
    | upload tid request =>
      exact Prog.Triple.bind _ (Do_held hc.1 hc.2 .empty) fun _ => Prog.Triple.pure fun _ h => h
    | register tid reqVal clientFd =>
      refine Prog.Triple.bind _ (Process_held (fun usr passwd h => ?_) clientFd) fun _ => Prog.Triple.pure fun _ h => h
      exact (hc usr passwd h).2
  obtain ⟨faults, -, hworld⟩ := run_faulty limit env c.tid (c.code j fl) s
  unfold after
  rw [hworld]
  exact (hheld ⟨s.machine.world, faults⟩ ⟨hstocked, .refl fl _⟩).1

variable (j fl limit env)

theorem afterAll_stocked {calls : List (ServerCall ρ)} {s : Host} (hstocked : Stocked fl s.machine.world.fs)
    (hnames : ∀ c ∈ calls, c.Named j) :
    ∀ done, done <+: calls → Stocked fl (afterAll j fl limit env done s).machine.world.fs := by
  refine Prog.foldl_invariant (fun _ (t : Host) => Stocked fl t.machine.world.fs) hstocked ?_
  intro done c hpre hdone
  exact after_stocked hdone (hnames c (hpre.subset (by simp)))

/-- In any run, what is open stays the same exactly when each call spares handles; then, with two descriptors to spare
at the start, no operation fails for lack of them. In the layout of the server, whether a call spares handles is seen
before it runs. -/
theorem handles_kept_iff (calls : List (ServerCall ρ)) (s : Host) :
    ((∀ done, done <+: calls → (afterAll j fl limit env done s).opened = s.opened) ↔
      ∀ done c, done ++ [c] <+: calls → c.Spares j fl limit env (afterAll j fl limit env done s)) ∧
    ((∀ done, done <+: calls → (afterAll j fl limit env done s).opened = s.opened) →
      s.used + 2 ≤ limit → ∀ done c, done ++ [c] <+: calls →
        ∀ m ∈ c.moments j fl limit env (afterAll j fl limit env done s), ¬ Lacks limit m.1 m.2) ∧
    (Stocked fl s.machine.world.fs → (∀ c ∈ calls, c.Named j) →
      ((∀ done, done <+: calls → (afterAll j fl limit env done s).opened = s.opened) ↔
        ∀ done c, done ++ [c] <+: calls → c.Sparing j fl (limit - (afterAll j fl limit env done s).used)
          (afterAll j fl limit env done s).machine.faults (afterAll j fl limit env done s).machine.world)) := by
  have hstep : ∀ done c, afterAll j fl limit env (done ++ [c]) s =
      c.after j fl limit env (afterAll j fl limit env done s) := by
    intro done c
    unfold afterAll
    rw [List.foldl_append]
    rfl
  have hkept : (∀ done c, done ++ [c] <+: calls → c.Spares j fl limit env (afterAll j fl limit env done s)) →
      ∀ done, done <+: calls → (afterAll j fl limit env done s).opened = s.opened := by
    intro h
    refine Prog.foldl_invariant (fun _ (t : Host) => t.opened = s.opened) rfl ?_
    intro done c hpre hdone
    exact ((after_opened_iff j fl limit env c _).mpr (h done c hpre)).trans hdone
  have hiff : (∀ done, done <+: calls → (afterAll j fl limit env done s).opened = s.opened) ↔
      ∀ done c, done ++ [c] <+: calls → c.Spares j fl limit env (afterAll j fl limit env done s) := by
    refine ⟨fun h done c hpre => ?_, hkept⟩
    rw [← after_opened_iff, ← hstep, h _ hpre, h _ ((List.prefix_append done [c]).trans hpre)]
  refine ⟨hiff, fun h hlimit done c hpre => ?_, fun hstocked hnames => ?_⟩
  · refine (code_balanced j fl limit env c).not_lacks ((code_left j fl limit env c _).mpr (hiff.mp h done c hpre)) ?_
    unfold used
    rw [h done ((List.prefix_append done [c]).trans hpre)]
    exact hlimit
  · refine hiff.trans (forall₃_congr fun done c hpre => spares_iff_sparing ?_ (hnames c (hpre.subset (by simp))))
    exact (afterAll_stocked j fl limit env hstocked hnames done ((List.prefix_append done [c]).trans hpre)).shape

/-! ### A file that is stored already -/

/-- Nothing goes wrong, and nothing is open. -/
def host (w : World) : Host := ⟨⟨w, fun _ => none⟩, 0⟩

def again : ServerCall Empty := .upload 0 OnePart.request

/-- A part whose digest is not the one in the request. -/
def wrong : ServerCall Empty := .upload 0 (TwoParts.request "bob" 0 "x")

theorem wrong_kept :
    (∀ done, done <+: [wrong] →
      (afterAll RegisterView.Lost.jsoncpp .short 2 .bare done (host TwoParts.world)).opened = 0) ∧
    ∀ m ∈ wrong.moments RegisterView.Lost.jsoncpp .short 2 .bare (host TwoParts.world), ¬ Lacks 2 m.1 m.2 := by
  obtain ⟨-, hlacks, hiff⟩ := handles_kept_iff RegisterView.Lost.jsoncpp .short 2 .bare [wrong] (host TwoParts.world)
  have hnamed : wrong.Named RegisterView.Lost.jsoncpp := ⟨by decide +kernel, by decide +kernel⟩
  have hkept := (hiff (EmptyDirs.start _ _).stocked (List.forall_mem_singleton.mpr hnamed)).mpr ?_
  · exact ⟨hkept, hlacks hkept (by decide +kernel) [] wrong (List.prefix_refl _)⟩
  intro done c hpre
  obtain ⟨rfl, rfl⟩ : done = [] ∧ c = wrong := by
    have hdone : done = [] := by
      have hlen := hpre.length_le
      rw [List.length_append, List.length_singleton, List.length_singleton] at hlen
      exact List.eq_nil_of_length_eq_zero (by omega)
    rw [hdone] at hpre
    exact ⟨hdone, (List.cons_prefix_cons.mp hpre).1⟩
  refine (sparing_quiet (by decide +kernel) _).mpr (Or.inr ?_)
  exact ⟨by decide +kernel, by decide +kernel⟩

/-- One more request for a stored file leaves two more handles open, and after two of them the file seems not to be
stored. -/
theorem stored_seems_absent :
    (again.after RegisterView.Lost.jsoncpp .short 2 .bare (host OnePart.after)).opened ≠ (host OnePart.after).opened ∧
    ((FileSys.existDir (UploadRpc.fileDir .short OnePart.request)).run (Host.exec 2 .bare 0) (host OnePart.after)).1 = true ∧
    ((FileSys.existDir (UploadRpc.fileDir .short OnePart.request)).run (Host.exec 2 .bare 0)
      (afterAll RegisterView.Lost.jsoncpp .short 2 .bare [again, again] (host OnePart.after))).1 = false := by
  refine ⟨?_, by decide +kernel, by decide +kernel⟩
  intro h
  exact absurd (congrArg Multiset.card h) (by decide +kernel)

end ServerCall

end NetDisk
