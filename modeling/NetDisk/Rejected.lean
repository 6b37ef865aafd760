import NetDisk.Exact
import NetDisk.Writes

/-!
# What a refused part leaves

The part is deleted or written over before it is checked. When the check, `Md5Sum` or `Write` fails, whatever goes
wrong with the operations, what is left of the old part depends on what was already done to it.
-/

namespace NetDisk

open Machine

namespace UploadRpc

open FileSys

/-! ## One operation, well or not -/

section
variable {env : Env} (tid : Nat) {w : World} (faults : Nat → Option Fault)

theorem quiet_one {α : Type} {c : Code α} {a : α} {fs fs' : FS} {db db' : DB} (hone : c.One)
    (hends : Ends env tid c fs db a fs' db') (h0 : faults 0 = none) (hfs : w.fs = fs) (hdb : w.db = db) :
    ∃ w', c.run (faulty anyFails env tid) ⟨w, faults⟩ = (a, ⟨w', later faults⟩) ∧ w'.fs = fs' ∧ w'.db = db' := by
  obtain ⟨op, next, rfl, hnext⟩ := hone
  obtain ⟨h1, h2, h3⟩ := hends w hfs hdb
  obtain ⟨b, hb⟩ := hnext (exec env tid op w).1
  rw [Prog.run_call, hb, Prog.run_pure] at h1 h2 h3
  refine ⟨(exec env tid op w).2, ?_, h2, h3⟩
  rw [Prog.run_call_of _ (faulty_quiet env tid w op h0), hb, Prog.run_pure]
  exact congrArg (Prod.mk · _) h1

theorem mkdir_one (dirName : Bytes) : (FileSys.mkdir dirName).One := by
  refine ⟨.mkdir (cStr dirName), fun (err : Option Errno) =>
    if err ≠ none ∧ err ≠ some .eexist then .pure (-1) else .pure 0, rfl, fun r => ?_⟩
  dsimp only
  split
  · exact ⟨_, rfl⟩
  · exact ⟨_, rfl⟩

theorem existFile_one (path : Bytes) : (existFile path).One := ⟨_, _, rfl, fun r => ⟨r, rfl⟩⟩

theorem deleteFile_one (path : Bytes) : (deleteFile path).One := by
  refine ⟨.remove (cStr path), fun (err : Option Errno) => if err = none then .pure 0 else .pure (-1), rfl,
    fun r => ?_⟩
  dsimp only
  split
  · exact ⟨_, rfl⟩
  · exact ⟨_, rfl⟩

theorem md5Sum_one (path : Bytes) : (md5Sum path).One := by
  refine ⟨_, _, rfl, fun (r : Option Bytes) => ?_⟩
  cases r with
  | none => exact ⟨_, rfl⟩
  | some res => exact ⟨_, rfl⟩

theorem link_one (src dst : Bytes) : (FileSys.link src dst).One := by
  refine ⟨.symlink (cStr src) (cStr dst), fun (err : Option Errno) =>
    if err ≠ none ∧ err ≠ some .eexist then .pure (-1) else .pure 0, rfl, fun err => ?_⟩
  dsimp only
  split
  · exact ⟨_, rfl⟩
  · exact ⟨_, rfl⟩

theorem existDir_one (path : Bytes) : (existDir path).One := ⟨_, _, rfl, fun r => ⟨r, rfl⟩⟩

theorem shellOut_one (cmd : Bytes) : (shellOut cmd).One := ⟨_, _, rfl, fun r => ⟨r, rfl⟩⟩

theorem runQuery_one (cmd : Bytes) : (Mmysql.runQuery cmd).One := by
  refine ⟨.query cmd, fun (ok : Bool) => if ok = true then .pure 0 else .pure 1, rfl, fun ok => ?_⟩
  dsimp only
  split
  · exact ⟨_, rfl⟩
  · exact ⟨_, rfl⟩

variable (env w) {faults} {f : Fault} (h0 : faults 0 = some f)
include h0

theorem mkdir_fails (dirName : Bytes) :
    (FileSys.mkdir dirName).run (faulty anyFails env tid) ⟨w, faults⟩ = (-1, ⟨w, later faults⟩) := by
  refine (Prog.run_call_of _ (faulty_fails env tid w _ h0)).trans ?_
  change (if some f.err ≠ none ∧ some f.err ≠ some Errno.eexist then Prog.pure (-1) else Prog.pure 0).run _ _ = _
  rw [if_pos ⟨by simp, by simpa using f.err_ne⟩]
  rfl

theorem existDir_fails (dirName : Bytes) :
    (existDir dirName).run (faulty anyFails env tid) ⟨w, faults⟩ = (false, ⟨w, later faults⟩) :=
  Prog.run_call_of _ (faulty_fails env tid w _ h0)

theorem existFile_fails (path : Bytes) :
    (existFile path).run (faulty anyFails env tid) ⟨w, faults⟩ = (false, ⟨w, later faults⟩) :=
  Prog.run_call_of _ (faulty_fails env tid w _ h0)

theorem deleteFile_fails (path : Bytes) :
    (deleteFile path).run (faulty anyFails env tid) ⟨w, faults⟩ = (-1, ⟨w, later faults⟩) :=
  Prog.run_call_of _ (faulty_fails env tid w _ h0)

theorem link_fails (src dst : Bytes) :
    (FileSys.link src dst).run (faulty anyFails env tid) ⟨w, faults⟩ = (-1, ⟨w, later faults⟩) := by
  refine (Prog.run_call_of _ (faulty_fails env tid w _ h0)).trans ?_
  change (if some f.err ≠ none ∧ some f.err ≠ some Errno.eexist then Prog.pure (-1) else Prog.pure 0).run _ _ = _
  rw [if_pos ⟨by simp, by simpa using f.err_ne⟩]
  rfl

theorem lsDir_fails (path : Bytes) :
    (lsDir path).run (faulty anyFails env tid) ⟨w, faults⟩ = ((-1, ∅), ⟨w, later faults⟩) :=
  Prog.run_call_of _ (faulty_fails env tid w (.readdir (cStr path)) h0)

end

/-- What `Md5Sum` makes of a file with the content `c`. -/
def seen (fault : Option Fault) (c : Bytes) : Option Bytes :=
  match fault with
  | none => some (Md5.hexDigest c)
  | some f => f.text.map fun res => res.take 32

section
variable (env : Env) (tid : Nat) {w : World} (faults : Nat → Option Fault) {p : Path} {n : Name}
  (hp : ∀ m ∈ p, Plain m) (hn : Plain n)
include hp hn

theorem md5Sum_faulty (hl : NoLinks w.fs (p ++ [n])) : ∃ sum w',
    (md5Sum (dirText p ++ n)).run (faulty anyFails env tid) ⟨w, faults⟩ = (sum, ⟨w', later faults⟩) ∧ w'.fs = w.fs ∧
      ∀ c, w.fs.node (p ++ [n]) = some (.file c) → sum = seen (faults 0) c := by
  have hends := md5Sum_clear env tid w.db hp hn hl
  cases h0 : faults 0 with
  | none =>
    obtain ⟨w', hrun, hfs, -⟩ := quiet_one tid faults (md5Sum_one _) hends h0 rfl rfl
    refine ⟨_, w', hrun, hfs, fun c hc => ?_⟩
    simp only [fileAt, bytesAt, hc, seen, Option.isSome_some, if_true, Option.getD_some]
  | some f =>
    have hkeep : (exec env tid (.shell (cStr (ascii "md5sum " ++ (dirText p ++ n)))) w).2.fs = w.fs := by
      simp only [exec, md5Cmd_words hp hn, Machine.shell, if_true]
    refine ⟨f.text.map fun res => res.take 32,
      if f.done then (exec env tid (.shell (cStr (ascii "md5sum " ++ (dirText p ++ n)))) w).2 else w, ?_, ?_,
      fun c _ => rfl⟩
    · refine (Prog.run_call_of _ (faulty_fails env tid w _ h0)).trans ?_
      dsimp only [failed]
      cases f.text <;> rfl
    · split
      · exact hkeep
      · rfl

end

/-! ## The answers -/

/-- The part is refused, or could not be checked or written. -/
def Refused (response : NetDiskResponse) : Prop :=
  response.res = some false ∧ (response.body = some (ascii "part sign check error") ∨
    response.body = some (ascii "cal md5 failed") ∨ response.body = some (ascii "write file failed"))

theorem not_refused {response : NetDiskResponse} {res : Bool} {body : String}
    (h : ascii body ≠ ascii "part sign check error" ∧ ascii body ≠ ascii "cal md5 failed" ∧
      ascii body ≠ ascii "write file failed") : ¬ Refused (response.answer res body) := by
  rintro ⟨-, hbody | hbody | hbody⟩
  · exact h.1 (Option.some.inj hbody)
  · exact h.2.1 (Option.some.inj hbody)
  · exact h.2.2 (Option.some.inj hbody)

section
variable {σ : Type} (h : Prog.Handler Sys Sys.Res σ) (fl : Flags) (r : NetDiskRequest) (response : NetDiskResponse)
  (s : σ)

theorem speedUpload_not_refused : ¬ Refused ((speedUpload fl r response).run h s).1 := by
  unfold speedUpload
  rw [Prog.run_bind]
  split
  · exact not_refused (by decide)
  · exact not_refused (by decide)

theorem publish_not_refused : ¬ Refused ((publish fl r response).run h s).1 := by
  unfold publish
  rw [Prog.run_bind]
  split
  · exact not_refused (by decide)
  · rw [Prog.run_bind]
    split
    · exact not_refused (by decide)
    · exact not_refused (by decide)

theorem checkArrived_not_refused : ¬ Refused ((checkArrived fl r response).run h s).1 := by
  unfold checkArrived
  rw [Prog.run_bind]
  split
  · exact publish_not_refused h fl r response _
  · exact not_refused (by decide)

end

/-! ## From the write on -/

theorem noLinks_of_dir {fs : FS} {p : Path} {n : Name} (hd : fs.node p = some .dir)
    (hn : ∀ target, fs.node (p ++ [n]) ≠ some (.link target)) : NoLinks fs (p ++ [n]) := by
  intro q hq target hlink
  rcases List.prefix_concat_iff.mp hq with rfl | hpre
  · exact hn target hlink
  · rw [fs.dir_of_prefix hd hpre] at hlink
    cases hlink

section
variable {env : Env} {tid : Nat} {fl : Flags} {r : NetDiskRequest} {w : World} {faults : Nat → Option Fault}
  (response : NetDiskResponse) (hu : Plain r.usr) (hsg : Plain r.fileSign)
  (hdir : w.fs.node (partsDir fl r) = some .dir) {old : Option Bytes}
  (hold : w.fs.node (partPath fl r) = old.map .file)
include hu hsg hdir hold

variable (env tid faults) in
theorem md5Sum_part_faulty : ∃ sum w',
    (md5Sum (filePath fl r)).run (faulty anyFails env tid) ⟨w, faults⟩ = (sum, ⟨w', later faults⟩) ∧ w'.fs = w.fs ∧
      ∀ c, old = some c → sum = seen (faults 0) c := by
  have hl : NoLinks w.fs (partsDir fl r ++ [toString r.partIndex.toNat]) := by
    refine noLinks_of_dir hdir fun target => ?_
    rw [partsDir, ← partPath_eq, hold]
    cases old <;> simp
  obtain ⟨sum, w', hrun, hfs, hsum⟩ := md5Sum_faulty env tid faults
    (plain_signDir fl hu hsg) (plain_toString r.partIndex.toNat) hl
  rw [← filePath_text] at hrun
  refine ⟨sum, w', hrun, hfs, ?_⟩
  rintro c rfl
  refine hsum c ?_
  rw [← partPath_eq]
  exact hold

theorem checkSign_keeps
    (hrefused : Refused ((checkSign fl r response).run (faulty anyFails env tid) ⟨w, faults⟩).1) :
    ((checkSign fl r response).run (faulty anyFails env tid) ⟨w, faults⟩).2.world.fs = w.fs := by
  obtain ⟨sum, w', hrun, hfs, -⟩ := md5Sum_part_faulty env tid faults hu hsg hdir hold
  unfold checkSign at hrefused ⊢
  rw [Prog.run_bind_of _ hrun] at hrefused ⊢
  cases sum with
  | none => exact hfs
  | some sum =>
    dsimp only at hrefused ⊢
    by_cases hbad : sum ≠ r.partSign
    · rw [if_pos hbad]
      exact hfs
    · rw [if_neg hbad] at hrefused
      exact absurd hrefused (checkArrived_not_refused _ fl r response _)

variable (env) in
theorem part_opens : resolve env w.fs (cStr (filePath fl r)) = .ok (partPath fl r) ∧ w.fs.CanPut (partPath fl r) := by
  have hnodir : w.fs.node (partsDir fl r ++ [toString r.partIndex.toNat]) ≠ some .dir := by
    rw [partsDir, ← partPath_eq, hold]
    cases old <;> simp
  have hcan := canPut_of_parent hdir hnodir
  rw [partsDir, ← partPath_eq] at hcan
  refine ⟨?_, hcan⟩
  rw [filePath_text, cStr_name (plain_signDir fl hu hsg) (plain_toString _), partPath_eq]
  refine resolve_name (plain_signDir fl hu hsg) (plain_toString _) hdir fun target => ?_
  rw [← partPath_eq, hold]
  cases old <;> simp

theorem writePart_leaves
    (hrefused : Refused ((writePart fl r response).run (faulty anyFails env tid) ⟨w, faults⟩).1) :
    (((writePart fl r response).run (faulty anyFails env tid) ⟨w, faults⟩).2.world.fs.node (partPath fl r) =
      if faults 0 = none then some (.file (overlay (old.getD []) (landed r.body (later faults)))) else old.map .file) ∧
    ∀ q, q ≠ partPath fl r →
      ((writePart fl r response).run (faulty anyFails env tid) ⟨w, faults⟩).2.world.fs.node q = w.fs.node q := by
  obtain ⟨hres, hcan⟩ := part_opens env hu hsg hdir hold
  unfold writePart at hrefused ⊢
  by_cases h0 : faults 0 = none
  · obtain ⟨w', faults', hrun, hfs, -⟩ := write_opens tid r.body hold ⟨h0, hres, hcan⟩
    have hdir' : w'.fs.node (partsDir fl r) = some .dir := by
      rw [hfs, FileTree.node_put, if_neg (by simp [partPath, partsDir]), hdir]
    have hpart' : w'.fs.node (partPath fl r) =
        (some (overlay (old.getD []) (landed r.body (later faults)))).map .file := by
      rw [hfs, FileTree.node_put, if_pos rfl]
      rfl
    rw [Prog.run_bind_of _ hrun, if_neg (by simp)] at hrefused ⊢
    rw [checkSign_keeps response hu hsg hdir' hpart' hrefused, if_pos h0]
    refine ⟨hpart', fun q hq => ?_⟩
    rw [hfs, FileTree.node_put, if_neg hq]
  · have hrun := write_not_opens tid r.body (fun q hq => (Except.ok.inj (hres.symm.trans hq)).symm)
      hold fun hopen => h0 hopen.1
    rw [Prog.run_bind_of _ hrun, if_pos (by simp), if_neg h0]
    exact ⟨hold, fun q _ => rfl⟩

end

/-! ## From the question whether the part is there on -/

/-- What is left of the part when it is written: all of it, if the file is not opened or its start lands in it. -/
def Keeps (r : NetDiskRequest) (faults : Nat → Option Fault) : Option Bytes → Prop
  | none => faults 0 ≠ none
  | some c => faults 0 ≠ none ∨ landed r.body (later faults) <+: c

/-- The same with the question, the digest and the removal before it. A part that is removed has to land again. -/
def Untouched (r : NetDiskRequest) (faults : Nat → Option Fault) : Option Bytes → Prop
  | none => Keeps r (later faults) none
  | some c =>
    if faults 0 ≠ none then Keeps r (later faults) (some c)
    else match seen (faults 1) c with
      | none => True
      | some sum =>
        if sum = r.partSign then Keeps r (later (later faults)) (some c)
        else if faults 2 ≠ none then Keeps r (later (later (later faults))) (some c)
        else faults 3 = none ∧ landed r.body (later (later (later (later faults)))) = c

/-- The parts are those of the other file system. -/
def SameParts (fl : Flags) (r : NetDiskRequest) (fs fs' : FS) : Prop :=
  ∀ f, fs'.node (partsDir fl r ++ [f]) = fs.node (partsDir fl r ++ [f])

section
variable {fl : Flags} {r : NetDiskRequest} {fs fs' : FS}

theorem partsDir_snoc (fl : Flags) (r : NetDiskRequest) :
    partPath fl r = partsDir fl r ++ [toString r.partIndex.toNat] := partPath_eq fl r

theorem sameParts_iff (h : ∀ q, q ≠ partPath fl r → fs'.node q = fs.node q) :
    SameParts fl r fs fs' ↔ fs'.node (partPath fl r) = fs.node (partPath fl r) := by
  constructor
  · intro hsame
    rw [partsDir_snoc]
    exact hsame _
  · intro hpart f
    by_cases hf : partsDir fl r ++ [f] = partPath fl r
    · rw [hf, hpart]
    · exact h _ hf

end

section
variable {env : Env} {tid : Nat} {fl : Flags} {r : NetDiskRequest} {w : World} {faults : Nat → Option Fault}
  (response : NetDiskResponse) (hu : Plain r.usr) (hsg : Plain r.fileSign)
  (hdir : w.fs.node (partsDir fl r) = some .dir)
include hu hsg hdir

theorem writePart_keeps {old : Option Bytes} (hold : w.fs.node (partPath fl r) = old.map .file)
    (hrefused : Refused ((writePart fl r response).run (faulty anyFails env tid) ⟨w, faults⟩).1) :
    SameParts fl r w.fs ((writePart fl r response).run (faulty anyFails env tid) ⟨w, faults⟩).2.world.fs ↔
      Keeps r faults old := by
  obtain ⟨hpart, hothers⟩ := writePart_leaves response hu hsg hdir hold hrefused
  rw [sameParts_iff hothers, hpart, hold]
  by_cases h0 : faults 0 = none
  · rw [if_pos h0]
    cases old with
    | none => simp [Keeps, h0]
    | some c => simp [Keeps, h0, overlay_eq_self]
  · rw [if_neg h0]
    cases old with
    | none => simp [Keeps, h0]
    | some c => simp [Keeps, h0]

theorem writePart_removed {fs : FS} {c : Bytes} (hc : fs.node (partPath fl r) = some (.file c))
    (hgone : ∀ q, w.fs.node q = if q = partPath fl r then none else fs.node q)
    (hrefused : Refused ((writePart fl r response).run (faulty anyFails env tid) ⟨w, faults⟩).1) :
    SameParts fl r fs ((writePart fl r response).run (faulty anyFails env tid) ⟨w, faults⟩).2.world.fs ↔
      faults 0 = none ∧ landed r.body (later faults) = c := by
  have hnone : w.fs.node (partPath fl r) = (none : Option Bytes).map .file := by rw [hgone, if_pos rfl]; rfl
  obtain ⟨hpart, hothers⟩ := writePart_leaves response hu hsg hdir hnone hrefused
  have hothers' : ∀ q, q ≠ partPath fl r →
      ((writePart fl r response).run (faulty anyFails env tid) ⟨w, faults⟩).2.world.fs.node q = fs.node q := by
    intro q hq
    rw [hothers q hq, hgone, if_neg hq]
  rw [sameParts_iff hothers', hpart, hc]
  by_cases h0 : faults 0 = none <;> simp [h0]

theorem existingPart_iff {c : Bytes} (hc : w.fs.node (partPath fl r) = some (.file c))
    (hrefused : Refused ((existingPart fl r response).run (faulty anyFails env tid) ⟨w, faults⟩).1) :
    SameParts fl r w.fs ((existingPart fl r response).run (faulty anyFails env tid) ⟨w, faults⟩).2.world.fs ↔
      match seen (faults 0) c with
      | none => True
      | some sum =>
        if sum = r.partSign then Keeps r (later faults) (some c)
        else if faults 1 ≠ none then Keeps r (later (later faults)) (some c)
        else faults 2 = none ∧ landed r.body (later (later (later faults))) = c := by
  have hold : w.fs.node (partPath fl r) = (some c).map .file := hc
  obtain ⟨sum, w1, hrun, hfs, hsum⟩ := md5Sum_part_faulty env tid faults hu hsg hdir hold
  rw [← hsum c rfl]
  unfold existingPart at hrefused ⊢
  rw [Prog.run_bind_of _ hrun] at hrefused ⊢
  rw [← hfs] at hdir hc hold ⊢
  cases sum with
  | none => simp [SameParts]
  | some sum =>
    dsimp only at hrefused ⊢
    by_cases hgood : sum = r.partSign
    · rw [if_pos hgood] at hrefused ⊢
      rw [if_pos hgood]
      exact writePart_keeps _ hu hsg hdir hold hrefused
    rw [if_neg hgood] at hrefused ⊢
    rw [if_neg hgood]
    by_cases h1 : faults 1 = none
    · obtain ⟨w2, hdel, hfs2, -⟩ := quiet_one tid (later faults) (deleteFile_one (filePath fl r))
        (deleteFile_part hu hsg hdir hc) h1 rfl rfl
      rw [Prog.run_bind_of _ hdel] at hrefused ⊢
      rw [if_neg (by simpa using h1)]
      refine writePart_removed response hu hsg ?_ hc (fun q => ?_) hrefused
      · rw [hfs2, FileTree.node_erase, if_neg (by simp [partPath, partsDir]), hdir]
      · rw [hfs2, FileTree.node_erase]
    · obtain ⟨f, hf⟩ := Option.ne_none_iff_exists'.mp h1
      have hdel := deleteFile_fails env tid w1 (show later faults 0 = some f from hf) (filePath fl r)
      rw [Prog.run_bind_of _ hdel] at hrefused ⊢
      rw [if_pos h1]
      exact writePart_keeps response hu hsg hdir hold hrefused

theorem storePart_iff {old : Option Bytes} (hold : w.fs.node (partPath fl r) = old.map .file)
    (hrefused : Refused ((storePart fl r response).run (faulty anyFails env tid) ⟨w, faults⟩).1) :
    SameParts fl r w.fs ((storePart fl r response).run (faulty anyFails env tid) ⟨w, faults⟩).2.world.fs ↔
      Untouched r faults old := by
  unfold storePart at hrefused ⊢
  by_cases h0 : faults 0 = none
  swap
  · obtain ⟨f, hf⟩ := Option.ne_none_iff_exists'.mp h0
    rw [Prog.run_bind_of _ (existFile_fails env tid w hf (filePath fl r)), if_neg (by simp)] at hrefused ⊢
    rw [writePart_keeps response hu hsg hdir hold hrefused]
    cases old with
    | none => exact Iff.rfl
    | some c => rw [Untouched, if_pos h0]
  have hfile : w.fs.node (partPath fl r) = none ∨ ∃ c, w.fs.node (partPath fl r) = some (.file c) := by
    cases old with
    | none => exact Or.inl hold
    | some c => exact Or.inr ⟨c, hold⟩
  obtain ⟨w1, hrun, hfs, -⟩ := quiet_one tid faults (existFile_one (filePath fl r))
    (existFile_part hu hsg hdir hfile) h0 rfl rfl
  rw [Prog.run_bind_of _ hrun] at hrefused ⊢
  cases old with
  | none =>
    rw [if_neg (by rw [hold]; simp)] at hrefused ⊢
    have hnone : w1.fs.node (partPath fl r) = (none : Option Bytes).map .file := by rw [hfs]; exact hold
    rw [← hfs] at hdir ⊢
    exact writePart_keeps response hu hsg hdir hnone hrefused
  | some c =>
    rw [if_pos (by rw [hold]; simp)] at hrefused ⊢
    have hsome : w1.fs.node (partPath fl r) = some (.file c) := by rw [hfs]; exact hold
    rw [← hfs] at hdir ⊢
    rw [existingPart_iff response hu hsg hdir hsome hrefused]
    exact (iff_of_eq (if_neg (by simp [h0]))).symm

end

/-! ## The directories -/

theorem noLinks_ensureDir {fs : FS} {q : Path} (p : Path) (hl : NoLinks fs q) : NoLinks (ensureDir fs p) q := by
  intro q' hq' target hlink
  unfold ensureDir ensure at hlink
  split at hlink
  · rw [FileTree.node_put] at hlink
    split at hlink
    · cases hlink
    · exact hl q' hq' target hlink
  · exact hl q' hq' target hlink

section
variable (env : Env) (tid : Nat) {w : World} (faults : Nat → Option Fault)

theorem existDir_faulty (dirName : Bytes) : ∃ found,
    (existDir dirName).run (faulty anyFails env tid) ⟨w, faults⟩ = (found, ⟨w, later faults⟩) := by
  cases h0 : faults 0 with
  | none => exact ⟨_, Prog.run_call_of _ (faulty_quiet env tid w _ h0)⟩
  | some f => exact ⟨false, existDir_fails env tid w h0 dirName⟩

theorem mkdir_faulty {dirName : Bytes} {p : Path} {fs' : FS}
    (hends : Ends env tid (FileSys.mkdir dirName) w.fs w.db (if w.fs.node p = some .dir then 0 else -1) fs' w.db) :
    ∃ rt w', (FileSys.mkdir dirName).run (faulty anyFails env tid) ⟨w, faults⟩ = (rt, ⟨w', later faults⟩) ∧
      (rt = 0 → w.fs.node p = some .dir ∧ w'.fs = fs') := by
  cases h0 : faults 0 with
  | none =>
    obtain ⟨w', hrun, hfs, -⟩ := quiet_one tid faults (mkdir_one _) hends h0 rfl rfl
    refine ⟨_, w', hrun, fun hrt => ⟨?_, hfs⟩⟩
    by_contra hd
    simp [hd] at hrt
  | some f => exact ⟨-1, w, mkdir_fails env tid w h0 _, fun hrt => by simp at hrt⟩

end

section
variable {env : Env} {tid : Nat} {fl : Flags} {r : NetDiskRequest} {w : World} {faults : Nat → Option Fault}
  (hu : Plain r.usr) (hsg : Plain r.fileSign)
include hu hsg

variable (env tid faults) in
theorem makeTmpDirs_faulty (huser : w.fs.node (fl.usrRoot ++ [r.usr]) = some .dir) (hl : NoLinks w.fs (partPath fl r))
    (hdir : ∀ m, w.fs.node (partsDir fl r) = some m → m = .dir) : ∃ made w' faults',
    (makeTmpDirs fl r).run (faulty anyFails env tid) ⟨w, faults⟩ = (made, ⟨w', faults'⟩) ∧
      (made = true → faults' = later (later (later faults)) ∧ w'.fs = tmpDirs fl w.fs r ∧
        w'.fs.node (partsDir fl r) = some .dir) := by
  have hroot : NoLinks w.fs fl.usrRoot := fun q hq => hl q (hq.trans (List.prefix_append _ _))
  have hlu : NoLinks w.fs (fl.usrRoot ++ [r.usr]) := fun q hq => hl q (hq.trans (by simp [partPath]))
  have hlt : NoLinks w.fs (fl.usrRoot ++ [r.usr, TMP]) := fun q hq => hl q (hq.trans (by simp [partPath]))
  unfold makeTmpDirs
  obtain ⟨rt, w1, hrun, hmade⟩ := mkdir_faulty env tid faults (mkdir_clear env tid w.db fl.usr_plain hu hroot)
  rw [Flags.usrDir, Prog.run_bind_of _ hrun]
  by_cases h1 : rt = 0
  swap
  · rw [if_pos h1]
    exact ⟨false, w1, _, rfl, fun h => by cases h⟩
  rw [if_neg (by simpa using h1)]
  have hfs1 : w1.fs = w.fs := (hmade h1).2.trans (ensure_old (by simp [huser]) _)
  rw [← hfs1] at hlu hlt hdir ⊢
  obtain ⟨rt, w2, hrun, hmade⟩ := mkdir_faulty env tid (later faults)
    (mkdir_slash_clear env tid w1.db (plain_snoc fl.usr_plain hu) plain_TMP hlu)
  rw [← usrUploadDir_text] at hrun
  rw [Prog.run_bind_of _ hrun]
  by_cases h2 : rt = 0
  swap
  · rw [if_pos h2]
    exact ⟨false, w2, _, rfl, fun h => by cases h⟩
  rw [if_neg (by simpa using h2)]
  have hfs2 := (hmade h2).2
  obtain ⟨rt, w3, hrun, hmade⟩ := mkdir_faulty env tid (later (later faults))
    (mkdir_slash_clear env tid w2.db (plain_tmp fl hu) hsg (by rw [hfs2]; exact noLinks_ensureDir _ hlt))
  rw [← signDir_slash_text] at hrun
  rw [Prog.run_bind_of _ hrun]
  refine ⟨_, w3, _, rfl, fun h3 => ?_⟩
  obtain ⟨htmp, hfs3⟩ := hmade (by simpa using h3)
  have hfs : w3.fs = tmpDirs fl w1.fs r := by rw [hfs3, hfs2, tmpDirs]
  refine ⟨rfl, hfs, ?_⟩
  have happ : partsDir fl r = fl.usrRoot ++ [r.usr, TMP] ++ [r.fileSign] := by simp [partsDir]
  rw [hfs3, happ]
  refine ensureDir_made htmp fun m hm => hdir m ?_
  rw [hfs2, ensureDir, ensure_of_ne (by simp), ← happ] at hm
  exact hm

omit hu hsg in
theorem sameParts_tmpDirs (fs : FS) : SameParts fl r fs (tmpDirs fl (madeFiles fl r fs) r) := by
  intro f
  have hne : ∀ q : Path, q.length < 4 → partsDir fl r ++ [f] ≠ fl.usrRoot ++ q := by
    intro q hq h
    have hlen := congrArg List.length h
    simp only [partsDir, List.append_assoc, List.length_append, List.length_cons, List.length_nil] at hlen
    omega
  have h1 := hne [r.usr, FILES] (by simp)
  have h2 := hne [r.usr, TMP] (by simp)
  have h3 := hne [r.usr, TMP, r.fileSign] (by simp)
  rw [tmpDirs, madeFiles, ensureDir, ensureDir, ensureDir, ensure_of_ne (by simpa using h3),
    ensure_of_ne (by simpa using h2), ensure_of_ne (by simpa using h1)]

end

end UploadRpc

open UploadRpc

/-- Whatever goes wrong with the operations of a call that refuses its part, the parts are what they were exactly if the
old part, from the sixth operation on, was left alone or landed as it was. -/
theorem refused_part_iff {env : Env} {tid : Nat} {fl : Flags} {r : NetDiskRequest} {w : World}
    {faults : Nat → Option Fault} (hu : Plain r.usr) (hsg : Plain r.fileSign) (hl : NoLinks w.fs (partPath fl r))
    (hdir : ∀ m, w.fs.node (partsDir fl r) = some m → m = .dir)
    (hpart : ∀ m, w.fs.node (partPath fl r) = some m → ∃ c, m = .file c)
    (hrefused : Refused ((Do fl r .empty).run (faulty anyFails env tid) ⟨w, faults⟩).1) :
    SameParts fl r w.fs ((Do fl r .empty).run (faulty anyFails env tid) ⟨w, faults⟩).2.world.fs ↔
      Untouched r (fun k => faults (k + 5)) (fileAt w.fs (partPath fl r)) := by
  have hlu : NoLinks w.fs (fl.usrRoot ++ [r.usr]) := fun q hq => hl q (hq.trans (by simp [partPath]))
  unfold Do at hrefused ⊢
  obtain ⟨rt, w1, hrun, hmade⟩ := mkdir_faulty env tid faults
    (FileSys.mkdir_clear env tid w.db (plain_snoc fl.usr_plain hu) plain_FILES hlu)
  rw [← usrFiles_text] at hrun
  rw [Prog.run_bind_of _ hrun] at hrefused ⊢
  by_cases h0 : rt = 0
  swap
  · rw [if_pos h0] at hrefused
    exact absurd hrefused (not_refused (by decide))
  rw [if_neg (by simpa using h0)] at hrefused ⊢
  obtain ⟨huser, hfs1⟩ := hmade h0
  rw [← madeFiles] at hfs1
  obtain ⟨found, hrun⟩ := existDir_faulty env tid (w := w1) (later faults) (fileDir fl r)
  rw [Prog.run_bind_of _ hrun] at hrefused ⊢
  cases found with
  | true => exact absurd hrefused (speedUpload_not_refused _ fl r _ _)
  | false =>
    rw [if_neg (by simp)] at hrefused ⊢
    have huser1 : w1.fs.node (fl.usrRoot ++ [r.usr]) = some .dir := by
      rw [hfs1, madeFiles_of_ne huser (by simp), huser]
    have hdir1 : ∀ m, w1.fs.node (partsDir fl r) = some m → m = .dir := by
      rw [hfs1, madeFiles_of_ne huser (by simp [partsDir])]
      exact hdir
    obtain ⟨made, w2, faults2, hrun, hmade⟩ := makeTmpDirs_faulty env tid (later (later faults)) hu hsg huser1
      (by rw [hfs1]; exact noLinks_ensureDir _ hl) hdir1
    unfold uploadPart at hrefused ⊢
    rw [Prog.run_bind_of _ hrun] at hrefused ⊢
    cases made with
    | false => exact absurd hrefused (not_refused (by decide))
    | true =>
      obtain ⟨hfaults, hfs2, hdir2⟩ := hmade rfl
      rw [if_pos rfl] at hrefused ⊢
      have hsame : SameParts fl r w.fs w2.fs := by
        rw [hfs2, hfs1]
        exact sameParts_tmpDirs w.fs
      have hold : w2.fs.node (partPath fl r) = (fileAt w.fs (partPath fl r)).map .file := by
        have hpath := hsame (toString r.partIndex.toNat)
        rw [← partsDir_snoc] at hpath
        rw [hpath, fileAt]
        cases hnode : w.fs.node (partPath fl r) with
        | none => rfl
        | some m =>
          obtain ⟨c, rfl⟩ := hpart m hnode
          rfl
      have hiff := storePart_iff .empty hu hsg hdir2 hold hrefused
      rw [hfaults] at hiff ⊢
      refine Iff.trans ⟨fun h f => ?_, fun h f => ?_⟩ hiff
      · rw [h f, hsame f]
      · rw [h f, hsame f]

/-! ### A new part with another digest -/

namespace TwoParts

/-- The damaged part of a call in which nothing else goes wrong. -/
def refused : NetDiskResponse × Faulty :=
  (Do .short (request "bob" 0 "x") .empty).run (faulty anyFails .bare 0) ⟨world, fun _ => none⟩

end TwoParts

theorem refused_part_new : SameParts .short (TwoParts.request "bob" 0 "x") TwoParts.world.fs TwoParts.refused.2.world.fs ↔
    Untouched (TwoParts.request "bob" 0 "x") (fun _ => none)
      (fileAt TwoParts.world.fs (partPath .short (TwoParts.request "bob" 0 "x"))) := by
  have hnone : TwoParts.world.fs.node (partPath .short (TwoParts.request "bob" 0 "x")) = none := by decide
  have hnone' : TwoParts.world.fs.node (partsDir .short (TwoParts.request "bob" 0 "x")) = none := by decide
  have hrefused : Refused TwoParts.refused.1 := by
    unfold Refused
    decide +kernel
  have hu : Plain (TwoParts.request "bob" 0 "x").usr := by decide +kernel
  have hsg : Plain (TwoParts.request "bob" 0 "x").fileSign := by decide +kernel
  rw [TwoParts.refused] at hrefused ⊢
  exact refused_part_iff hu hsg (start_noLinks _ _ _) (by simp [hnone']) (by simp [hnone]) hrefused

/-- The part is refused, and its file stays. -/
theorem refused_part_stays :
    Refused TwoParts.refused.1 ∧
    ¬ SameParts .short (TwoParts.request "bob" 0 "x") TwoParts.world.fs TwoParts.refused.2.world.fs := by
  refine ⟨?_, fun h => ?_⟩
  · unfold Refused
    decide +kernel
  · have hsame := h (toString 0)
    exact absurd hsame (by decide +kernel)

end NetDisk
