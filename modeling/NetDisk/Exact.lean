import NetDisk.Clear

/-!
# A part of a new file

What `Do` leaves in the file system when the file is not stored yet, whatever else is there: the part is written,
its digest checked, and the parts counted.
-/

namespace NetDisk

open Machine

namespace UploadRpc

open FileSys

/-- The file is not stored, the call can make its directories, and the part is a file if it is there. -/
structure Fresh (fl : Flags) (request : NetDiskRequest) (fs : FS) : Prop extends Ready fl request fs where
  files_root : fs.node fl.filesRoot = some .dir
  new : fs.node (fl.filesRoot ++ [request.fileSign]) = none
  part : ∀ m, fs.node (partPath fl request) = some m → ∃ c, m = .file c

section
variable (fl : Flags) (request : NetDiskRequest) (fs : FS)

/-- Where the parts of the file go, and the file when it is stored. -/
def partsDir : Path := fl.usrRoot ++ [request.usr, TMP, request.fileSign]
def storedDir : Path := fl.filesRoot ++ [request.fileSign]

/-- What the file of the part holds after the write. -/
def newContent : Bytes := (Part.of request).content (fileAt fs (partPath fl request))

/-- The user's `files` directory is made before anything else is looked at. -/
def madeFiles : FS := ensureDir fs (fl.usrRoot ++ [request.usr] ++ [FILES])

/-- A file with the content `c`, where one can be. -/
def setFile (p : Path) (c : Bytes) : FS := if h : fs.CanPut p then fs.put p (.file c) h else fs

/-- The file system with the part. -/
def withPart : FS :=
  setFile (tmpDirs fl (madeFiles fl request fs) request) (partPath fl request) (newContent fl request fs)

/-- The names that count as parts, with that of the request. -/
def partNames : Finset Name :=
  insert (toString request.partIndex.toNat) (listed fs (partsDir fl request))

end

section
variable {fl : Flags} {request : NetDiskRequest} {fs : FS}

theorem node_madeFiles (huser : fs.node (fl.usrRoot ++ [request.usr]) = some .dir) (q : Path) :
    (madeFiles fl request fs).node q =
      if q = fl.usrRoot ++ [request.usr, FILES] ∧ fs.node q = none then some .dir else fs.node q := by
  rw [madeFiles, node_ensureDir huser]
  simp only [List.append_assoc, List.cons_append, List.nil_append]
  by_cases hq : q = fl.usrRoot ++ [request.usr, FILES]
  · subst hq
    simp
  · simp [hq]

theorem madeFiles_of_ne (huser : fs.node (fl.usrRoot ++ [request.usr]) = some .dir) {q : Path}
    (hq : q ≠ fl.usrRoot ++ [request.usr, FILES]) : (madeFiles fl request fs).node q = fs.node q := by
  rw [node_madeFiles huser, if_neg fun h => hq h.1]

variable (hf : Fresh fl request fs)
include hf

/-! ## The file system with the part -/

theorem ready_made : Ready fl request (madeFiles fl request fs) := by
  have hne : TMP ≠ FILES := FILES_ne_TMP.symm
  refine ⟨?_, fun m hm => hf.tmp m ?_, fun m hm => hf.sign m ?_⟩
  · rw [madeFiles_of_ne hf.user (by simp), hf.user]
  · rwa [madeFiles_of_ne hf.user (by simp [hne])] at hm
  · rwa [madeFiles_of_ne hf.user (by simp)] at hm

theorem tmpDirs_part : (tmpDirs fl (madeFiles fl request fs) request).node (partPath fl request) =
    (fileAt fs (partPath fl request)).map .file := by
  rw [node_tmpDirs (ready_made hf), if_neg (by simp [partPath]), madeFiles_of_ne hf.user (by simp [partPath]), fileAt]
  cases hnode : fs.node (partPath fl request) with
  | none => rfl
  | some m =>
    obtain ⟨c, rfl⟩ := hf.part m hnode
    rfl

theorem canPut_part : (tmpDirs fl (madeFiles fl request fs) request).CanPut (partPath fl request) := by
  have hdir := tmpDirs_made (ready_made hf)
  have hpart := tmpDirs_part hf
  rw [partPath_eq] at hpart ⊢
  refine canPut_of_parent hdir ?_
  rw [hpart]
  cases fileAt fs (fl.usrRoot ++ [request.usr, TMP, request.fileSign] ++ [toString request.partIndex.toNat]) <;> simp

theorem node_withPart (q : Path) : (withPart fl request fs).node q =
    if q = partPath fl request then some (.file (newContent fl request fs))
    else if fs.node q = none ∧ (q = fl.usrRoot ++ [request.usr, FILES] ∨ q = fl.usrRoot ++ [request.usr, TMP] ∨
      q = partsDir fl request) then some .dir
    else fs.node q := by
  rw [withPart, setFile, dif_pos (canPut_part hf), FileTree.node_put]
  refine if_congr Iff.rfl rfl ?_
  rw [node_tmpDirs (ready_made hf), node_madeFiles hf.user]
  unfold partsDir
  by_cases hq : q = fl.usrRoot ++ [request.usr, FILES]
  · subst hq
    have hne : FILES ≠ TMP := FILES_ne_TMP
    cases fs.node (fl.usrRoot ++ [request.usr, FILES]) <;> simp [hne]
  · simp [hq]

theorem withPart_part :
    (withPart fl request fs).node (partPath fl request) = some (.file (newContent fl request fs)) := by
  rw [node_withPart hf, if_pos rfl]

theorem withPart_dir : (withPart fl request fs).node (partsDir fl request) = some .dir := by
  rw [node_withPart hf, if_neg (by simp [partPath, partsDir])]
  cases hnode : fs.node (partsDir fl request) with
  | none => simp
  | some m =>
    obtain rfl := hf.sign m hnode
    simp

theorem withPart_of_ne {q : Path} (hq : q ≠ partPath fl request) (hfiles : q ≠ fl.usrRoot ++ [request.usr, FILES])
    (htmp : q ≠ fl.usrRoot ++ [request.usr, TMP]) (hdir : q ≠ partsDir fl request) :
    (withPart fl request fs).node q = fs.node q := by
  rw [node_withPart hf, if_neg hq, if_neg (by tauto)]

theorem withPart_files_root : (withPart fl request fs).node fl.filesRoot = some .dir := by
  have hne : ∀ q, fl.filesRoot ≠ fl.usrRoot ++ q := fun q => by simpa using fl.files_ne_usr q []
  rw [withPart_of_ne hf (hne _) (hne _) (hne _) (hne _), hf.files_root]

theorem withPart_new : (withPart fl request fs).node (storedDir fl request) = none := by
  have hne : ∀ q, storedDir fl request ≠ fl.usrRoot ++ q := fun q => fl.files_ne_usr _ _
  rw [withPart_of_ne hf (hne _) (hne _) (hne _) (hne _)]
  exact hf.new

theorem listed_withPart : listed (withPart fl request fs) (partsDir fl request) = partNames fl request fs := by
  have hpart : partPath fl request = partsDir fl request ++ [toString request.partIndex.toNat] := partPath_eq fl request
  ext d
  rw [partNames, listed, listed, Finset.mem_insert, Finset.mem_filter, Finset.mem_filter, FileTree.mem_entries,
    FileTree.mem_entries]
  by_cases hd : d = toString request.partIndex.toNat
  · subst hd
    have hdigit : (toString request.partIndex.toNat).head? ≠ some (ch '.') := by
      intro hdot
      have := toString_digits _ _ (List.mem_of_head? hdot)
      exact absurd this.1 (by decide)
    have hnode := withPart_part hf
    rw [hpart] at hnode
    simp [hnode, hdigit]
  · have hne : partsDir fl request ++ [d] ≠ partPath fl request := by
      rw [hpart]
      simpa using hd
    rw [withPart_of_ne hf hne (by simp [partsDir]) (by simp [partsDir]) (by simp)]
    simp [hd]

end

/-! ## The call -/

section
variable {env : Env} {tid : Nat} {db : DB} {fl : Flags} {request : NetDiskRequest} {fs : FS}
  (hu : Plain request.usr) (hsg : Plain request.fileSign)
include hu hsg

variable (env tid db) in
theorem Do_stored (response : NetDiskResponse) (huser : fs.node (fl.usrRoot ++ [request.usr]) = some .dir)
    (hdir : ∀ m, fs.node (fl.usrRoot ++ [request.usr, FILES]) = some m → m = .dir)
    (hroot : fs.node fl.filesRoot = some .dir) (hst : fs.node (storedDir fl request) = some .dir) :
    ∃ response' db', Ends env tid (Do fl request response) fs db response'
      (ensureLink (madeFiles fl request fs) (fl.usrRoot ++ [request.usr, FILES, request.fileSign]) (fileDir fl request))
      db' := by
  have hmkdir := mkdir_spec env tid db (plain_snoc fl.usr_plain hu) plain_FILES huser
  rw [← usrFiles_text] at hmkdir
  have hne : ∀ q, fl.filesRoot ++ q ≠ fl.usrRoot ++ [request.usr, FILES] := fun q => fl.files_ne_usr _ _
  have hroot' : (madeFiles fl request fs).node fl.filesRoot = some .dir := by
    rw [madeFiles_of_ne huser (by simpa using hne []), hroot]
  have hst' : (madeFiles fl request fs).node (fl.filesRoot ++ [request.fileSign]) = some .dir := by
    rw [madeFiles_of_ne huser (hne _)]
    exact hst
  have hmade : (madeFiles fl request fs).node (fl.usrRoot ++ [request.usr, FILES]) = some .dir := by
    rw [node_madeFiles huser]
    cases hnode : fs.node (fl.usrRoot ++ [request.usr, FILES]) with
    | none => simp
    | some m =>
      obtain rfl := hdir m hnode
      simp
  have hexist := existDir_spec env tid db fl.files_plain hsg hroot' (by simp [hst'])
  obtain ⟨response', -, hends⟩ := speedUpload_ends env tid db response hu hsg hmade
  refine ⟨response', (linkQueries env db request.fileSign request.fileName).2, hmkdir.bind ?_⟩
  rw [if_neg (by simp), ← madeFiles]
  refine hexist.bind ?_
  rw [if_pos (by simpa using hst')]
  exact hends

variable (hf : Fresh fl request fs)
include hf

variable (env tid db) in
theorem Do_fresh {K : Code NetDiskResponse → FS → Prop} (hK : Steps env tid (fun _ _ => True) db K)
    (response : NetDiskResponse)
    (hbad : Md5.hexDigest (newContent fl request fs) ≠ request.partSign → ∀ response : NetDiskResponse,
      K (.pure (response.answer false "part sign check error")) (withPart fl request fs))
    (hmore : Md5.hexDigest (newContent fl request fs) = request.partSign →
      shardSize request.shard ≠ (partNames fl request fs).card → ∀ response : NetDiskResponse,
      K (.pure (response.answer true "success")) (withPart fl request fs))
    (hlast : Md5.hexDigest (newContent fl request fs) = request.partSign →
      shardSize request.shard = (partNames fl request fs).card → ∀ response,
      K (publish fl request response) (withPart fl request fs)) :
    K (Do fl request response) fs := by
  have hmkdir := mkdir_spec env tid db (plain_snoc fl.usr_plain hu) plain_FILES hf.user
  rw [← usrFiles_text] at hmkdir
  refine hK hmkdir trivial ?_
  rw [if_neg (by simp), ← madeFiles]
  have hne : ∀ q, fl.filesRoot ++ q ≠ fl.usrRoot ++ [request.usr, FILES] := fun q => fl.files_ne_usr _ _
  have hroot : (madeFiles fl request fs).node fl.filesRoot = some .dir := by
    rw [madeFiles_of_ne hf.user (by simpa using hne []), hf.files_root]
  have hnew : (madeFiles fl request fs).node (fl.filesRoot ++ [request.fileSign]) = none := by
    rw [madeFiles_of_ne hf.user (hne _), hf.new]
  have hexist := existDir_spec env tid db fl.files_plain hsg hroot (by simp [hnew])
  refine hK hexist trivial ?_
  rw [if_neg (by simp [hnew])]
  refine hK (makeTmpDirs_spec hu hsg (ready_made hf)) trivial ?_
  rw [if_pos rfl]
  refine storePart_steps response hu hsg Asks.any hK (tmpDirs_made (ready_made hf)) _ (tmpDirs_part hf) ?_
  intro response hcan
  have hfs : (tmpDirs fl (madeFiles fl request fs) request).put (partPath fl request)
      (.file ((Part.of request).content (fileAt fs (partPath fl request)))) hcan = withPart fl request fs := by
    rw [withPart, setFile, dif_pos hcan]
    rfl
  rw [hfs]
  refine hK (md5Sum_part hu hsg (withPart_dir hf) (withPart_part hf)) trivial ?_
  dsimp only
  by_cases hgood : Md5.hexDigest (newContent fl request fs) = request.partSign
  swap
  · rw [if_pos hgood]
    exact hbad hgood response
  rw [if_neg (by simpa using hgood)]
  refine hK (allPartArrived_listed hu hsg (withPart_dir hf) request.shard) trivial ?_
  have hcount := congrArg Finset.card (listed_withPart hf)
  rw [partsDir] at hcount
  rw [hcount]
  by_cases hall : shardSize request.shard = (partNames fl request fs).card
  · rw [if_pos (by simpa using hall)]
    exact hlast hgood hall response
  · rw [if_neg (by simpa using hall)]
    exact hmore hgood hall response

end

end UploadRpc

end NetDisk
