import NetDisk.UploadSpec

/-!
# What the operations of an upload name

Whatever an upload finds, a plain user name and a plain sign make it name entries of that user only,
but for the one `mv` into the store.
-/

namespace NetDisk

open UploadRpc FileSys Mmysql Machine

variable {fl : Flags}

/-- The path that a path text names, with no look at the links on its way. -/
def named (text : Bytes) : Option Path :=
  if isAbsolute text then some (FileTree.normalize [] (pathComps text)) else none

/-- The operation names only entries below `usr_dir/u`, or moves its directory of the parts of `s` into
`files_dir`. What is written goes to what was opened. -/
def NamesOwn (fl : Flags) (u s : Name) : Sys → Prop
  | .mkdir p | .openFile p | .remove p | .symlink _ p => ∃ q, named p = some q ∧ fl.usrRoot ++ [u] <+: q
  | .shell cmd => (∃ p, shWords cmd = some [ascii "md5sum", p]) ∨
      ∃ p, shWords cmd = some [ascii "mv", p, fl.filesDir] ∧ named p = some (fl.usrRoot ++ [u, TMP, s])
  | _ => True

theorem named_name {p : Path} {n : Name} (hp : ∀ m ∈ p, Plain m) (hn : Plain n) :
    named (dirText p ++ n) = some (p ++ [n]) := by
  rw [named, if_pos (isAbsolute_dirText p n), pathComps_name p n hp hn, FileTree.normalize_names, List.nil_append]

theorem named_dirText {p : Path} (hp : ∀ m ∈ p, Plain m) : named (dirText p) = some p := by
  have habs := isAbsolute_dirText p []
  rw [List.append_nil] at habs
  rw [named, if_pos habs, pathComps_dirText p hp, FileTree.normalize_names, List.nil_append]

section
variable {request : NetDiskRequest} (response : NetDiskResponse)

theorem mkdir_uses {text : Bytes} {q : Path} (ht : cStr text = text) (hq : named text = some q)
    (hown : fl.usrRoot ++ [request.usr] <+: q) :
    (FileSys.mkdir text).Uses (NamesOwn fl request.usr request.fileSign) := by
  unfold FileSys.mkdir
  apply Prog.Uses.bind
  · apply Prog.Uses.lift
    rw [ht]
    exact ⟨q, hq, hown⟩
  · intro err
    exact Prog.Uses.ite trivial trivial

theorem writeLoop_uses {u s : Name} (fd : Nat) (text : Bytes) (fuel len : Nat) :
    (writeLoop fd text fuel len).Uses (NamesOwn fl u s) := by
  induction fuel generalizing len with
  | zero => trivial
  | succ fuel ih =>
    unfold writeLoop
    apply Prog.Uses.ite
    · exact ⟨trivial, fun _ => ih (len - writeLen)⟩
    · trivial

theorem lockedQuery_uses {u s : Name} (cmd : Bytes) : (lockedQuery cmd).Uses (NamesOwn fl u s) := by
  unfold lockedQuery runQuery
  refine ⟨trivial, fun _ => ⟨trivial, fun ok => ?_⟩⟩
  cases ok <;> exact ⟨trivial, fun _ => trivial⟩

theorem countLink_uses {u s : Name} (sign fileName : Bytes) :
    (countLink sign fileName).Uses (NamesOwn fl u s) := by
  unfold countLink runQuery
  refine ⟨trivial, fun ok => ?_⟩
  cases ok with
  | false => trivial
  | true =>
    refine ⟨trivial, fun row => ?_⟩
    cases row with
    | none => exact lockedQuery_uses _
    | some row => exact lockedQuery_uses _

variable (hu : Plain request.usr) (hsg : Plain request.fileSign)
include hu hsg

theorem linkToUsr_uses (target sign fileName : Bytes) :
    (linkToUsr target (linkPath fl request) sign fileName).Uses (NamesOwn fl request.usr request.fileSign) := by
  rw [linkPath_text]
  unfold linkToUsr link
  apply Prog.Uses.bind
  · apply Prog.Uses.bind
    · apply Prog.Uses.lift
      rw [cStr_name (plain_files fl hu) hsg]
      exact ⟨_, named_name (plain_files fl hu) hsg, ⟨[FILES, request.fileSign], by simp⟩⟩
    · intro err
      exact Prog.Uses.ite trivial trivial
  · intro rt
    exact Prog.Uses.ite trivial (countLink_uses sign fileName)

theorem publish_uses : (publish fl request response).Uses (NamesOwn fl request.usr request.fileSign) := by
  unfold publish shellOut
  apply Prog.Uses.bind
  · apply Prog.Uses.lift
    obtain ⟨hcmd, hwords⟩ := mvCmd_words fl hu hsg
    rw [hcmd]
    refine Or.inr ⟨_, hwords, ?_⟩
    rw [named_name (plain_tmp fl hu) hsg, List.append_assoc]
    rfl
  · intro shellRes
    apply Prog.Uses.ite Prog.Uses.pure
    apply Prog.Uses.bind (linkToUsr_uses hu hsg _ _ _)
    intro rt
    exact Prog.Uses.ite trivial trivial

theorem md5Sum_uses : (md5Sum (filePath fl request)).Uses (NamesOwn fl request.usr request.fileSign) := by
  rw [filePath_text]
  unfold md5Sum shellOut
  apply Prog.Uses.bind
  · exact Prog.Uses.lift (Or.inl ⟨_, md5Cmd_words (plain_signDir fl hu hsg) (plain_toString _)⟩)
  · intro res
    cases res <;> trivial

theorem checkSign_uses : (checkSign fl request response).Uses (NamesOwn fl request.usr request.fileSign) := by
  unfold checkSign checkArrived allPartArrived lsDir
  apply Prog.Uses.bind (md5Sum_uses hu hsg)
  intro curMd5
  cases curMd5 with
  | none => trivial
  | some curMd5 =>
    apply Prog.Uses.ite Prog.Uses.pure
    apply Prog.Uses.bind
    · refine ⟨trivial, fun names => ?_⟩
      cases names <;> trivial
    · intro arrived
      exact Prog.Uses.ite (publish_uses response hu hsg) trivial

variable (fl) in
theorem named_filePath : cStr (filePath fl request) = filePath fl request ∧
    ∃ q, named (filePath fl request) = some q ∧ fl.usrRoot ++ [request.usr] <+: q := by
  rw [filePath_text]
  refine ⟨cStr_name (plain_signDir fl hu hsg) (plain_toString _), _,
    named_name (plain_signDir fl hu hsg) (plain_toString _), ?_⟩
  exact ⟨[TMP, request.fileSign, toString request.partIndex.toNat], by simp⟩

theorem writePart_uses : (writePart fl request response).Uses (NamesOwn fl request.usr request.fileSign) := by
  obtain ⟨htext, hq⟩ := named_filePath fl hu hsg
  unfold writePart write
  apply Prog.Uses.bind
  · apply Prog.Uses.bind
    · apply Prog.Uses.lift
      rw [htext]
      exact hq
    · intro fd
      cases fd with
      | none => trivial
      | some fd =>
        apply Prog.Uses.bind (writeLoop_uses fd _ _ _)
        exact fun len => ⟨trivial, fun _ => ⟨trivial, fun _ => trivial⟩⟩
  · intro rt
    exact Prog.Uses.ite trivial (checkSign_uses response hu hsg)

theorem storePart_uses : (storePart fl request response).Uses (NamesOwn fl request.usr request.fileSign) := by
  obtain ⟨htext, hq⟩ := named_filePath fl hu hsg
  unfold storePart existingPart existFile deleteFile
  refine ⟨trivial, fun exist => Prog.Uses.ite ?_ (writePart_uses response hu hsg)⟩
  apply Prog.Uses.bind (md5Sum_uses hu hsg)
  intro curMd5
  cases curMd5 with
  | none => trivial
  | some curMd5 =>
    apply Prog.Uses.ite (writePart_uses _ hu hsg)
    apply Prog.Uses.bind
    · refine ⟨?_, fun err => Prog.Uses.ite trivial trivial⟩
      rw [htext]
      exact hq
    · exact fun _ => writePart_uses response hu hsg

theorem makeTmpDirs_uses : (makeTmpDirs fl request).Uses (NamesOwn fl request.usr request.fileSign) := by
  have husr := plain_snoc fl.usr_plain hu
  have htmp := plain_snoc husr plain_TMP
  have hsign := plain_snoc (plain_tmp fl hu) hsg
  unfold makeTmpDirs
  apply Prog.Uses.bind (mkdir_uses (cStr_name fl.usr_plain hu) (named_name fl.usr_plain hu) List.prefix_rfl)
  intro rt
  apply Prog.Uses.ite Prog.Uses.pure
  rw [signDir_slash_text, usrUploadDir_text]
  apply Prog.Uses.bind (mkdir_uses (cStr_dirText htmp) (named_dirText htmp) (List.prefix_append _ _))
  intro rt
  apply Prog.Uses.ite Prog.Uses.pure
  apply Prog.Uses.bind (mkdir_uses (cStr_dirText hsign) (named_dirText hsign) ⟨[TMP, request.fileSign], by simp⟩)
  exact fun rt => trivial

theorem Do_uses : (Do fl request response).Uses (NamesOwn fl request.usr request.fileSign) := by
  have husr := plain_snoc fl.usr_plain hu
  unfold Do existDir uploadPart speedUpload
  rw [usrFiles_text]
  apply Prog.Uses.bind (mkdir_uses (cStr_name husr plain_FILES) (named_name husr plain_FILES) (List.prefix_append _ _))
  intro rt
  apply Prog.Uses.ite Prog.Uses.pure
  refine ⟨trivial, fun stored => Prog.Uses.ite ?_ ?_⟩
  · apply Prog.Uses.bind (linkToUsr_uses hu hsg _ _ _)
    exact fun rt => Prog.Uses.ite trivial trivial
  · apply Prog.Uses.bind (makeTmpDirs_uses hu hsg)
    exact fun made => Prog.Uses.ite (storePart_uses response hu hsg) trivial

end

end NetDisk
