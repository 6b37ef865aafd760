import NetDisk.Services.Run

/-!
# Each call among the others

What a call has found out stays so, whatever the others do: its user has a directory, its parts are on their way into
the store, its descriptor is its part's file.
-/

namespace NetDisk.Services.Era

open Machine UploadRpc RegisterView Registered Server Prog FileSys Mmysql

variable {ρ ι : Type} {S : Era ρ ι}

/-! ## What lasts -/

def At (P : Files → Prop) (t : Hist Faulty ι Sys) : Prop := P (filesOf t.state.world)

def Home (fl : Flags) (r : NetDiskRequest) (x : Files) : Prop := x.fs.node (fl.usrRoot ++ [r.usr]) = some .dir

def Stored (fl : Flags) (r : NetDiskRequest) (x : Files) : Prop := x.fs.node (fl.filesRoot ++ [r.fileSign]) = some .dir

/-- No operation makes it false. -/
def Lasts (fl : Flags) (P : Files → Prop) : Prop :=
  ∀ (row : Name → Prop) (works : Prop) x y a, Shape fl x.fs → Effect fl row works x a y → P x → P y

section
variable {fl : Flags} (r : NetDiskRequest)

theorem home_lasts : Lasts fl (Home fl r) := fun _ _ _ _ _ hs h hx => (h.stays hs).user r.usr hx

theorem storedFile_lasts : Lasts fl (Stored fl r) := fun _ _ _ _ _ hs h hx => (h.stays hs).stored r.fileSign hx

theorem placed_lasts : Lasts fl (Placed fl r) := fun _ _ _ _ _ hs h hx => h.placed hs hx

theorem opened_lasts (fd : Nat) : Lasts fl (Opened fl r fd) := fun _ _ _ _ _ _ h hx => h.opens hx

variable {r} {P G : Files → Prop}

theorem Lasts.and (hP : Lasts fl P) (hG : Lasts fl G) : Lasts fl fun x => P x ∧ G x :=
  fun row works x y a hs h hx => ⟨hP row works x y a hs h hx.1, hG row works x y a hs h hx.2⟩

theorem Lasts.imp {p : Prop} (hP : Lasts fl P) : Lasts fl fun x => p → P x :=
  fun row works x y a hs h hx hp => hP row works x y a hs h (hx hp)

theorem Lasts.true : Lasts fl fun _ => True := fun _ _ _ _ _ _ _ _ => trivial

end

theorem Lasts.steady {P : Files → Prop} (hP : Lasts S.fl P) : S.proto.Steady (At P) := by
  intro t i op hinv _ _ hop ht
  obtain ⟨a, -, heffect⟩ := Promise.effect hop hinv
  exact hP _ _ _ _ a hinv.sound.shape heffect ht

/-! ## The parts of an upload -/

/-- The thread runs this upload. -/
structure Uploads (S : Era ρ ι) (i : ι) (r : NetDiskRequest) : Prop where
  call : S.calls i = .send r
  upload : IsUpload r

theorem Uploads.plain {i : ι} {r : NetDiskRequest} (h : S.Uploads i r) : PlainNames r := by
  have hclean := S.clean i
  rw [h.call] at hclean
  exact hclean h.upload

/-- What the upload may ask for as long as `P` holds. -/
def AsksWhile (S : Era ρ ι) (r : NetDiskRequest) (P : Files → Prop) (op : Sys) : Prop :=
  ∀ w, P (filesOf w) → Asks S.env S.fl S.works w (.upload r) op

section
variable {i : ι} {r : NetDiskRequest} (hr : S.Uploads i r) {P : Files → Prop} {t : Hist Faulty ι Sys}

theorem AsksWhile.harmless {op : Sys} (h : Harmless op) : S.AsksWhile r P op := fun _ _ => .harmless h

include hr in
theorem Uploads.promise {op : Sys} (h : S.AsksWhile r P op) (ht : At P t) : S.proto.promise t i op := by
  refine Or.inr ⟨.upload r, ?_, h _ ht⟩
  rw [hr.call]
  exact .upload hr.upload

include hr in
theorem uses_sat {α : Type} {p : Code α} (hP : Lasts S.fl P) (hp : p.Uses (S.AsksWhile r P)) (ht : At P t) :
    S.proto.Sat i (fun _ => At P) p t :=
  Proto.Sat.steady hp hP.steady (fun _ _ _ ht hop => hr.promise hop ht) ht

theorem pure_sat {α : Type} {a : α} (hP : Lasts S.fl P) (ht : At P t) : S.proto.Sat i (fun _ => At P) (.pure a) t :=
  Proto.Sat.pure hP.steady.stable ht fun _ _ h => h

theorem mkdir_there {s : Faulty} {text : Bytes} {p : Path} (hs : Shape S.fl s.world.fs)
    (hloc : LeadsTo S.env S.fl text p) (h : (faulty S.can S.env (S.tid i) (.mkdir text) s).1 = none ∨
      (faulty S.can S.env (S.tid i) (.mkdir text) s).1 = some .eexist) :
    (faulty S.can S.env (S.tid i) (.mkdir text) s).2.world.fs.node p ≠ none := by
  revert h
  refine @faulty_spec S.can S.env (S.tid i) (.mkdir text) s
    (fun err w => err = none ∨ err = some .eexist → w.fs.node p ≠ none) (mkdir_made hs hloc) fun _ f h => ?_
  rcases h with h | h
  · cases h
  · exact absurd (Option.some.inj h) f.err_ne

include hr in
theorem mkdir_sat {text : Bytes} {p : Path} (hP : Lasts S.fl P) (hG : Lasts S.fl G) (hloc : LeadsTo S.env S.fl (cStr text) p)
    (hasks : S.AsksWhile r P (.mkdir (cStr text)))
    (hmade : ∀ x, Shape S.fl x.fs → P x → x.fs.node p ≠ none → G x) (ht : At P t) :
    S.proto.Sat i (fun rt t => At P t ∧ (rt = 0 → At G t)) (FileSys.mkdir text) t := by
  unfold FileSys.mkdir
  refine Proto.Sat.once (P := At P) ?_ hP.steady.stable ht
    (fun rt => (hP.steady.and hG.steady.imp).stable) fun t hinv hready hok ht => ?_
  · intro err
    split <;> exact ⟨_, rfl⟩
  · have hpro := hr.promise hasks ht
    have hinv' := S.proto.inv_after t i _ hinv hready hok hpro
    have hP' := hP.steady t i _ hinv hready hok hpro ht
    refine ⟨hpro, hP', fun hrt => hmade _ hinv'.sound.shape hP' (mkdir_there hinv.sound.shape hloc ?_)⟩
    by_contra hnot
    have herr : (S.proto.handler i (.mkdir (cStr text)) t.state).1 ≠ none ∧
        (S.proto.handler i (.mkdir (cStr text)) t.state).1 ≠ some .eexist := not_or.mp hnot
    rw [lift_bind, run_call, if_pos herr] at hrt
    cases hrt

/-! ### What is only looked at, or written to the tables -/

theorem existFile_uses (path : Bytes) : (existFile path).Uses (S.AsksWhile r P) := Uses.lift (.harmless trivial)

theorem lsDir_uses (dir : Bytes) : (lsDir dir).Uses (S.AsksWhile r P) := by
  unfold lsDir
  refine ⟨.harmless trivial, fun names => ?_⟩
  cases names <;> trivial

theorem md5Sum_uses : (md5Sum (filePath S.fl r)).Uses (S.AsksWhile r P) := by
  unfold md5Sum shellOut
  refine ⟨fun _ _ => .md5sum r, fun res => ?_⟩
  cases res <;> trivial

theorem runQuery_uses {cmd : Bytes} (hcmd : cmd = selectSignCmd r.fileSign ∨ cmd = updateSignCmd r.fileSign ∨
    cmd = insertSignCmd r.fileSign r.fileName) : (runQuery cmd).Uses (S.AsksWhile r P) :=
  Uses.bind (Uses.lift fun _ _ => .count hcmd) fun _ => Uses.ite .pure .pure

theorem lockedQuery_uses {cmd : Bytes} (hcmd : cmd = selectSignCmd r.fileSign ∨ cmd = updateSignCmd r.fileSign ∨
    cmd = insertSignCmd r.fileSign r.fileName) : (lockedQuery cmd).Uses (S.AsksWhile r P) := by
  unfold lockedQuery
  refine Uses.bind (Uses.lift (.harmless trivial)) fun _ => Uses.bind (runQuery_uses hcmd) fun rt => ?_
  exact Uses.bind (Uses.lift (.harmless trivial)) fun _ => Uses.ite .pure .pure

theorem countLink_uses : (countLink r.fileSign r.fileName).Uses (S.AsksWhile r P) := by
  unfold countLink
  refine Uses.bind (runQuery_uses (Or.inl rfl)) fun rt => Uses.ite .pure ?_
  refine Uses.bind (Uses.lift (.harmless trivial)) fun row => ?_
  cases row with
  | none => exact lockedQuery_uses (Or.inr (Or.inr rfl))
  | some row => exact lockedQuery_uses (Or.inr (Or.inl rfl))

theorem deleteFile_uses (hr : S.Uploads i r) : (deleteFile (filePath S.fl r)).Uses (S.AsksWhile r P) :=
  Uses.bind (Uses.lift fun _ _ => .remove (LeadsTo.part S.env hr.plain.1 hr.plain.2)) fun _ => Uses.ite .pure .pure

theorem linkToUsr_uses (hr : S.Uploads i r) (hP : ∀ x, P x → S.works → Stored S.fl r x) :
    (linkToUsr (fileDir S.fl r) (linkPath S.fl r) r.fileSign r.fileName).Uses (S.AsksWhile r P) := by
  obtain ⟨hu, hsg⟩ := hr.plain
  unfold linkToUsr link
  rw [fileDir_cStr S.fl hsg, linkPath_text, cStr_name (plain_files S.fl hu) hsg]
  refine Uses.bind (Uses.bind (Uses.lift fun w hw => ?_) fun err => Uses.ite .pure .pure) fun rt => ?_
  · exact .link (LeadsTo.link S.env hu hsg) (hP _ hw)
  · exact Uses.ite .pure countLink_uses

/-! ### The file of the part -/

theorem writeLoop_uses {fd : Nat} (hP : ∀ x, P x → Opened S.fl r fd x) {text : Bytes} (htext : ∀ b ∈ text, b ∈ r.body)
    (fuel len : Nat) : (writeLoop fd text fuel len).Uses (S.AsksWhile r P) := by
  induction fuel generalizing len with
  | zero => exact .pure
  | succ fuel ih =>
    unfold writeLoop
    refine Uses.ite ⟨fun w hw => ?_, fun _ => ih (len - writeLen)⟩ .pure
    exact .write (hP _ hw) fun b hb => htext b (List.mem_of_mem_take hb)

theorem openFile_opened {s : Faulty} {text : Bytes} (hs : Shape S.fl s.world.fs)
    (hfinds : Finds S.env S.fl text (partPath S.fl r)) {fd : Nat}
    (h : (faulty S.can S.env (S.tid i) (.openFile text) s).1 = some fd) :
    Opened S.fl r fd (filesOf (faulty S.can S.env (S.tid i) (.openFile text) s).2.world) := by
  have hnew : ∀ fs, Opened S.fl r s.world.nextFd ((filesOf s.world).openAt fs (partPath S.fl r)) := by
    refine fun fs => ⟨Nat.lt_succ_self _, fun f p hf hp => ?_⟩
    obtain rfl : _ = f := by simpa [Files.openAt, filesOf] using hf
    exact Or.inl (Option.some.inj hp).symm
  revert h
  refine @faulty_spec S.can S.env (S.tid i) (.openFile text) s (fun reply w => reply = some fd → Opened S.fl r fd (filesOf w))
    ?_ fun _ f h => by cases h
  simp only [exec, Machine.openFile]
  rcases hfinds s.world.fs hs with h | ⟨e, h⟩
  · rw [h]
    cases hnode : s.world.fs.node (partPath S.fl r) with
    | none =>
      by_cases hcan : s.world.fs.CanPut (partPath S.fl r)
      · simp only [hnode, dif_pos hcan]
        intro hfd
        obtain rfl := Option.some.inj hfd
        exact hnew _
      · simp only [hnode, dif_neg hcan]
        intro hfd
        cases hfd
    | some n =>
      obtain ⟨c, k, rfl, -⟩ := hs.usr_entry _ _ hnode rfl
      simp only [hnode]
      intro hfd
      obtain rfl := Option.some.inj hfd
      exact hnew _
  · simp only [h]
    intro hfd
    cases hfd

include hr in
theorem write_sat (hP : Lasts S.fl P) (hinv : S.proto.inv t) (ht : At P t) :
    S.proto.Sat i (fun _ => At P) (write r.body (filePath S.fl r)) t := by
  have hfinds : Finds S.env S.fl (cStr (filePath S.fl r)) (partPath S.fl r) := Finds.part S.env hr.plain.1 hr.plain.2
  unfold write
  refine Proto.Sat.bind (Q := fun fd t => At P t ∧ ∀ k, fd = some k → At (Opened S.fl r k) t) ?_ hinv fun fd t hinv ht => ?_
  · refine Proto.Sat.lift hP.steady.stable ht (fun fd => (hP.steady.stable).and ?_) fun t hinv hready hok ht => ?_
    · intro t j op hj hinv hready hok hpro h k hk
      exact (opened_lasts r k).steady t j op hinv hready hok hpro (h k hk)
    · have hpro : S.proto.promise t i (.openFile (cStr (filePath S.fl r))) := hr.promise (fun _ _ => .openFile hfinds) ht
      exact ⟨hpro, hP.steady t i _ hinv hready hok hpro ht, fun k hk => openFile_opened hinv.sound.shape hfinds hk⟩
  · cases fd with
    | none => exact pure_sat hP ht.1
    | some fd =>
      have hboth : Lasts S.fl fun x => P x ∧ Opened S.fl r fd x := hP.and (opened_lasts r fd)
      have hbody : ∀ b ∈ cStr r.body, b ∈ r.body := fun b hb => (List.takeWhile_prefix _).subset hb
      have huses : (writeLoop fd (cStr r.body) (cStr r.body).length (intLen (cStr r.body).length)).Uses
          (S.AsksWhile r fun x => P x ∧ Opened S.fl r fd x) := writeLoop_uses (fun _ hx => hx.2) hbody _ _
      refine (uses_sat hr hboth (huses.bind fun len => ?_) ⟨ht.1, ht.2 fd rfl⟩).weaken fun _ _ _ h => h.1
      refine Uses.bind (Uses.lift fun w hw => .write hw.2 fun b hb => hbody b (List.mem_of_mem_take hb)) fun _ => ?_
      exact Uses.bind (Uses.lift (.harmless trivial)) fun _ => .pure

/-! ### From the first `mkdir` to the link -/

theorem opendir_stored (hr : S.Uploads i r) {s : Faulty} (hs : Shape S.fl s.world.fs)
    (h : (faulty S.can S.env (S.tid i) (.opendir (cStr (fileDir S.fl r))) s).1 = true) :
    Stored S.fl r (filesOf (faulty S.can S.env (S.tid i) (.opendir (cStr (fileDir S.fl r))) s).2.world) := by
  revert h
  refine @faulty_spec S.can S.env (S.tid i) (.opendir (cStr (fileDir S.fl r))) s
    (fun found w => found = true → Stored S.fl r (filesOf w)) ?_ fun _ f h => nomatch h
  intro hfound
  rw [fileDir_cStr S.fl hr.plain.2] at hfound
  have hlink : ∀ target, s.world.fs.node (S.fl.filesRoot ++ [r.fileSign]) ≠ some (.link target) := by
    intro target hl
    cases hs.store_entry _ _ hl
  simp only [exec, fileDir, Flags.filesDir, isDir_name S.fl.files_plain hr.plain.2 hs.files_root hlink] at hfound
  by_contra hno
  have hnode : s.world.fs.node (S.fl.filesRoot ++ [r.fileSign]) ≠ some .dir := hno
  rw [if_neg hnode] at hfound
  cases hfound

theorem mv_stored (hr : S.Uploads i r) (hworks : S.works) {s : Faulty} (hs : Shape S.fl s.world.fs)
    (hplaced : Placed S.fl r (filesOf s.world)) :
    Stored S.fl r (filesOf (faulty S.can S.env (S.tid i) (.shell (mvCmd S.fl r)) s).2.world) := by
  rw [faulty_cannot (S.works_moves hworks r)]
  rcases mv_files S.env (S.tid i) hs hr.plain with ⟨hsame, hstored⟩ | ⟨hcan, hdir, hmoved⟩
  · rw [hsame]
    exact hstored hplaced
  · rw [hmoved]
    have hunder := FileTree.node_move_under _ _ _ hcan []
    rw [List.append_nil, List.append_nil] at hunder
    exact hunder.trans hdir

include hr

theorem linkToUsr_sat (hP : Lasts S.fl P) (ht : At P t) (hstored : S.works → At (Stored S.fl r) t) :
    S.proto.Sat i (fun _ => At P) (linkToUsr (fileDir S.fl r) (linkPath S.fl r) r.fileSign r.fileName) t := by
  have hboth : Lasts S.fl fun x => P x ∧ (S.works → Stored S.fl r x) := hP.and (storedFile_lasts r).imp
  have huses := linkToUsr_uses (P := fun x => P x ∧ (S.works → Stored S.fl r x)) hr fun x hx => hx.2
  exact (uses_sat hr hboth huses ⟨ht, hstored⟩).weaken fun _ _ _ h => h.1

variable (response : NetDiskResponse)

theorem publish_sat (hP : Lasts S.fl P) (hinv : S.proto.inv t) (ht : At P t) (hplaced : At (Placed S.fl r) t) :
    S.proto.Sat i (fun _ => At P) (publish S.fl r response) t := by
  have hboth : Lasts S.fl fun x => P x ∧ Placed S.fl r x := hP.and (placed_lasts r)
  have hasks : S.AsksWhile r (fun x => P x ∧ Placed S.fl r x) (.shell (mvCmd S.fl r)) := fun _ _ => .mv r
  unfold publish shellOut
  rw [(mvCmd_words S.fl hr.plain.1 hr.plain.2).1]
  refine Proto.Sat.bind (Q := fun _ t => At P t ∧ (S.works → At (Stored S.fl r) t)) ?_ hinv fun shellRes t hinv ht => ?_
  · refine Proto.Sat.lift hboth.steady.stable ⟨ht, hplaced⟩
      (fun _ => (hP.and (storedFile_lasts r).imp).steady.stable) fun t hinv hready hok ht => ?_
    have hpro := hr.promise hasks ht
    refine ⟨hpro, hP.steady t i _ hinv hready hok hpro ht.1, fun hworks => ?_⟩
    exact mv_stored hr hworks hinv.sound.shape ht.2
  · split
    · exact pure_sat hP ht.1
    · refine Proto.Sat.bind (linkToUsr_sat hr hP ht.1 ht.2) hinv fun rt t _ ht => ?_
      split <;> exact pure_sat hP ht

theorem checkSign_sat (hP : Lasts S.fl P) (hinv : S.proto.inv t) (ht : At P t) (hplaced : At (Placed S.fl r) t) :
    S.proto.Sat i (fun _ => At P) (checkSign S.fl r response) t := by
  have hboth : Lasts S.fl fun x => P x ∧ Placed S.fl r x := hP.and (placed_lasts r)
  unfold checkSign checkArrived allPartArrived
  refine Proto.Sat.bind (uses_sat hr hboth md5Sum_uses ⟨ht, hplaced⟩) hinv fun curMd5 t hinv ht => ?_
  cases curMd5 with
  | none => exact pure_sat hP ht.1
  | some curMd5 =>
    dsimp only
    split
    · exact pure_sat hP ht.1
    · have huses := (lsDir_uses (S := S) (r := r) (P := fun x => P x ∧ Placed S.fl r x)
        (usrUploadDir S.fl r ++ r.fileSign)).bind fun partNum => Uses.pure (a := decide (shardSize r.shard = partNum.2.card))
      refine Proto.Sat.bind (uses_sat hr hboth huses ht) hinv fun arrived t hinv ht => ?_
      split
      · exact publish_sat hr response hP hinv ht.1 ht.2
      · exact pure_sat hP ht.1

theorem writePart_sat (hP : Lasts S.fl P) (hinv : S.proto.inv t) (ht : At P t) (hplaced : At (Placed S.fl r) t) :
    S.proto.Sat i (fun _ => At P) (writePart S.fl r response) t := by
  have hboth : Lasts S.fl fun x => P x ∧ Placed S.fl r x := hP.and (placed_lasts r)
  unfold writePart
  refine Proto.Sat.bind (write_sat hr hboth hinv ⟨ht, hplaced⟩) hinv fun rt t hinv ht => ?_
  split
  · exact pure_sat hP ht.1
  · exact checkSign_sat hr response hP hinv ht.1 ht.2

theorem storePart_sat (hP : Lasts S.fl P) (hinv : S.proto.inv t) (ht : At P t) (hplaced : At (Placed S.fl r) t) :
    S.proto.Sat i (fun _ => At P) (storePart S.fl r response) t := by
  have hboth : Lasts S.fl fun x => P x ∧ Placed S.fl r x := hP.and (placed_lasts r)
  unfold storePart existingPart
  refine Proto.Sat.bind (uses_sat hr hboth (existFile_uses _) ⟨ht, hplaced⟩) hinv fun exist t hinv ht => ?_
  split
  · refine Proto.Sat.bind (uses_sat hr hboth md5Sum_uses ht) hinv fun curMd5 t hinv ht => ?_
    cases curMd5 with
    | none => exact pure_sat hP ht.1
    | some curMd5 =>
      dsimp only
      split
      · exact writePart_sat hr _ hP hinv ht.1 ht.2
      · refine Proto.Sat.bind (uses_sat hr hboth (deleteFile_uses hr) ht) hinv fun _ t hinv ht => ?_
        exact writePart_sat hr _ hP hinv ht.1 ht.2
  · exact writePart_sat hr _ hP hinv ht.1 ht.2

theorem makeTmpDirs_sat (hinv : S.proto.inv t) (ht : At (Home S.fl r) t) :
    S.proto.Sat i (fun made t => At (Home S.fl r) t ∧ (made = true → At (Placed S.fl r) t)) (makeTmpDirs S.fl r) t := by
  obtain ⟨hu, hsg⟩ := hr.plain
  have hhome : Lasts S.fl (Home S.fl r) := home_lasts r
  have hmade : ∀ {t} {made : Bool}, At (Home S.fl r) t → (made = true → At (Placed S.fl r) t) → S.proto.Sat i
      (fun made t => At (Home S.fl r) t ∧ (made = true → At (Placed S.fl r) t)) (.pure made) t := by
    intro t made ht hplaced
    exact Proto.Sat.pure (hhome.and (placed_lasts r).imp).steady.stable ⟨ht, hplaced⟩ fun _ _ h => h
  have husr : LeadsTo S.env S.fl (cStr (dirText S.fl.usrRoot ++ r.usr)) (S.fl.usrRoot ++ [r.usr]) := by
    rw [cStr_name S.fl.usr_plain hu]
    exact LeadsTo.home S.env hu.single
  have htmp : LeadsTo S.env S.fl (cStr (dirText (S.fl.usrRoot ++ [r.usr] ++ [TMP]))) (S.fl.usrRoot ++ [r.usr, TMP]) := by
    rw [cStr_dirText (plain_snoc (plain_snoc S.fl.usr_plain hu) plain_TMP)]
    exact LeadsTo.tmp S.env hu
  have hsign : LeadsTo S.env S.fl (cStr (dirText (S.fl.usrRoot ++ [r.usr, TMP] ++ [r.fileSign])))
      (S.fl.usrRoot ++ [r.usr, TMP, r.fileSign]) := by
    rw [cStr_dirText (plain_snoc (plain_tmp S.fl hu) hsg)]
    exact LeadsTo.sign S.env hu hsg
  unfold makeTmpDirs
  rw [signDir_slash_text, usrUploadDir_text, Flags.usrDir]
  refine Proto.Sat.bind (mkdir_sat hr hhome .true husr (fun w hw => .home husr hw) (fun _ _ _ _ => trivial) ht) hinv
    fun rt t hinv ht => ?_
  split
  · exact hmade ht.1 fun h => by cases h
  refine Proto.Sat.bind (mkdir_sat hr hhome .true htmp (fun w hw => .dir (by simp) htmp) (fun _ _ _ _ => trivial) ht.1) hinv
    fun rt t hinv ht => ?_
  split
  · exact hmade ht.1 fun h => by cases h
  refine Proto.Sat.bind (mkdir_sat hr hhome (placed_lasts r) hsign (fun w hw => .dir (by simp) hsign) ?_ ht.1) hinv
    fun rt t hinv ht => hmade ht.1 fun h => ht.2 (of_decide_eq_true h)
  intro x hs _ hnode
  obtain ⟨n, hn⟩ := Option.ne_none_iff_exists'.mp hnode
  exact Or.inl (hn.trans (congrArg some ((hs.usr_entry _ _ hn).2 rfl)))

/-- An upload that gets past its first `mkdir` is that of a user with a directory. -/
theorem Do_sat (hinv : S.proto.inv t) : S.proto.Sat i
    (fun answer t => answer.res = some true → At (Home S.fl r) t) (Do S.fl r response) t := by
  obtain ⟨hu, hsg⟩ := hr.plain
  have hhome : Lasts S.fl (Home S.fl r) := home_lasts r
  have hfiles : LeadsTo S.env S.fl (cStr (dirText (S.fl.usrRoot ++ [r.usr]) ++ FILES)) (S.fl.usrRoot ++ [r.usr, FILES]) := by
    rw [cStr_name (plain_snoc S.fl.usr_plain hu) plain_FILES]
    exact LeadsTo.files S.env hu
  unfold Do existDir speedUpload uploadPart
  rw [usrFiles_text]
  refine Proto.Sat.bind (mkdir_sat hr .true hhome hfiles (fun w hw => .dir (by simp) hfiles) ?_ trivial) hinv
    fun rt t hinv ht => ?_
  · intro x _ _ hnode
    exact x.fs.dir_above (S.fl.usrRoot ++ [r.usr]) [FILES] (by simp) (by rwa [List.append_assoc])
  by_cases hrt : rt = 0
  · rw [if_neg (not_not.mpr hrt)]
    have hthere := ht.2 hrt
    -- From here on, the directory is there whatever comes.
    refine Proto.Sat.weaken (Q := fun _ => At (Home S.fl r)) ?_ fun _ _ _ h _ => h
    refine Proto.Sat.bind (Q := fun stored t => At (Home S.fl r) t ∧ (stored = true → At (Stored S.fl r) t)) ?_ hinv
      fun stored t hinv ht => ?_
    · refine Proto.Sat.lift hhome.steady.stable hthere
        (fun _ => (hhome.and (storedFile_lasts r).imp).steady.stable) fun t hinv hready hok ht => ?_
      have hpro : S.proto.promise t i (.opendir (cStr (fileDir S.fl r))) := Or.inl trivial
      refine ⟨hpro, hhome.steady t i _ hinv hready hok hpro ht, fun hfound => ?_⟩
      exact opendir_stored hr hinv.sound.shape hfound
    · split
      · rename_i hstored
        refine Proto.Sat.bind (linkToUsr_sat hr hhome ht.1 fun _ => ht.2 hstored) hinv fun rt t _ ht => ?_
        split <;> exact pure_sat hhome ht
      · refine Proto.Sat.bind (makeTmpDirs_sat hr hinv ht.1) hinv fun made t hinv ht => ?_
        split
        · rename_i hmade
          exact storePart_sat hr response hhome hinv ht.1 (ht.2 hmade)
        · exact pure_sat hhome ht.1
  · rw [if_pos hrt]
    exact Proto.Sat.pure (P := fun _ => True) Proto.Stable.const trivial fun _ _ _ h => by cases h

end

theorem Send_sat {i : ι} {r : NetDiskRequest} (hcall : S.calls i = .send r) {t : Hist Faulty ι Sys} (hinv : S.proto.inv t) :
    S.proto.Sat i (fun response t => response.res = some true → At (Home S.fl r) t)
      (NetDiskServiceImpl.Send S.fl r .empty) t := by
  have hend : ∀ {t} {response : NetDiskResponse}, (response.res = some true → At (Home S.fl r) t) → S.proto.Sat i
      (fun response t => response.res = some true → At (Home S.fl r) t) (.pure response) t :=
    fun ht => Proto.Sat.pure (home_lasts r).imp.steady.stable ht fun _ _ h => h
  unfold NetDiskServiceImpl.Send NetDiskServiceImpl.dispatch
  refine Proto.Sat.bind (Q := fun answer t => answer.res = some true → At (Home S.fl r) t) ?_ hinv fun answer t _ ht =>
    hend fun hres => ht ((NetDiskServiceImpl.setBody_res answer).symm.trans hres)
  split
  · rename_i hup
    exact Do_sat ⟨hcall, hup⟩ _ hinv
  split
  · exact hend fun hres => nomatch hres
  · exact hend fun hres => by cases hres

/-! ## Registrations -/

section
variable {i : ι} {t : Hist Faulty ι Sys}

theorem hasRow_steady (usr : Name) : S.proto.Steady fun t => HasRow t.state.world.db usr := by
  intro t j op hinv _ _ hop hrow
  obtain ⟨a, hclean, -, hasks⟩ := Promise.asks hop
  exact ((hasks.usr (S.tid j) S.sql hclean S.can).map UsrRow.name).subset hrow

/-- The thread runs this registration. -/
structure Enters (S : Era ρ ι) (i : ι) (usr passwd : Bytes) : Prop where
  actsAs : (S.calls i).ActsAs S.j (.register usr)
  single : Single usr
  usr_safe : SqlText.litSafe usr = true
  passwd_safe : SqlText.litSafe passwd = true

variable {usr passwd : Bytes} (hr : S.Enters i usr passwd)
include hr

theorem Enters.promise {op : Sys} (h : Asks S.env S.fl S.works t.state.world (.register usr) op) :
    S.proto.promise t i op := Or.inr ⟨_, hr.actsAs, h⟩

theorem usrNotExist_sat : S.proto.Sat i (fun _ _ => True) (usrNotExist usr) t := by
  have huses : (usrNotExist usr).Uses fun op => ∀ w, Asks S.env S.fl S.works w (.register usr) op := by
    unfold usrNotExist runQuery fetchRes
    refine Uses.bind (Uses.bind (Uses.lift fun _ => .row (Or.inl rfl)) fun ok => Uses.ite .pure .pure) fun rt => ?_
    refine Uses.ite .pure (Uses.bind (Uses.lift fun _ => .harmless trivial) fun row => ?_)
    cases row <;> exact .pure
  exact Proto.Sat.steady huses (P := fun _ => True) (fun _ _ _ _ _ _ _ _ => trivial)
    (fun _ _ _ _ hop => hr.promise (hop _)) trivial

theorem insert_hasRow {s : Faulty} (h : (faulty S.can S.env (S.tid i) (.query (insertUsrCmd usr passwd)) s).1 = true) :
    HasRow (faulty S.can S.env (S.tid i) (.query (insertUsrCmd usr passwd)) s).2.world.db usr := by
  revert h
  refine @faulty_spec S.can S.env (S.tid i) (.query (insertUsrCmd usr passwd)) s (fun ok w => ok = true → HasRow w.db usr)
    ?_ fun _ f h => by cases h
  simp only [exec, sql_of_read (Stmt.read_insertUsrCmd hr.usr_safe hr.passwd_safe), DB.exec]
  split_ifs with hnodup
  · intro _
    simp [HasRow]
  · intro h
    cases h

theorem insertUsr_sat :
    S.proto.Sat i (fun rt t => rt ≠ -1 → HasRow t.state.world.db usr) (insertUsr usr passwd) t := by
  unfold insertUsr runQuery
  rw [bind_assoc']
  refine Proto.Sat.once (P := fun _ => True) ?_ Proto.Stable.const trivial
    (fun rt => (hasRow_steady usr).imp.stable) fun t _ _ _ _ => ?_
  · intro ok
    cases ok <;> exact ⟨_, rfl⟩
  · refine ⟨hr.promise (.row (Or.inr ⟨passwd, hr.passwd_safe, rfl⟩)), ?_⟩
    rw [lift_bind, run_call]
    cases hok : (S.proto.handler i (.query (insertUsrCmd usr passwd)) t.state).1 with
    | false => exact fun hrt => absurd rfl hrt
    | true => exact fun _ => insert_hasRow hr hok

theorem regist_sat (hinv : S.proto.inv t) : S.proto.Sat i (fun _ _ => True) (regist S.fl usr passwd) t := by
  have hend : ∀ {t} {message : Bytes}, S.proto.Sat i (fun _ _ => True) (.pure message) t :=
    Proto.Sat.pure (P := fun _ => True) Proto.Stable.const trivial fun _ _ h => h
  unfold regist
  refine Proto.Sat.bind (usrNotExist_sat hr) hinv fun rt t hinv _ => ?_
  split
  · exact hend
  split
  · exact hend
  refine Proto.Sat.bind (insertUsr_sat hr) hinv fun rt t hinv hrow => ?_
  split
  · exact hend
  rename_i hrt
  have hloc : LeadsTo S.env S.fl (cStr (S.fl.usrDir ++ usr)) (S.fl.usrRoot ++ [usr]) := by
    rw [Flags.usrDir, cStr_single S.fl.usr_plain hr.single]
    exact LeadsTo.home S.env hr.single
  have huses : (createUsrDir S.fl usr).Uses fun op => ∀ w, HasRow w.db usr →
      Asks S.env S.fl S.works w (.register usr) op := by
    unfold createUsrDir FileSys.mkdir
    refine Uses.bind (Uses.bind (Uses.lift fun w hw => .user hloc hw) fun err => Uses.ite .pure .pure) fun rt => ?_
    exact Uses.ite .pure .pure
  refine Proto.Sat.bind (Proto.Sat.steady huses (hasRow_steady usr) (fun _ _ _ ht hop => hr.promise (hop _ ht)) (hrow hrt))
    hinv fun rt t _ _ => ?_
  split <;> exact hend

end

theorem respond_sat {i : ι} {t : Hist Faulty ι Sys} (fd : Int) (val : Json ρ) (msg : Bytes) :
    S.proto.Sat i (fun _ _ => True) (respond S.j fd val msg) t := by
  have huses : (respond S.j fd val msg).Uses Harmless := by
    unfold respond
    split
    · exact .pure
    · exact Uses.bind (Uses.bind (Uses.lift trivial) fun _ => .pure) fun _ => .pure
  exact Proto.Sat.steady huses (P := fun _ => True) (fun _ _ _ _ _ _ _ _ => trivial) (fun _ _ _ _ hop => Or.inl hop) trivial

theorem register_sat {i : ι} {msg : Bytes} {fd : Int} (hcall : S.calls i = .control msg fd) {jsonVal reqVal : Json ρ}
    (hparse : S.j.parse (cStr msg) = (true, jsonVal))
    (htype : Control.readType S.j jsonVal = .ok (MsgType.register.toInt, reqVal)) {t : Hist Faulty ι Sys}
    (hinv : S.proto.inv t) : S.proto.Sat i (fun _ _ => True) (RegisterView.Process S.j S.fl reqVal fd) t := by
  unfold RegisterView.Process
  cases hread : readRequest S.j reqVal with
  | error crash => exact Proto.Sat.pure (P := fun _ => True) Proto.Stable.const trivial fun _ _ h => h
  | ok names =>
    obtain ⟨usr, passwd⟩ := names
    have hreg : Registers S.j msg usr passwd := ⟨jsonVal, reqVal, hparse, htype, hread⟩
    have hclean := S.clean i
    rw [hcall] at hclean
    obtain ⟨hsingle, husr, hpasswd⟩ := hclean usr passwd hreg
    have henters : S.Enters i usr passwd := ⟨hcall ▸ .register fd hreg, hsingle, husr, hpasswd⟩
    exact Proto.Sat.bind (regist_sat henters hinv) hinv fun _ _ _ _ => respond_sat fd _ _

theorem Control_sat {i : ι} {msg : Bytes} {fd : Int} (hcall : S.calls i = .control msg fd) {t : Hist Faulty ι Sys}
    (hinv : S.proto.inv t) : S.proto.Sat i (fun _ _ => True) (Control.Process S.j S.fl msg fd) t := by
  have hend : ∀ {t} {crash : Crash}, S.proto.Sat i (fun _ _ => True) (.pure (.error crash : Except Crash Unit)) t :=
    Proto.Sat.pure (P := fun _ => True) Proto.Stable.const trivial fun _ _ h => h
  unfold Control.Process
  split
  · exact respond_sat fd _ _
  · rename_i jsonVal hparse
    split
    · exact hend
    · rename_i type reqVal htype
      split
      · cases hview : Control.viewMap type with
        | none => exact hend
        | some view =>
          cases view
          have hregister : type = MsgType.register.toInt := by
            by_contra hne
            rw [Control.viewMap, if_neg hne] at hview
            cases hview
          exact register_sat hcall hparse (hregister ▸ htype) hinv
      · exact respond_sat fd _ _

/-! ## All calls together -/

/-- What is so when a call has ended. -/
def Ends (S : Era ρ ι) (i : ι) : Reply → Hist Faulty ι Sys → Prop
  | .response response, t => ∀ r, S.calls i = .send r → response.res = some true → At (Home S.fl r) t
  | .processed _, _ => True

theorem code_sat {i : ι} {t : Hist Faulty ι Sys} (hinv : S.proto.inv t) :
    S.proto.Sat i (S.Ends i) ((S.calls i).code S.j S.fl) t := by
  cases hcall : S.calls i with
  | send r =>
    refine Proto.Sat.bind (Send_sat hcall hinv) hinv fun response t _ ht => ?_
    refine Proto.Sat.pure (home_lasts r).imp.steady.stable ht fun t _ h r' hcall' hres => ?_
    cases hcall.symm.trans hcall'
    exact h hres
  | control msg fd =>
    refine Proto.Sat.bind (Control_sat hcall hinv) hinv fun out t _ _ => ?_
    exact Proto.Sat.pure (P := fun _ => True) Proto.Stable.const trivial fun _ _ _ => trivial

end NetDisk.Services.Era
