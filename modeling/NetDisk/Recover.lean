import NetDisk.Lib.Along
import NetDisk.Reference
import NetDisk.Rejected
import NetDisk.Retry

/-!
# A request that is cut short

The server is killed in the middle of a request, after any number of its operations, and started again, and the request
comes again. The disk ends as it would have, and no reference is missing.
-/

namespace NetDisk

open Machine UploadRpc FileSys Server

variable {env : Env} {fl : Flags}

/-! ## What does not change the end -/

namespace UploadRpc

variable {r : NetDiskRequest} {fs fs' : FS}

/-- No part that passes the check is longer than what the request writes. -/
def PartFits (fl : Flags) (r : NetDiskRequest) (fs : FS) : Prop :=
  ∀ c, fileAt fs (partPath fl r) = some c → Md5.hexDigest c = r.partSign → c.length ≤ (written r.body).length

theorem newContent_fits (h : PartFits fl r fs) : newContent fl r fs = written r.body := by
  unfold newContent
  cases hpart : fileAt fs (partPath fl r) with
  | none => rfl
  | some c =>
    by_cases hgood : Md5.hexDigest c = r.partSign
    · rw [Part.content_good hgood]
      change written r.body ++ c.drop (written r.body).length = written r.body
      rw [List.drop_eq_nil_of_le (h c hpart hgood), List.append_nil]
    · rw [Part.content_bad hgood]
      rfl

/-- Some of the directories have been made, and the part is as it may be in between. -/
structure Between (fl : Flags) (r : NetDiskRequest) (fs fs' : FS) : Prop where
  shape : Shape fl fs'
  fits : PartFits fl r fs'
  same : ∀ q, q ≠ partPath fl r → fs'.node q = fs.node q ∨ fs.node q = none ∧ fs'.node q = some .dir ∧
    (q = fl.usrRoot ++ [r.usr, FILES] ∨ q = fl.usrRoot ++ [r.usr, TMP] ∨ q = partsDir fl r)

theorem Between.refl (hs : Shape fl fs) (hfits : PartFits fl r fs) : Between fl r fs fs :=
  ⟨hs, hfits, fun _ _ => Or.inl rfl⟩

theorem Between.of_none (h : Between fl r fs fs') {q : Path} (hne : q ≠ partPath fl r)
    (hfiles : q ≠ fl.usrRoot ++ [r.usr, FILES]) (htmp : q ≠ fl.usrRoot ++ [r.usr, TMP]) (hdir : q ≠ partsDir fl r) :
    fs'.node q = fs.node q := by
  rcases h.same q hne with h | ⟨-, -, h⟩
  · exact h
  · tauto

theorem Between.user (h : Between fl r fs fs') : fs'.node (fl.usrRoot ++ [r.usr]) = fs.node (fl.usrRoot ++ [r.usr]) :=
  h.of_none (by simp [partPath]) (by simp) (by simp) (by simp [partsDir])

theorem Between.stored (h : Between fl r fs fs') : fs'.node (storedDir fl r) = fs.node (storedDir fl r) := by
  have hne : ∀ q, storedDir fl r ≠ fl.usrRoot ++ q := fun q => fl.files_ne_usr _ _
  exact h.of_none (hne _) (hne _) (hne _) (hne _)

theorem PartFits.congr (h : PartFits fl r fs) (hpart : fs'.node (partPath fl r) = fs.node (partPath fl r)) :
    PartFits fl r fs' := by
  intro c hc
  rw [fileAt, hpart] at hc
  exact h c hc

theorem Between.ensureDir {p : Path} {n : Name} {fs'' : FS} (h : Between fl r fs fs') (hs : Shape fl fs'')
    (hfs : fs'' = Machine.ensureDir fs' (p ++ [n])) (hd : fs'.node p = some .dir) (hplace : p ++ [n] =
      fl.usrRoot ++ [r.usr, FILES] ∨ p ++ [n] = fl.usrRoot ++ [r.usr, TMP] ∨ p ++ [n] = partsDir fl r) :
    Between fl r fs fs'' := by
  have hnode : ∀ q, fs''.node q = if q = p ++ [n] ∧ fs'.node q = none then some .dir else fs'.node q := by
    intro q
    rw [hfs, node_ensureDir hd]
    by_cases hq : q = p ++ [n]
    · rw [hq]
    · simp [hq]
  refine ⟨hs, h.fits.congr ?_, fun q hq => ?_⟩
  · rw [hnode, if_neg]
    rintro ⟨heq, -⟩
    rw [← heq] at hplace
    simp [partPath, partsDir] at hplace
  · rw [hnode]
    split
    · rename_i hmade
      obtain ⟨rfl, hnone⟩ := hmade
      rcases h.same _ hq with hsame | ⟨-, hdir, -⟩
      · exact Or.inr ⟨hsame ▸ hnone, rfl, hplace⟩
      · exact absurd (hnone.symm.trans hdir) (by simp)
    · exact h.same q hq

theorem Between.put (h : Between fl r fs fs') {c : Bytes} (hc : c.length ≤ (written r.body).length)
    (hcan : fs'.CanPut (partPath fl r)) : Between fl r fs (fs'.put (partPath fl r) (.file c) hcan) := by
  refine ⟨h.shape.put_usr hcan fun _ => ⟨c, _, rfl, rfl⟩, fun c' hc' _ => ?_, fun q hq => ?_⟩
  · rw [fileAt, FileTree.node_put, if_pos rfl] at hc'
    cases hc'
    exact hc
  · rw [FileTree.node_put, if_neg hq]
    exact h.same q hq

theorem Between.erase (h : Between fl r fs fs') (hcan : fs'.CanErase (partPath fl r)) :
    Between fl r fs (fs'.erase (partPath fl r) hcan) := by
  have hnode : ∀ q n, (fs'.erase (partPath fl r) hcan).node q = some n → fs'.node q = some n := by
    intro q n hq
    rw [FileTree.node_erase] at hq
    split at hq
    · cases hq
    · exact hq
  refine ⟨⟨?_, ?_, fun q n hq => h.shape.usr_entry q n (hnode _ n hq),
    fun q n hq => h.shape.store_entry q n (hnode _ n hq)⟩, fun c hc _ => ?_, fun q hq => ?_⟩
  · rw [FileTree.node_erase, if_neg (by simp [partPath])]
    exact h.shape.usr_root
  · rw [FileTree.node_erase, if_neg (by simpa [partPath] using fl.files_ne_usr _ [])]
    exact h.shape.files_root
  · rw [fileAt, FileTree.node_erase, if_pos rfl] at hc
    cases hc
  · rw [FileTree.node_erase, if_neg hq]
    exact h.same q hq

variable (huser : fs.node (fl.usrRoot ++ [r.usr]) = some .dir) (hnew : fs.node (storedDir fl r) = none)
include huser hnew

theorem Between.withPart_eq (h : Between fl r fs fs') (hs : Shape fl fs) (hfits : PartFits fl r fs) :
    withPart fl r fs' = withPart fl r fs := by
  have hf : Fresh fl r fs := .of_shape hs huser hnew
  have hf' : Fresh fl r fs' := .of_shape h.shape (h.user.trans huser) (h.stored.trans hnew)
  refine FileTree.ext_node (funext fun q => ?_)
  rw [node_withPart hf, node_withPart hf', newContent_fits hfits, newContent_fits h.fits]
  by_cases hq : q = partPath fl r
  · rw [if_pos hq, if_pos hq]
  rw [if_neg hq, if_neg hq]
  rcases h.same q hq with hsame | ⟨hnone, hdir, hplace⟩
  · rw [hsame]
  · rw [if_neg fun h => absurd (hdir.symm.trans h.1) (by simp), if_pos ⟨hnone, hplace⟩, hdir]

theorem Between.eq_withPart (h : Between fl r fs fs') (hs : Shape fl fs) (hfits : PartFits fl r fs)
    (hpart : fs'.node (partPath fl r) = some (.file (written r.body)))
    (hfiles : fs'.node (fl.usrRoot ++ [r.usr, FILES]) ≠ none) (hdir : fs'.node (partsDir fl r) ≠ none) :
    fs' = withPart fl r fs := by
  have hf : Fresh fl r fs := .of_shape hs huser hnew
  have htmp : fs'.node (fl.usrRoot ++ [r.usr, TMP]) ≠ none := by
    have habove := fs'.dir_above (fl.usrRoot ++ [r.usr, TMP]) [r.fileSign] (by simp) (by simpa [partsDir] using hdir)
    rw [habove]
    simp
  refine FileTree.ext_node (funext fun q => ?_)
  rw [node_withPart hf, newContent_fits hfits]
  by_cases hq : q = partPath fl r
  · rw [if_pos hq, hq, hpart]
  rw [if_neg hq]
  rcases h.same q hq with hsame | ⟨hnone, hmade, hplace⟩
  · rw [hsame, if_neg]
    rintro ⟨hnone, hplace⟩
    rw [← hsame] at hnone
    rcases hplace with rfl | rfl | rfl
    · exact hfiles hnone
    · exact htmp hnone
    · exact hdir hnone
  · rw [hmade, if_pos ⟨hnone, hplace⟩]

/-- The call goes on as if it had not been cut. -/
theorem handle_between {w t : World} (hw : w.fs = fs) (h : Between fl r fs t.fs) (hs : Shape fl fs)
    (hfits : PartFits fl r fs) (hr : PlainNames r) : (handle env fl t r).2.fs = (handle env fl w r).2.fs := by
  subst hw
  have huser' := h.user.trans huser
  have hnew' := h.stored.trans hnew
  have hwith := h.withPart_eq huser hnew hs hfits
  have hcontent : newContent fl r t.fs = newContent fl r w.fs := (newContent_fits h.fits).trans (newContent_fits hfits).symm
  have hnames : partNames fl r t.fs = partNames fl r w.fs := by
    rw [← listed_withPart (.of_shape hs huser hnew), ← listed_withPart (.of_shape h.shape huser' hnew'), hwith]
  by_cases hlast : Md5.hexDigest (newContent fl r w.fs) = r.partSign ∧ shardSize r.shard = (partNames fl r w.fs).card
  · obtain ⟨hgood, hall⟩ := hlast
    obtain ⟨hcan, hend⟩ := handle_last env hs hr huser hnew hgood hall
    obtain ⟨hcan', hend'⟩ := handle_last env h.shape hr huser' hnew' (hcontent ▸ hgood) (hnames ▸ hall)
    have hmoved : (withPart fl r t.fs).move _ _ hcan' = (withPart fl r w.fs).move _ _ hcan := by
      revert hcan'
      rw [hwith]
      exact fun _ _ => rfl
    rw [hend, hend', hmoved]
  · rw [handle_part env hs hr huser hnew fun hgood hall => hlast ⟨hgood, hall⟩, ← hwith]
    refine handle_part env h.shape hr huser' hnew' fun hgood hall => hlast ⟨?_, ?_⟩
    · rw [← hcontent]
      exact hgood
    · rw [← hnames]
      exact hall

omit huser hnew in
theorem handle_moved {w t : World} (hr : PlainNames r) (hs : Shape fl t.fs)
    (huser : t.fs.node (fl.usrRoot ++ [r.usr]) = some .dir) (hfiles : t.fs.node (fl.usrRoot ++ [r.usr, FILES]) = some .dir)
    (hst : t.fs.node (storedDir fl r) = some .dir) (hend : (handle env fl w r).2.fs =
      ensureLink t.fs (fl.usrRoot ++ [r.usr, FILES, r.fileSign]) (fileDir fl r)) :
    (handle env fl t r).2.fs = (handle env fl w r).2.fs := by
  have hmade : madeFiles fl r t.fs = t.fs := by
    unfold madeFiles ensureDir
    exact ensure_old (by simp [hfiles]) _
  rw [handle_stored env hs hr huser hst, hmade, hend]

end UploadRpc

theorem request_cases {r : NetDiskRequest} {fs : FS} (hs : Shape fl fs) : fs.node (fl.usrRoot ++ [r.usr]) = none ∨
    fs.node (fl.usrRoot ++ [r.usr]) = some .dir ∧
      (fs.node (storedDir fl r) = some .dir ∨ fs.node (storedDir fl r) = none) := by
  by_cases hnone : fs.node (fl.usrRoot ++ [r.usr]) = none
  · exact Or.inl hnone
  refine Or.inr ⟨hs.user_dir hnone, ?_⟩
  cases hst : fs.node (storedDir fl r) with
  | none => exact Or.inr rfl
  | some m => exact Or.inl (congrArg some (hs.store_entry [r.fileSign] m hst))

theorem madeFiles_dir {r : NetDiskRequest} {fs : FS} (hs : Shape fl fs)
    (huser : fs.node (fl.usrRoot ++ [r.usr]) = some .dir) :
    (madeFiles fl r fs).node (fl.usrRoot ++ [r.usr, FILES]) = some .dir := by
  have hmade := ensureDir_made (n := FILES) huser fun m hm =>
    hs.usr_entry [r.usr, FILES] m (by simpa using hm) (Or.inl rfl)
  simpa [madeFiles] using hmade

theorem handle_files {r : NetDiskRequest} {w u : World} (hr : PlainNames r) (hs : Shape fl w.fs) (hfits : PartFits fl r w.fs)
    (h : u.fs = w.fs) : (handle env fl u r).2.fs = (handle env fl w r).2.fs := by
  have hs' : Shape fl u.fs := h ▸ hs
  rcases request_cases hs with hnone | ⟨huser, hst | hnew⟩
  · rw [handle_noUser env hs hr hnone, handle_noUser env hs' hr (h ▸ hnone), h]
  · rw [handle_stored env hs hr huser hst, handle_stored env hs' hr (h ▸ huser) (h ▸ hst), h]
  · have hsame : Between fl r w.fs u.fs := by
      rw [h]
      exact .refl hs hfits
    exact handle_between huser hnew rfl hsame hs hfits hr

/-! ## Where the call can be cut -/

/-- The server is killed in this state: doing the request again ends as it would have. -/
structure Resumable (env : Env) (fl : Flags) (r : NetDiskRequest) (w t : World) : Prop where
  shape : Shape fl t.fs
  fits : PartFits fl r t.fs
  again : (handle env fl t r).2.fs = (handle env fl w r).2.fs
  tables : t.db = w.db ∨ t.db = (handle env fl w r).2.db

/-- The same of the files alone. -/
def ResumableFs (env : Env) (fl : Flags) (r : NetDiskRequest) (w : World) (fs : FS) : Prop :=
  ∀ t : World, t.fs = fs → (t.db = w.db ∨ t.db = (handle env fl w r).2.db) → Resumable env fl r w t

/-- It can be killed in each state of this code. -/
def Survives {α : Type} (env : Env) (fl : Flags) (r : NetDiskRequest) (w : World) (c : Code α) (fs : FS) : Prop :=
  ∀ t : World, t.fs = fs → t.db = w.db → c.Along (exec env 0) (Resumable env fl r w) t

section
variable {r : NetDiskRequest} {w : World} {fs fs' : FS} {α β : Type}

theorem ResumableFs.survives_pure (h : ResumableFs env fl r w fs) (a : α) : Survives env fl r w (.pure a) fs :=
  fun t hfs hdb => .pure (h t hfs (Or.inl hdb))

theorem Survives.bind {c : Code α} {f : α → Code β} {a : α} (hends : Ends env 0 c fs w.db a fs' w.db)
    (hc : Survives env fl r w c fs) (hrest : Survives env fl r w (f a) fs') : Survives env fl r w (c >>= f) fs := by
  intro t hfs hdb
  obtain ⟨h1, h2, h3⟩ := hends t hfs hdb
  refine (hc t hfs hdb).bind ?_
  rw [h1]
  exact hrest _ h2 h3

/-- One operation, and the rest of the call. -/
theorem Survives.step {c : Code α} {f : α → Code β} {a : α} (hends : Ends env 0 c fs w.db a fs' w.db) (hone : c.One)
    (hcut : ResumableFs env fl r w fs) (hrest : Survives env fl r w (f a) fs') : Survives env fl r w (c >>= f) fs := by
  refine Survives.bind hends (fun t hfs hdb => ?_) hrest
  obtain ⟨-, h2, h3⟩ := hends t hfs hdb
  exact .one hone (hcut t hfs (Or.inl hdb)) (hrest _ h2 h3).start

theorem Survives.bind_pure {c : Code α} {f : α → Code β} (h : Survives env fl r w c fs) (hf : ∀ a, ∃ b, f a = .pure b) :
    Survives env fl r w (c >>= f) fs := fun t hfs hdb => (h t hfs hdb).bind_pure hf

theorem allPartArrived_one (dir : Bytes) (shard : UInt32) : (allPartArrived dir shard).One := by
  refine ⟨_, _, rfl, fun (names : Option (Finset Name)) => ?_⟩
  cases names with
  | none => exact ⟨_, rfl⟩
  | some names => exact ⟨_, rfl⟩

/-! ### The queries -/

theorem runQuery_state (env : Env) (tid : Nat) (cmd : Bytes) (t : World) :
    ((Mmysql.runQuery cmd).run (exec env tid) t).2.fs = t.fs ∧
    ((Mmysql.runQuery cmd).run (exec env tid) t).2.db = (queryOutcome env t.db cmd).2 := by
  unfold queryOutcome
  cases hq : sql env t.db cmd with
  | none =>
    rw [runQuery_none env tid hq]
    exact ⟨rfl, rfl⟩
  | some res =>
    rw [runQuery_some env tid hq]
    exact ⟨rfl, rfl⟩

theorem lockedQuery_survives {cmd : Bytes} (hcut : ResumableFs env fl r w fs)
    (hdb : (queryOutcome env w.db cmd).2 = (handle env fl w r).2.db) : Survives env fl r w (lockedQuery cmd) fs := by
  intro t hfs htdb
  have hstate := runQuery_state env 0 cmd { t with locked := true }
  unfold lockedQuery
  have hqueried : ∀ u : World, u.fs = t.fs → u.db = (queryOutcome env t.db cmd).2 → Resumable env fl r w u :=
    fun u hufs hudb => hcut u (hufs.trans hfs) (Or.inr (by rw [hudb, htdb, hdb]))
  refine .lift_bind (hcut t hfs (Or.inl htdb)) ?_
  refine Prog.Along.bind (.one (runQuery_one cmd) (hcut _ hfs (Or.inl htdb)) (hqueried _ hstate.1 hstate.2)) ?_
  refine .lift_bind (hqueried _ hstate.1 hstate.2) ?_
  split <;> exact .pure (hqueried _ hstate.1 hstate.2)

theorem countLink_survives {sign fileName : Bytes} (hsign : SqlText.litSafe sign = true) (hcut : ResumableFs env fl r w fs)
    (hdb : (linkQueries env w.db sign fileName).2 = (handle env fl w r).2.db) :
    Survives env fl r w (countLink sign fileName) fs := by
  intro t hfs htdb
  obtain ⟨rows, hexec, hrows⟩ := exec_select env hsign 0 t
  have hquery : (Mmysql.runQuery (selectSignCmd sign)).run (exec env 0) t =
      (0, { t with pending := Function.update t.pending 0 (some rows) }) := Prog.run_call_of _ hexec
  have hcut' : ∀ u : World, u.fs = t.fs → u.db = t.db → Resumable env fl r w u :=
    fun u hufs hudb => hcut u (hufs.trans hfs) (Or.inl (hudb.trans htdb))
  unfold countLink
  refine Prog.Along.bind_of hquery (.one (runQuery_one _) (hcut' t rfl rfl) (hquery ▸ hcut' _ rfl rfl)) ?_
  rw [if_neg (by simp)]
  refine .lift_bind (hcut' _ rfl rfl) ?_
  have hrow : (exec env 0 .fetch { t with pending := Function.update t.pending 0 (some rows) }).1 = rows.head? := by
    simp [exec]
  rw [hrow]
  rw [linkQueries_eq env w.db hsign] at hdb
  rw [htdb] at hrows
  cases hhead : rows.head? with
  | none =>
    rw [if_pos (hrows.mp hhead)] at hdb
    exact lockedQuery_survives hcut hdb _ hfs htdb
  | some row =>
    rw [if_neg fun hnone => by simp [hhead] at hrows; exact hrows hnone] at hdb
    exact lockedQuery_survives hcut hdb _ hfs htdb

variable (hr : PlainNames r)
include hr

theorem linkToUsr_survives (hcut : ResumableFs env fl r w fs) (hfiles : fs.node (fl.usrRoot ++ [r.usr, FILES]) = some .dir)
    (hlinked : ResumableFs env fl r w (ensureLink fs (fl.usrRoot ++ [r.usr, FILES, r.fileSign]) (fileDir fl r)))
    (hdb : (linkQueries env w.db r.fileSign r.fileName).2 = (handle env fl w r).2.db) :
    Survives env fl r w (linkToUsr (fileDir fl r) (linkPath fl r) r.fileSign r.fileName) fs := by
  have hlink := link_ensures env 0 w.db (plain_files fl hr.1) hr.2 (fileDir_cStr fl hr.2) (fileDir_ne_nil fl r) hfiles
  rw [← linkPath_text, List.append_assoc] at hlink
  unfold linkToUsr
  refine Survives.step hlink (link_one _ _) hcut ?_
  rw [if_neg (by simp)]
  exact countLink_survives hr.2.litSafe hlinked hdb

omit hr in
theorem writeLoop_along {J : World → Prop} {p : Path} {h : fs.CanPut p} {fd : Nat} {old : Bytes} {db : DB} {size : Nat}
    (hJ : ∀ a u, a.length ≤ size → Writing fs db p h fd old a u → J u) (s : Bytes) (fuel len : Nat) {a : Bytes} {u : World}
    (hw : Writing fs db p h fd old a u) (hsize : (a ++ writtenFrom s fuel len).length ≤ size) :
    (writeLoop fd s fuel len).Along (exec env 0) J u := by
  induction fuel generalizing a u len with
  | zero =>
    rw [List.length_append] at hsize
    exact .pure (hJ a u (by omega) hw)
  | succ fuel ih =>
    have ha : a.length ≤ size := by
      rw [List.length_append] at hsize
      omega
    unfold writtenFrom at hsize
    unfold writeLoop
    split
    · rename_i hlen
      rw [if_pos hlen, ← List.append_assoc] at hsize
      exact .lift_bind (hJ a u ha hw) (ih _ (hw.write env 0 _) hsize)
    · exact .pure (hJ a u ha hw)

theorem write_survives {old : Option Bytes} (hcut : ResumableFs env fl r w fs)
    (hdir : fs.node (fl.usrRoot ++ [r.usr, TMP, r.fileSign]) = some .dir) (hold : fs.node (partPath fl r) = old.map .file)
    (hput : ∀ hcan a, a.length ≤ (written r.body).length →
      ResumableFs env fl r w (fs.put (partPath fl r) (.file (overlay (old.getD []) a)) hcan)) :
    Survives env fl r w (write r.body (filePath fl r)) fs := by
  intro t hfs hdb
  subst hfs
  rw [partPath_eq] at hold hput
  have hplain := plain_signDir fl hr.1 hr.2
  have hcan := canPut_of_parent (n := toString r.partIndex.toNat) hdir (by rw [hold]; cases old <;> simp)
  have hres : resolve env t.fs (filePath fl r) =
      .ok (fl.usrRoot ++ [r.usr, TMP, r.fileSign] ++ [toString r.partIndex.toNat]) := by
    rw [filePath_text]
    exact resolve_name hplain (plain_toString _) hdir fun target => by rw [hold]; cases old <;> simp
  obtain ⟨t', hexec, hw⟩ := openFile_writing 0 hres hcan hold
  have hJ : ∀ a u, a.length ≤ (written r.body).length →
      Writing t.fs t.db _ hcan t.nextFd (old.getD []) a u → Resumable env fl r w u :=
    fun a u ha hu => hput hcan a ha u hu.fs_eq (Or.inl (hu.db_eq.trans hdb))
  have hpath : cStr (filePath fl r) = filePath fl r := by
    rw [filePath_text]
    exact cStr_name hplain (plain_toString _)
  unfold write
  rw [hpath]
  refine .lift_bind (hcut t rfl (Or.inl hdb)) ?_
  rw [hexec]
  dsimp only
  obtain ⟨b, hb, hloop⟩ := hw.loop env 0 (cStr r.body) (cStr r.body).length (intLen (cStr r.body).length)
  refine (writeLoop_along hJ _ _ _ hw (le_of_eq rfl)).bind ?_
  have hlast := hloop.write env 0 ((cStr r.body).take
    ((writeLoop t.nextFd (cStr r.body) (cStr r.body).length (intLen (cStr r.body).length)).run (exec env 0) t').1)
  rw [hb, List.nil_append] at hlast
  refine .lift_bind (hJ b _ ?_ hloop) (.lift_bind (hJ _ _ le_rfl hlast) (.pure ?_))
  · have hlen := congrArg List.length hb
    rw [List.nil_append, List.length_append] at hlen
    change b.length ≤ (writtenFrom (cStr r.body) (cStr r.body).length (intLen (cStr r.body).length)).length
    omega
  · exact hput hcan _ le_rfl _ hlast.fs_eq (Or.inl (hlast.db_eq.trans hdb))

/-! ### The call -/

variable (hs : Shape fl w.fs)
include hs

theorem handle_counts (hlinks : ((disk fl w).outcome (Part.of r)).links = true) :
    (linkQueries env w.db r.fileSign r.fileName).2 = (handle env fl w r).2.db := by
  obtain ⟨-, -, -, hdb⟩ := handle_spec env hs hr
  rw [hdb, if_pos hlinks]

omit hs in
theorem cut_linking (hs' : Shape fl fs) (hfits : PartFits fl r fs) (huser : fs.node (fl.usrRoot ++ [r.usr]) = some .dir)
    (hfiles : fs.node (fl.usrRoot ++ [r.usr, FILES]) = some .dir) (hst : fs.node (storedDir fl r) = some .dir)
    (hend : (handle env fl w r).2.fs = ensureLink fs (fl.usrRoot ++ [r.usr, FILES, r.fileSign]) (fileDir fl r)) :
    ResumableFs env fl r w fs ∧
      ResumableFs env fl r w (ensureLink fs (fl.usrRoot ++ [r.usr, FILES, r.fileSign]) (fileDir fl r)) := by
  constructor
  · rintro t rfl hdb
    exact ⟨hs', hfits, handle_moved hr hs' huser hfiles hst hend, hdb⟩
  · intro t hfs hdb
    have hst' : t.fs.node (storedDir fl r) = some .dir := by rw [hfs, ensureLink_keeps _ (by simp [hst]), hst]
    have huser' : t.fs.node (fl.usrRoot ++ [r.usr]) = some .dir := by rw [hfs, ensureLink_keeps _ (by simp [huser]), huser]
    have hmade : t.fs.node (fl.usrRoot ++ [r.usr, FILES, r.fileSign]) ≠ none := by
      have hlink := ensureLink_made (n := r.fileSign) (fileDir fl r) hfiles
      rw [hfs]
      simpa using hlink
    have hshape : Shape fl t.fs := by
      rw [hfs]
      exact shape_ensureLink hs' r.usr r.fileSign
    refine ⟨hshape, hfits.congr ?_, ?_, hdb⟩
    · rw [hfs, ensureLink, ensure]
      split
      · rw [FileTree.node_put, if_neg (by simp [partPath])]
      · rfl
    · rw [handle_linked env hshape hr huser' hst' hmade, hfs, hend]

theorem Do_survives_noUser (hfits : PartFits fl r w.fs) (hnone : w.fs.node (fl.usrRoot ++ [r.usr]) = none) :
    Survives env fl r w (Do fl r .empty) w.fs := by
  have hcut : ResumableFs env fl r w w.fs := by
    intro t hfs hdb
    refine ⟨hfs ▸ hs, hfs ▸ hfits, ?_, hdb⟩
    rw [handle_noUser env hs hr hnone, handle_noUser env (hfs ▸ hs) hr (hfs ▸ hnone), hfs]
  have hmkdir := mkdir_missing_spec env 0 w.db fl.usr_plain hr.1 hs.usr_root hnone plain_FILES
  rw [← usrFiles_text] at hmkdir
  refine Survives.step hmkdir (mkdir_one _) hcut ?_
  rw [if_pos (by simp)]
  exact hcut.survives_pure _

theorem Do_survives_stored (hfits : PartFits fl r w.fs) (huser : w.fs.node (fl.usrRoot ++ [r.usr]) = some .dir)
    (hst : w.fs.node (storedDir fl r) = some .dir) : Survives env fl r w (Do fl r .empty) w.fs := by
  have hend := handle_stored env hs hr huser hst
  have hcut : ResumableFs env fl r w w.fs := by
    intro t hfs hdb
    refine ⟨hfs ▸ hs, hfs ▸ hfits, ?_, hdb⟩
    rw [hend, handle_stored env (hfs ▸ hs) hr (hfs ▸ huser) (hfs ▸ hst), hfs]
  have hne : ∀ q, fl.filesRoot ++ q ≠ fl.usrRoot ++ [r.usr, FILES] := fun q => fl.files_ne_usr _ _
  have huser1 : (madeFiles fl r w.fs).node (fl.usrRoot ++ [r.usr]) = some .dir := by
    rw [madeFiles_of_ne huser (by simp), huser]
  have hfiles1 := madeFiles_dir hs huser
  have hst1 : (madeFiles fl r w.fs).node (storedDir fl r) = some .dir := by
    rw [storedDir, madeFiles_of_ne huser (hne _)]
    exact hst
  have hroot1 : (madeFiles fl r w.fs).node fl.filesRoot = some .dir := by
    rw [madeFiles_of_ne huser (by simpa using hne []), hs.files_root]
  have hs1 : Shape fl (madeFiles fl r w.fs) := hs.ensureDir_usr fun _ => rfl
  have hfits1 : PartFits fl r (madeFiles fl r w.fs) := hfits.congr (madeFiles_of_ne huser (by simp [partPath]))
  obtain ⟨hcut1, hcut2⟩ := cut_linking hr hs1 hfits1 huser1 hfiles1 hst1 hend
  have hlinks : ((disk fl w).outcome (Part.of r)).links = true := by
    have hout : (disk fl w).outcome (Part.of r) = .linked := by
      rw [Disk.outcome_linked]
      rw [storedDir] at hst
      simp [disk, Disk.of, Part.of, huser, hst]
    rw [hout]
    rfl
  have hmkdir := mkdir_spec env 0 w.db (plain_snoc fl.usr_plain hr.1) plain_FILES huser
  rw [← usrFiles_text] at hmkdir
  refine Survives.step hmkdir (mkdir_one _) hcut ?_
  rw [if_neg (by simp), ← madeFiles]
  rw [storedDir] at hst1
  have hexist := existDir_spec env 0 w.db fl.files_plain hr.2 hroot1 (by simp [hst1])
  refine Survives.step hexist (existDir_one _) hcut1 ?_
  rw [if_pos (by simpa using hst1)]
  refine (linkToUsr_survives hr hcut1 hfiles1 hcut2 (handle_counts hr hs hlinks)).bind_pure fun rt => ?_
  split
  · exact ⟨_, rfl⟩
  · exact ⟨_, rfl⟩

/-! ### A part of a new file -/

section
variable (hfits : PartFits fl r w.fs) (huser : w.fs.node (fl.usrRoot ++ [r.usr]) = some .dir)
  (hnew : w.fs.node (storedDir fl r) = none)
include hfits huser hnew

theorem UploadRpc.Between.cut (h : Between fl r w.fs fs) : ResumableFs env fl r w fs := by
  intro t hfs hdb
  rw [← hfs] at h
  exact ⟨h.shape, h.fits, handle_between huser hnew rfl h hs hfits hr, hdb⟩

variable (response : NetDiskResponse)

omit hfits in
theorem publish_survives (hgood : Md5.hexDigest (newContent fl r w.fs) = r.partSign)
    (hall : shardSize r.shard = (partNames fl r w.fs).card) (hcut : ResumableFs env fl r w (withPart fl r w.fs)) :
    Survives env fl r w (publish fl r response) (withPart fl r w.fs) := by
  have hf := Fresh.of_shape hs huser hnew
  obtain ⟨hcan, hend⟩ := handle_last env hs hr huser hnew hgood hall
  have hs1 : Shape fl (withPart fl r w.fs) := (hcut { w with fs := withPart fl r w.fs } rfl (Or.inl rfl)).shape
  have hs2 : Shape fl ((withPart fl r w.fs).move (partsDir fl r) (storedDir fl r) hcan) := hs1.move (withPart_dir hf) hcan
  have husr : ∀ q, ¬[r.usr, TMP, r.fileSign] <+: q →
      ((withPart fl r w.fs).move (partsDir fl r) (storedDir fl r) hcan).node (fl.usrRoot ++ q) =
        (withPart fl r w.fs).node (fl.usrRoot ++ q) := by
    intro q hq
    exact (Shape.move_node_usr hcan q).trans (if_neg hq)
  have huser2 : ((withPart fl r w.fs).move (partsDir fl r) (storedDir fl r) hcan).node (fl.usrRoot ++ [r.usr]) =
      some .dir := by
    rw [husr _ (by simp), (fresh_withPart hf).user]
  have hfiles2 : ((withPart fl r w.fs).move (partsDir fl r) (storedDir fl r) hcan).node (fl.usrRoot ++ [r.usr, FILES]) =
      some .dir := by
    rw [husr _ (by simp), node_withPart hf, if_neg (by simp [partPath])]
    cases hnode : w.fs.node (fl.usrRoot ++ [r.usr, FILES]) with
    | none => simp
    | some m =>
      obtain rfl := hs.usr_entry [r.usr, FILES] m hnode (Or.inl rfl)
      simp
  have hst2 : ((withPart fl r w.fs).move (partsDir fl r) (storedDir fl r) hcan).node (storedDir fl r) = some .dir := by
    have hmoved := FileTree.node_move_under _ _ _ hcan []
    rw [List.append_nil, List.append_nil] at hmoved
    rw [hmoved, withPart_dir hf]
  have hfits2 : PartFits fl r ((withPart fl r w.fs).move (partsDir fl r) (storedDir fl r) hcan) := by
    intro c hc
    have hnone : ((withPart fl r w.fs).move (partsDir fl r) (storedDir fl r) hcan).node (partPath fl r) = none :=
      (Shape.move_node_usr hcan _).trans (if_pos (by simp))
    rw [fileAt, hnone] at hc
    cases hc
  obtain ⟨hcut2, hcut3⟩ := cut_linking hr hs2 hfits2 huser2 hfiles2 hst2 hend
  have hlinks : ((disk fl w).outcome (Part.of r)).links = true := by
    have hlinked : (disk fl (handle env fl w r).2).stored r.fileSign = true := by
      have hnode : (handle env fl w r).2.fs.node (storedDir fl r) = some .dir := by
        rw [hend, ensureLink_keeps _ (by simp [hst2]), hst2]
      rw [storedDir] at hnode
      simp [disk, Disk.of, hnode]
    rw [(handle_spec env hs hr).2.1] at hlinked
    rcases (Disk.stored_upload _ _ _).mp hlinked with hold | ⟨hout, -⟩
    · rw [storedDir] at hnew
      simp [disk, Disk.of, hnew] at hold
    · rw [hout]
      rfl
  unfold publish
  refine Survives.step (mv_spec hr.1 hr.2 (withPart_files_root hf) (withPart_dir hf) (withPart_new hf))
    (shellOut_one _) hcut ?_
  rw [if_neg (by simp)]
  refine (linkToUsr_survives hr hcut2 hfiles2 hcut3 (handle_counts hr hs hlinks)).bind_pure fun rt => ?_
  split
  · exact ⟨_, rfl⟩
  · exact ⟨_, rfl⟩

omit hfits in
theorem checkSign_survives (hcut : ResumableFs env fl r w (withPart fl r w.fs)) :
    Survives env fl r w (checkSign fl r response) (withPart fl r w.fs) := by
  have hf := Fresh.of_shape hs huser hnew
  unfold checkSign checkArrived
  refine Survives.step (md5Sum_part hr.1 hr.2 (withPart_dir hf) (withPart_part hf)) (md5Sum_one _) hcut ?_
  dsimp only
  by_cases hgood : Md5.hexDigest (newContent fl r w.fs) = r.partSign
  swap
  · rw [if_pos hgood]
    exact hcut.survives_pure _
  rw [if_neg (by simpa using hgood)]
  refine Survives.step (allPartArrived_listed hr.1 hr.2 (withPart_dir hf) r.shard) (allPartArrived_one _ _) hcut ?_
  have hcount := congrArg Finset.card (listed_withPart hf)
  rw [partsDir] at hcount
  rw [hcount]
  by_cases hall : shardSize r.shard = (partNames fl r w.fs).card
  · rw [if_pos (by simpa using hall)]
    exact publish_survives hr hs huser hnew response hgood hall hcut
  · rw [if_neg (by simpa using hall)]
    exact hcut.survives_pure _

theorem writePart_survives (h : Between fl r w.fs fs) (hfiles : fs.node (fl.usrRoot ++ [r.usr, FILES]) ≠ none)
    (hdir : fs.node (partsDir fl r) = some .dir) {old : Option Bytes} (hold : fs.node (partPath fl r) = old.map .file)
    (hlen : ∀ o, old = some o → o.length ≤ (written r.body).length) :
    Survives env fl r w (writePart fl r response) fs := by
  have hover : ∀ a, a.length ≤ (written r.body).length → (overlay (old.getD []) a).length ≤ (written r.body).length := by
    intro a ha
    have hgetD : (old.getD []).length ≤ (written r.body).length := by
      cases old with
      | none => exact Nat.zero_le _
      | some o => exact hlen o rfl
    rw [overlay, List.length_append, List.length_drop]
    omega
  have hput : ∀ hcan a, a.length ≤ (written r.body).length →
      ResumableFs env fl r w (fs.put (partPath fl r) (.file (overlay (old.getD []) a)) hcan) :=
    fun hcan a ha => (h.put (hover a ha) hcan).cut hr hs hfits huser hnew
  have hcut : ResumableFs env fl r w fs := h.cut hr hs hfits huser hnew
  have hwrite := write_spec env 0 w.db (plain_signDir fl hr.1 hr.2) (plain_toString r.partIndex.toNat) r.body old hdir
    (by rw [← partPath_eq]; exact hold)
  rw [← filePath_text] at hwrite
  unfold writePart
  refine Survives.bind hwrite (write_survives hr hcut hdir hold hput) ?_
  rw [if_neg (by simp)]
  have hfull : overlay (old.getD []) (written r.body) = written r.body := by
    rw [overlay, List.drop_eq_nil_of_le, List.append_nil]
    cases old with
    | none => exact Nat.zero_le _
    | some o => exact hlen o rfl
  have hcan : fs.CanPut (partPath fl r) := by
    rw [partPath_eq] at hold ⊢
    exact canPut_of_parent hdir (by rw [hold]; cases old <;> simp)
  have hW : fs.put (partPath fl r) (.file (overlay (old.getD []) (written r.body))) hcan = withPart fl r w.fs := by
    refine (h.put (hover _ le_rfl) hcan).eq_withPart huser hnew hs hfits ?_ ?_ ?_
    · rw [FileTree.node_put, if_pos rfl, hfull]
    · rw [FileTree.node_put, if_neg (by simp [partPath])]
      exact hfiles
    · rw [FileTree.node_put, if_neg (by simp [partPath, partsDir]), hdir]
      simp
  have hcutW := hput hcan _ le_rfl
  simp only [partPath_eq] at hW hcutW
  rw [hW] at hcutW ⊢
  exact checkSign_survives hr hs huser hnew response hcutW

theorem storePart_survives (h : Between fl r w.fs fs) (hfiles : fs.node (fl.usrRoot ++ [r.usr, FILES]) ≠ none)
    (hdir : fs.node (partsDir fl r) = some .dir) : Survives env fl r w (storePart fl r response) fs := by
  have hcut : ResumableFs env fl r w fs := h.cut hr hs hfits huser hnew
  unfold storePart existingPart
  cases hnode : fs.node (partPath fl r) with
  | none =>
    refine Survives.step (existFile_part hr.1 hr.2 hdir (Or.inl hnode)) (existFile_one _) hcut ?_
    rw [if_neg (by simp [hnode])]
    have hold : fs.node (partPath fl r) = (none : Option Bytes).map .file := hnode
    exact writePart_survives hr hs hfits huser hnew response h hfiles hdir hold (by simp)
  | some m =>
    obtain ⟨c, k, rfl, -⟩ := h.shape.usr_entry _ _ hnode rfl
    refine Survives.step (existFile_part hr.1 hr.2 hdir (Or.inr ⟨c, hnode⟩)) (existFile_one _) hcut ?_
    rw [if_pos (by simp [hnode])]
    refine Survives.step (md5Sum_part hr.1 hr.2 hdir hnode) (md5Sum_one _) hcut ?_
    dsimp only
    by_cases hgood : Md5.hexDigest c = r.partSign
    · rw [if_pos hgood]
      have hold : fs.node (partPath fl r) = (some c).map .file := hnode
      refine writePart_survives hr hs hfits huser hnew _ h hfiles hdir hold fun o ho => ?_
      cases ho
      exact h.fits c (by rw [fileAt, hnode]) hgood
    · rw [if_neg hgood]
      refine Survives.step (deleteFile_part hr.1 hr.2 hdir hnode) (deleteFile_one _) hcut ?_
      have hcan := fs.canErase_of_not_dir (p := partPath fl r) (by simp [hnode])
      have hold : (fs.erase (partPath fl r) hcan).node (partPath fl r) = (none : Option Bytes).map .file := by
        rw [FileTree.node_erase, if_pos rfl]
        rfl
      refine writePart_survives hr hs hfits huser hnew _ (h.erase hcan) ?_ ?_ hold (by simp)
      · rw [FileTree.node_erase, if_neg (by simp [partPath])]
        exact hfiles
      · rw [FileTree.node_erase, if_neg (by simp [partPath, partsDir]), hdir]

theorem makeTmpDirs_survives (h : Between fl r w.fs fs) :
    Between fl r w.fs (tmpDirs fl fs r) ∧ Survives env fl r w (makeTmpDirs fl r) fs := by
  have hready : Ready fl r fs := .of_shape h.shape (h.user.trans huser)
  have hplain := plain_snoc fl.usr_plain hr.1
  have h1 := mkdir_spec env 0 w.db fl.usr_plain hr.1 h.shape.usr_root
  rw [ensureDir, ensure_old (by rw [hready.user]; simp)] at h1
  have h2 := mkdir_dirText_spec env 0 w.db hplain plain_TMP hready.user
  have h3 := mkdir_dirText_spec env 0 w.db (plain_tmp fl hr.1) hr.2 (tmp_made hready)
  rw [← usrUploadDir_text] at h2
  rw [← signDir_slash_text] at h3
  have hshape2 : Shape fl (ensureDir fs (fl.usrRoot ++ [r.usr] ++ [TMP])) := h.shape.ensureDir_usr fun _ => rfl
  have hbetween2 : Between fl r w.fs (ensureDir fs (fl.usrRoot ++ [r.usr] ++ [TMP])) :=
    h.ensureDir hshape2 rfl hready.user (Or.inr (Or.inl (by simp)))
  have hbetween3 : Between fl r w.fs (tmpDirs fl fs r) :=
    hbetween2.ensureDir (tmpDirs_shape r h.shape).1 rfl (tmp_made hready) (Or.inr (Or.inr (by simp [partsDir])))
  have hcut : ResumableFs env fl r w fs := h.cut hr hs hfits huser hnew
  have hcut2 : ResumableFs env fl r w _ := hbetween2.cut hr hs hfits huser hnew
  have hcut3 : ResumableFs env fl r w _ := hbetween3.cut hr hs hfits huser hnew
  refine ⟨hbetween3, ?_⟩
  unfold makeTmpDirs
  refine Survives.step h1 (mkdir_one _) hcut ?_
  rw [if_neg (by simp)]
  refine Survives.step h2 (mkdir_one _) hcut ?_
  rw [if_neg (by simp)]
  exact Survives.step h3 (mkdir_one _) hcut2 (hcut3.survives_pure _)

theorem Do_survives_fresh : Survives env fl r w (Do fl r .empty) w.fs := by
  have hstart := Between.refl hs hfits
  have hmkdir := mkdir_spec env 0 w.db (plain_snoc fl.usr_plain hr.1) plain_FILES huser
  rw [← usrFiles_text] at hmkdir
  have hs1 : Shape fl (madeFiles fl r w.fs) := hs.ensureDir_usr fun _ => rfl
  have hbetween : Between fl r w.fs (madeFiles fl r w.fs) := hstart.ensureDir hs1 rfl huser (Or.inl (by simp))
  have hfiles := madeFiles_dir hs huser
  have hnew1 := hbetween.stored.trans hnew
  rw [storedDir] at hnew1
  have hexist := existDir_spec env 0 w.db fl.files_plain hr.2 hs1.files_root (by simp [hnew1])
  unfold Do uploadPart
  refine Survives.step hmkdir (mkdir_one _) (hstart.cut hr hs hfits huser hnew) ?_
  rw [if_neg (by simp), ← madeFiles]
  refine Survives.step hexist (existDir_one _) (hbetween.cut hr hs hfits huser hnew) ?_
  rw [if_neg (by simp [hnew1])]
  have hready : Ready fl r (madeFiles fl r w.fs) := .of_shape hs1 (hbetween.user.trans huser)
  obtain ⟨hbetween3, htmp⟩ := makeTmpDirs_survives hr hs hfits huser hnew hbetween
  refine Survives.bind (makeTmpDirs_spec hr.1 hr.2 hready) htmp ?_
  rw [if_pos rfl]
  refine storePart_survives hr hs hfits huser hnew .empty hbetween3 ?_ (tmpDirs_made hready)
  rw [tmpDirs_keeps hready (by simp [hfiles]), hfiles]
  simp

end

/-- Wherever the call is cut, doing it again ends as it would have. -/
theorem Do_survives (hfits : PartFits fl r w.fs) : Survives env fl r w (Do fl r .empty) w.fs := by
  rcases request_cases hs with hnone | ⟨huser, hst | hnew⟩
  · exact Do_survives_noUser hr hs hfits hnone
  · exact Do_survives_stored hr hs hfits huser hst
  · exact Do_survives_fresh hr hs hfits huser hnew

end

/-! ## What can be seen afterwards -/

namespace Disk

variable {d d' : Disk} {r : Part}

theorem links_iff : (d.outcome r).links = true ↔ (d.upload r).user r.usr = true ∧ (d.upload r).stored r.sign = true := by
  rw [user_upload, stored_upload]
  constructor
  · intro h
    obtain ⟨huser, hst⟩ := of_links h
    exact ⟨huser, (stored_upload d r r.sign).mp hst⟩
  · rintro ⟨huser, hst | ⟨hout, -⟩⟩
    · rw [outcome_linked.mpr ⟨huser, hst⟩]
      rfl
    · rw [hout]
      rfl

theorem res_iff : (d.outcome r).res true = true ↔ (d.upload r).user r.usr = true ∧ ((d.upload r).stored r.sign = true ∨
    ∃ c, (d.upload r).part r.usr r.sign r.index = some c ∧ Md5.hexDigest c = r.digest) := by
  cases hout : d.outcome r with
  | noUser => simp [user_upload, outcome_noUser.mp hout, Outcome.res]
  | linked =>
    have hlinks := links_iff.mp (show (d.outcome r).links = true by rw [hout]; rfl)
    simp [hlinks, Outcome.res]
  | published =>
    have hlinks := links_iff.mp (show (d.outcome r).links = true by rw [hout]; rfl)
    simp [hlinks, Outcome.res]
  | rejected =>
    obtain ⟨-, hst, hbad⟩ := outcome_rejected.mp hout
    simp [stored_upload, part_upload, hout, hst, hbad, Outcome.writes, Outcome.res]
  | accepted =>
    obtain ⟨huser, -, hgood, -⟩ := outcome_accepted.mp hout
    simp [user_upload, part_upload, hout, huser, hgood, Outcome.writes, Outcome.res]

variable (h : d'.upload r = d.upload r)
include h

theorem refsAfter_congr : d'.refsAfter r = d.refsAfter r := by
  have hlinks : (d'.outcome r).links = true ↔ (d.outcome r).links = true := by rw [links_iff, links_iff, h]
  funext refs s
  simp only [refsAfter, hlinks]

theorem res_congr : (d'.outcome r).res true = (d.outcome r).res true := by
  rw [Bool.eq_iff_iff, res_iff, res_iff, h]

end Disk

theorem countUp_iterate (j : Nat) (k : Option Nat) : countUp^[j + 1] k = (countUp k).map (· + j) := by
  induction j with
  | zero => cases k <;> rfl
  | succ j ih =>
    rw [Function.iterate_succ_apply', ih]
    cases k with
    | none => simp [countUp]; omega
    | some n => simp [countUp]; omega

theorem Disk.refsAfter_iterate (d : Disk) (r : Part) (refs : Name → Option Nat) (j : Nat) (s : Name) :
    (d.refsAfter r)^[j] refs s = if (d.outcome r).links = true ∧ s = r.sign then countUp^[j] (refs s) else refs s := by
  induction j with
  | zero => simp
  | succ j ih =>
    rw [Function.iterate_succ_apply', Disk.refsAfter, ih, Function.iterate_succ_apply']
    split <;> rfl

/-! ## A server that is killed -/

namespace Server

/-- In the middle of the request the server is killed and started again, so many times. -/
inductive Killed (env : Env) (fl : Flags) (r : NetDiskRequest) : Nat → World → World → Prop
  | never (w : World) : Killed env fl r 0 w w
  | again {n : Nat} {w t u : World} (ht : t ∈ (Do fl r .empty).states (exec env 0) w)
      (h : Killed env fl r n (restarted t) u) : Killed env fl r (n + 1) w u

/-- Each request comes again until it is answered, and the next one comes then. -/
inductive Served (env : Env) (fl : Flags) : World → List NetDiskRequest → Nat → List (Option Bool) → World → Prop
  | done (w : World) : Served env fl w [] 0 [] w
  | next {w u w' : World} {r : NetDiskRequest} {rs : List NetDiskRequest} {n k : Nat} {replies : List (Option Bool)}
      (h : Killed env fl r n w u) (hrest : Served env fl (handle env fl u r).2 rs k replies w') :
      Served env fl w (r :: rs) (n + k) ((handle env fl u r).1.res :: replies) w'

/-- What a server that is never killed answers. -/
def answers (env : Env) (fl : Flags) : World → List NetDiskRequest → List (Option Bool)
  | _, [] => []
  | w, r :: rs => (handle env fl w r).1.res :: answers env fl (handle env fl w r).2 rs

end Server

section
variable {r : NetDiskRequest} {w u : World} (hr : PlainNames r) (hrow : Stmt.OneRow r.fileSign r.fileName)
  (hs : Shape fl w.fs) (hs' : Shape fl u.fs) (hagain : (handle env fl u r).2.fs = (handle env fl w r).2.fs)
include hr hs hs' hagain

theorem upload_again : (disk fl u).upload (Part.of r) = (disk fl w).upload (Part.of r) := by
  rw [← (handle_spec env hs hr).2.1, ← (handle_spec env hs' hr).2.1, disk, disk, hagain]

include hrow in
theorem res_again : (handle env fl u r).1.res = (handle env fl w r).1.res := by
  rw [(handle_spec env hs hr).2.2.1, (handle_spec env hs' hr).2.2.1, (linkQueries_counts hr.2.litSafe hrow).1,
    (linkQueries_counts hr.2.litSafe hrow).1, Disk.res_congr (upload_again hr hs hs' hagain)]

end

/-- What has been counted when the request is handled at last: once for each time that it was cut, at most. -/
theorem Server.Killed.spec {r : NetDiskRequest} {w u : World} {n : Nat} (h : Killed env fl r n w u) (hr : PlainNames r)
    (hrow : Stmt.OneRow r.fileSign r.fileName) (hs : Shape fl w.fs) (hfits : PartFits fl r w.fs) :
    Shape fl u.fs ∧ (handle env fl u r).2.fs = (handle env fl w r).2.fs ∧
    ∃ j ≤ n, u.db.refs = ((disk fl w).refsAfter (Part.of r))^[j] w.db.refs := by
  induction h with
  | never w => exact ⟨hs, rfl, 0, le_rfl, rfl⟩
  | @again n w t u ht _ ih =>
    have hcut := Do_survives hr hs hfits w rfl rfl t ht
    have hfirst : (handle env fl (restarted t) r).2.fs = (handle env fl w r).2.fs :=
      (handle_files (u := restarted t) (w := t) hr hcut.shape hcut.fits rfl).trans hcut.again
    obtain ⟨hsu, hagain, j, hj, hrefs⟩ := ih hcut.shape hcut.fits
    refine ⟨hsu, hagain.trans hfirst, ?_⟩
    rw [Disk.refsAfter_congr (upload_again (u := restarted t) hr hs hcut.shape hfirst)] at hrefs
    rcases hcut.tables with hdb | hdb
    · refine ⟨j, by omega, ?_⟩
      rw [← hdb]
      exact hrefs
    · refine ⟨j + 1, by omega, ?_⟩
      rw [Function.iterate_succ_apply, ← handle_refs env hs hr hrow, ← hdb]
      exact hrefs

/-- The files are the same, and the references were counted at most so many times too often. -/
structure Ahead (k : Nat) (w u : World) : Prop where
  files : w.fs = u.fs
  refs : ∀ s, ∃ j ≤ k, w.db.refs s = (u.db.refs s).map (· + j)

theorem Ahead.handle {w w1 u : World} {r : NetDiskRequest} {k n : Nat} (h : Ahead k w u) (hkilled : Killed env fl r n w w1)
    (hr : PlainNames r) (hrow : Stmt.OneRow r.fileSign r.fileName) (hs : Shape fl u.fs) (hfits : PartFits fl r u.fs) :
    (handle env fl w1 r).1.res = (handle env fl u r).1.res ∧
    Ahead (n + k) (handle env fl w1 r).2 (handle env fl u r).2 := by
  have hsw : Shape fl w.fs := h.files ▸ hs
  obtain ⟨hs1, hagain, j, hj, hrefs⟩ := hkilled.spec hr hrow hsw (h.files ▸ hfits)
  have hsame : (Server.handle env fl w r).2.fs = (Server.handle env fl u r).2.fs := handle_files hr hs hfits h.files
  have hfiles := hagain.trans hsame
  refine ⟨res_again hr hrow hs hs1 hfiles, hfiles, fun s => ?_⟩
  rw [handle_refs env hs1 hr hrow, handle_refs env hs hr hrow, hrefs, Disk.refsAfter_congr (upload_again hr hs hs1 hfiles),
    Disk.refsAfter_congr (upload_again hr hs hsw hsame), ← Function.iterate_succ_apply' ((disk fl u).refsAfter (Part.of r)),
    Disk.refsAfter_iterate, Disk.refsAfter]
  obtain ⟨i, hi, hcount⟩ := h.refs s
  rw [hcount]
  split
  · rw [countUp_iterate]
    cases u.db.refs s with
    | none => exact ⟨j, by omega, rfl⟩
    | some a =>
      refine ⟨i + j, by omega, ?_⟩
      simp only [countUp, Option.map_some, Option.some.injEq]
      omega
  · exact ⟨i, by omega, rfl⟩

theorem Ahead.serve {w u w' : World} {requests : List NetDiskRequest} {replies : List (Option Bool)} {k i : Nat}
    (hserved : Served env fl w requests k replies w') (h : Ahead i w u) (hs : Shape fl u.fs)
    (hnames : ∀ r ∈ requests, PlainNames r) (hrows : ∀ r ∈ requests, Stmt.OneRow r.fileSign r.fileName)
    (hfits : ∀ done r, done ++ [r] <+: requests → PartFits fl r (serve env fl u done).fs) :
    replies = answers env fl u requests ∧ Ahead (k + i) w' (serve env fl u requests) := by
  induction hserved generalizing u i with
  | done w => exact ⟨rfl, by rwa [Nat.zero_add]⟩
  | @next w w1 w' r rs n k replies hkilled hrest ih =>
    have hr := hnames r List.mem_cons_self
    obtain ⟨hres, hahead⟩ := h.handle hkilled hr (hrows r List.mem_cons_self) hs (hfits [] r (by simp))
    obtain ⟨hreplies, hend⟩ := ih hahead (handle_spec env hs hr).1 (fun x hx => hnames x (List.mem_cons_of_mem _ hx))
      (fun x hx => hrows x (List.mem_cons_of_mem _ hx)) fun done x hpre => hfits (r :: done) x (by simpa using hpre)
    refine ⟨?_, ?_⟩
    · rw [hres, hreplies]
      rfl
    · have hsum : n + k + i = k + (n + i) := by omega
      rw [hsum]
      exact hend

/-! ## Parts that fit -/

/-- Each part has come with a request that writes as much. -/
def FromLong (done : List NetDiskRequest) (d : Disk) : Prop :=
  ∀ u s i c, d.part u s i = some c →
    ∃ x ∈ done, x.usr = u ∧ x.fileSign = s ∧ x.partIndex.toNat = i ∧ c.length ≤ (written x.body).length

theorem FromLong.upload {done : List NetDiskRequest} {d : Disk} {r : NetDiskRequest} (h : FromLong done d) :
    FromLong (done ++ [r]) (d.upload (Part.of r)) := by
  intro u s i c hc
  have hold : d.part u s i = some c → ∃ x ∈ done ++ [r], x.usr = u ∧ x.fileSign = s ∧ x.partIndex.toNat = i ∧
      c.length ≤ (written x.body).length := by
    intro hpart
    obtain ⟨x, hx, hsame⟩ := h u s i c hpart
    exact ⟨x, List.mem_append_left _ hx, hsame⟩
  rw [Disk.part_upload] at hc
  split at hc
  · cases hc
  split at hc
  swap
  · exact hold hc
  rename_i hwritten
  obtain ⟨-, rfl, rfl, rfl⟩ := hwritten
  have hnew : c = written r.body → ∃ x ∈ done ++ [r], x.usr = (Part.of r).usr ∧ x.fileSign = (Part.of r).sign ∧
      x.partIndex.toNat = (Part.of r).index ∧ c.length ≤ (written x.body).length := by
    rintro rfl
    exact ⟨r, by simp, rfl, rfl, rfl, le_rfl⟩
  rw [Disk.content_eq, Option.some.injEq] at hc
  cases hpart : d.part (Part.of r).usr (Part.of r).sign (Part.of r).index with
  | none => exact hnew (by rw [← hc, hpart]; rfl)
  | some o =>
    rw [hpart] at hc
    by_cases hgood : Md5.hexDigest o = (Part.of r).digest
    swap
    · exact hnew (by rw [← hc, Part.content_bad hgood]; rfl)
    rw [Part.content_good hgood] at hc
    -- The longer of the two decides.
    by_cases hlen : o.length ≤ (written r.body).length
    · refine hnew ?_
      change overlay o (written r.body) = c at hc
      rw [← hc, overlay, List.drop_eq_nil_of_le hlen, List.append_nil]
    · obtain ⟨x, hx, husr, hsign, hindex, hx'⟩ := h _ _ _ o hpart
      refine ⟨x, List.mem_append_left _ hx, husr, hsign, hindex, le_trans (le_of_eq ?_) hx'⟩
      rw [← hc, overlay, List.length_append, List.length_drop]
      change (written r.body).length + (o.length - (written r.body).length) = o.length
      omega

theorem PartFits.of_requests {w : World} {requests : List NetDiskRequest} (hempty : EmptyDirs fl w.fs)
    (hnames : ∀ r ∈ requests, PlainNames r) (hlens : ∀ done r, done ++ [r] <+: requests → ∀ x ∈ done, x.usr = r.usr →
      x.fileSign = r.fileSign → x.partIndex.toNat = r.partIndex.toNat → (written x.body).length ≤ (written r.body).length) :
    ∀ done r, done ++ [r] <+: requests → PartFits fl r (serve env fl w done).fs := by
  have hinv : ∀ done, done <+: requests →
      Shape fl (serve env fl w done).fs ∧ FromLong done (disk fl (serve env fl w done)) := by
    refine serve_invariant (fun done w => Shape fl w.fs ∧ FromLong done (disk fl w)) ⟨hempty.shape, ?_⟩ ?_
    · intro u s i c hc
      rw [disk, hempty.part_none] at hc
      cases hc
    · rintro done r hpre ⟨hs, hlong⟩
      obtain ⟨hs', hdisk, -⟩ := handle_spec env hs (hnames r (hpre.subset (by simp)))
      refine ⟨hs', ?_⟩
      rw [hdisk]
      exact hlong.upload
  intro done r hpre c hc _
  obtain ⟨-, hlong⟩ := hinv done ((List.prefix_append done [r]).trans hpre)
  obtain ⟨x, hx, husr, hsign, hindex, hlen⟩ := hlong r.usr r.fileSign r.partIndex.toNat c hc
  exact hlen.trans (hlens done r hpre x hx husr hsign hindex)

/-- The call was at its end when the server was killed, but the answer was not sent. -/
def handledLate (env : Env) (fl : Flags) (w : World) (r : NetDiskRequest) : NetDiskResponse × World :=
  handle env fl (restarted (handle env fl w r).2) r

theorem served_late (w : World) (r : NetDiskRequest) :
    Served env fl w [r] 1 [(handledLate env fl w r).1.res] (handledLate env fl w r).2 :=
  .next (.again (Prog.run_mem_states _ w) (.never _)) (.done _)

theorem OnePart.only : ∀ done r, done ++ [r] <+: [request] → done = [] := by
  intro done r h
  have hlen := h.length_le
  rw [List.length_append, List.length_singleton, List.length_singleton] at hlen
  exact List.eq_nil_of_length_eq_zero (by omega)

/-- The file is counted twice. -/
example : (serve .bare .short TwoParts.world [OnePart.request]).db.refs OnePart.sign = some 1 ∧
    (handledLate .bare .short TwoParts.world OnePart.request).2.db.refs OnePart.sign = some 2 := by decide +kernel

end NetDisk
