import NetDisk.Exact
import NetDisk.Publish

/-!
# The same request again

The channel may send a request more than once. What the second call does to the file system after the first.
-/

namespace NetDisk

open Machine UploadRpc Server

variable {env : Env} {fl : Flags}

/-- The write spoils a part that passes its check, by going over the start of a longer file. -/
def Part.SpoilsLonger (r : Part) (old : Option Bytes) : Prop :=
  ∃ o, old = some o ∧ Md5.hexDigest o = r.digest ∧ Md5.hexDigest (overlay o r.body) ≠ r.digest ∧
    r.body.length < o.length

theorem Part.content_twice (r : Part) (old : Option Bytes) :
    r.content (some (r.content old)) = r.content old ↔ ¬ r.SpoilsLonger old := by
  have hbody : r.content (some r.body) = r.body := by
    by_cases hgood : Md5.hexDigest r.body = r.digest
    · rw [content_good hgood, overlay_self]
    · rw [content_bad hgood]
  cases old with
  | none =>
    rw [content_none, hbody]
    simp [SpoilsLonger]
  | some o =>
    by_cases hgood : Md5.hexDigest o = r.digest
    swap
    · rw [content_bad hgood, hbody]
      simp [SpoilsLonger, hgood]
    rw [content_good hgood]
    by_cases hover : Md5.hexDigest (overlay o r.body) = r.digest
    · have hagain : overlay (overlay o r.body) r.body = overlay o r.body := by
        rw [overlay, overlay, List.drop_left]
      rw [content_good hover, hagain]
      simp [SpoilsLonger, hover]
    · -- The spoilt part is deleted, and the body written alone.
      have hlen : r.body = overlay o r.body ↔ ¬ r.body.length < o.length := by
        rw [overlay, eq_comm, List.append_right_eq_self, List.drop_eq_nil_iff]
        omega
      rw [content_bad hover, hlen]
      simp [SpoilsLonger, hgood, hover]

/-- The same of a disk: the request finds its file not stored, and spoils its part. -/
def Disk.Spoils (disk : Disk) (r : Part) : Prop :=
  disk.user r.usr = true ∧ disk.stored r.sign = false ∧ r.SpoilsLonger (disk.part r.usr r.sign r.index)

/-! ## On a file system -/

namespace UploadRpc

section
variable {r : NetDiskRequest} {fs : FS}

theorem Fresh.of_shape (hs : Shape fl fs) (huser : fs.node (fl.usrRoot ++ [r.usr]) = some .dir)
    (hnew : fs.node (storedDir fl r) = none) : Fresh fl r fs where
  toReady := .of_shape hs huser
  files_root := hs.files_root
  new := hnew
  part m hm := by
    obtain ⟨c, k, rfl, -⟩ := hs.usr_entry _ _ hm rfl
    exact ⟨c, rfl⟩

theorem newContent_withPart (hf : Fresh fl r fs) :
    newContent fl r (withPart fl r fs) = (Part.of r).content (some (newContent fl r fs)) := by
  rw [newContent, fileAt, withPart_part hf]

theorem fresh_withPart (hf : Fresh fl r fs) : Fresh fl r (withPart fl r fs) where
  user := by
    rw [withPart_of_ne hf (by simp [partPath]) (by simp) (by simp) (by simp [partsDir]), hf.user]
  tmp m hm := by
    rw [node_withPart hf, if_neg (by simp [partPath])] at hm
    split at hm
    · exact (Option.some.inj hm).symm
    · exact hf.tmp m hm
  sign m hm := by
    have hdir := withPart_dir hf
    rw [partsDir, hm] at hdir
    exact Option.some.inj hdir
  files_root := withPart_files_root hf
  new := withPart_new hf
  part m hm := by
    rw [withPart_part hf] at hm
    exact ⟨_, (Option.some.inj hm).symm⟩

theorem withPart_twice (hf : Fresh fl r fs) : withPart fl r (withPart fl r fs) = withPart fl r fs ↔
    (Part.of r).content (some (newContent fl r fs)) = newContent fl r fs := by
  rw [← newContent_withPart hf]
  constructor
  · intro h
    have hnode := withPart_part (fresh_withPart hf)
    rw [h, withPart_part hf, Option.some.injEq, Node.file.injEq] at hnode
    exact hnode.symm
  · intro h
    refine FileTree.ext_node (funext fun q => ?_)
    rw [node_withPart (fresh_withPart hf), h]
    by_cases hq : q = partPath fl r
    · rw [if_pos hq, hq, withPart_part hf]
    · rw [if_neg hq, if_neg]
      rintro ⟨hnone, hdir⟩
      rw [node_withPart hf, if_neg hq] at hnone
      split at hnone
      · cases hnone
      · rename_i hno
        exact hno ⟨hnone, hdir⟩

end

/-! ## One call -/

theorem ensureLink_keeps {fs : FS} {p q : Path} (target : Bytes) (hq : fs.node q ≠ none) :
    (ensureLink fs p target).node q = fs.node q := by
  unfold ensureLink ensure
  split
  · rename_i h
    rw [FileTree.node_put, if_neg]
    rintro rfl
    exact hq h.1
  · rfl

theorem ensureLink_made {fs : FS} {p : Path} {n : Name} (target : Bytes) (hd : fs.node p = some .dir) :
    (ensureLink fs (p ++ [n]) target).node (p ++ [n]) ≠ none := by
  by_cases hnone : fs.node (p ++ [n]) = none
  · rw [ensureLink, ensure_new hnone (canPut_of_parent hd (by simp [hnone]))]
    simp
  · rw [ensureLink_keeps target hnone]
    exact hnone

section
variable (env) {w : World} {r : NetDiskRequest} (hs : Shape fl w.fs) (hr : PlainNames r)
include hs hr

theorem handle_noUser (hnone : w.fs.node (fl.usrRoot ++ [r.usr]) = none) : (handle env fl w r).2.fs = w.fs :=
  (Do_noUser .empty hr.1 hs.usr_root hnone w rfl rfl).2.1

theorem handle_stored (huser : w.fs.node (fl.usrRoot ++ [r.usr]) = some .dir)
    (hst : w.fs.node (storedDir fl r) = some .dir) : (handle env fl w r).2.fs =
      ensureLink (madeFiles fl r w.fs) (fl.usrRoot ++ [r.usr, FILES, r.fileSign]) (fileDir fl r) := by
  obtain ⟨_, _, hends⟩ := Do_stored env 0 w.db hr.1 hr.2 .empty huser
    (fun m hm => hs.usr_entry [r.usr, FILES] m hm (Or.inl rfl)) hs.files_root hst
  exact (hends w rfl rfl).2.1

theorem handle_linked (huser : w.fs.node (fl.usrRoot ++ [r.usr]) = some .dir)
    (hst : w.fs.node (storedDir fl r) = some .dir)
    (hlink : w.fs.node (fl.usrRoot ++ [r.usr, FILES, r.fileSign]) ≠ none) : (handle env fl w r).2.fs = w.fs := by
  have hfiles : w.fs.node (fl.usrRoot ++ [r.usr, FILES]) = some .dir :=
    w.fs.dir_above _ [r.fileSign] (by simp) (by simpa using hlink)
  have hmade : madeFiles fl r w.fs = w.fs := by
    unfold madeFiles ensureDir
    exact ensure_old (by simp [hfiles]) _
  rw [handle_stored env hs hr huser hst, hmade, ensureLink, ensure_old hlink]

variable (huser : w.fs.node (fl.usrRoot ++ [r.usr]) = some .dir) (hnew : w.fs.node (storedDir fl r) = none)
include huser hnew

theorem handle_part (hnot : Md5.hexDigest (newContent fl r w.fs) = r.partSign →
      shardSize r.shard ≠ (partNames fl r w.fs).card) : (handle env fl w r).2.fs = withPart fl r w.fs := by
  have hf := Fresh.of_shape hs huser hnew
  have hends : ∃ response, Ends env 0 (Do fl r .empty) w.fs w.db response (withPart fl r w.fs) w.db := by
    refine Do_fresh env 0 w.db (K := fun c fs => ∃ response, Ends env 0 c fs w.db response (withPart fl r w.fs) w.db)
      hr.1 hr.2 hf (fun _ _ _ _ _ _ hends _ hleft => hleft.imp fun _ => hends.bind) .empty ?_ ?_ ?_
    · exact fun _ response => ⟨_, Ends.pure _⟩
    · exact fun _ _ response => ⟨_, Ends.pure _⟩
    · exact fun hgood hall => absurd hall (hnot hgood)
  obtain ⟨_, hends⟩ := hends
  exact (hends w rfl rfl).2.1

theorem handle_last (hgood : Md5.hexDigest (newContent fl r w.fs) = r.partSign)
    (hall : shardSize r.shard = (partNames fl r w.fs).card) : ∃ hcan, (handle env fl w r).2.fs =
      ensureLink ((withPart fl r w.fs).move (partsDir fl r) (storedDir fl r) hcan)
        (fl.usrRoot ++ [r.usr, FILES, r.fileSign]) (fileDir fl r) := by
  have hf := Fresh.of_shape hs huser hnew
  have hcan : (withPart fl r w.fs).CanMove (partsDir fl r) (storedDir fl r) :=
    Shape.canMove_new (withPart_files_root hf) (withPart_new hf)
  have hfiles : (withPart fl r w.fs).node (fl.usrRoot ++ [r.usr, FILES]) = some .dir := by
    rw [node_withPart hf, if_neg (by simp [partPath])]
    cases hnode : w.fs.node (fl.usrRoot ++ [r.usr, FILES]) with
    | none => simp
    | some m =>
      obtain rfl := hs.usr_entry [r.usr, FILES] m hnode (Or.inl rfl)
      simp
  have hends : ∃ response db', Ends env 0 (Do fl r .empty) w.fs w.db response
      (ensureLink ((withPart fl r w.fs).move (partsDir fl r) (storedDir fl r) hcan)
        (fl.usrRoot ++ [r.usr, FILES, r.fileSign]) (fileDir fl r)) db' := by
    refine Do_fresh env 0 w.db (K := fun c fs => ∃ response db', Ends env 0 c fs w.db response
        (ensureLink ((withPart fl r w.fs).move (partsDir fl r) (storedDir fl r) hcan)
          (fl.usrRoot ++ [r.usr, FILES, r.fileSign]) (fileDir fl r)) db')
      hr.1 hr.2 hf (fun _ _ _ _ _ _ hends _ hleft => hleft.imp fun _ => Exists.imp fun _ => hends.bind) .empty ?_ ?_ ?_
    · exact fun hbad => absurd hgood hbad
    · exact fun _ hnot => absurd hall hnot
    · intro _ _ response
      obtain ⟨response', -, hends⟩ := publish_ends env 0 w.db response hr.1 hr.2
        (withPart_files_root hf) hfiles (withPart_dir hf) (withPart_new hf)
      exact ⟨response', _, hends⟩
  obtain ⟨_, _, hends⟩ := hends
  exact ⟨hcan, (hends w rfl rfl).2.1⟩

end

/-! ## Two calls -/

section
variable {w : World} {r : NetDiskRequest} (hs : Shape fl w.fs) (hr : PlainNames r)
include hs hr

/-- A call that links the file finds nothing to do when it comes again. -/
theorem handle_again_linked {fs : FS} (huser : fs.node (fl.usrRoot ++ [r.usr]) = some .dir)
    (hfiles : fs.node (fl.usrRoot ++ [r.usr, FILES]) = some .dir) (hst : fs.node (storedDir fl r) = some .dir)
    (hw : (handle env fl w r).2.fs =
      ensureLink fs (fl.usrRoot ++ [r.usr, FILES, r.fileSign]) (fileDir fl r)) :
    (handle env fl (handle env fl w r).2 r).2.fs = (handle env fl w r).2.fs := by
  refine handle_linked env (handle_spec env hs hr).1 hr ?_ ?_ ?_
  · rw [hw, ensureLink_keeps _ (by simp [huser]), huser]
  · rw [hw, ensureLink_keeps _ (by simp [hst]), hst]
  · rw [hw]
    have hmade := ensureLink_made (n := r.fileSign) (fileDir fl r) hfiles
    simpa using hmade

variable (env) in
theorem handle_again_stored (huser : w.fs.node (fl.usrRoot ++ [r.usr]) = some .dir)
    (hst : w.fs.node (storedDir fl r) = some .dir) :
    (handle env fl (handle env fl w r).2 r).2.fs = (handle env fl w r).2.fs := by
  have hne : ∀ q, fl.filesRoot ++ q ≠ fl.usrRoot ++ [r.usr, FILES] := fun q => fl.files_ne_usr _ _
  refine handle_again_linked hs hr ?_ ?_ ?_ (handle_stored env hs hr huser hst)
  · rw [madeFiles_of_ne huser (by simp), huser]
  · have hmade := ensureDir_made (n := FILES) huser fun m hm =>
      hs.usr_entry [r.usr, FILES] m (by simpa using hm) (Or.inl rfl)
    simpa [madeFiles] using hmade
  · rw [storedDir, madeFiles_of_ne huser (hne _)]
    exact hst

variable (huser : w.fs.node (fl.usrRoot ++ [r.usr]) = some .dir) (hnew : w.fs.node (storedDir fl r) = none)
include huser hnew

variable (env) in
theorem handle_again_last (hgood : Md5.hexDigest (newContent fl r w.fs) = r.partSign)
    (hall : shardSize r.shard = (partNames fl r w.fs).card) :
    (handle env fl (handle env fl w r).2 r).2.fs = (handle env fl w r).2.fs := by
  have hf := Fresh.of_shape hs huser hnew
  obtain ⟨hcan, hw⟩ := handle_last env hs hr huser hnew hgood hall
  refine handle_again_linked hs hr ?_ ?_ ?_ hw
  · refine (Shape.move_node_usr hcan _).trans ?_
    rw [if_neg (by simp), (fresh_withPart hf).user]
  · refine (Shape.move_node_usr hcan _).trans ?_
    rw [if_neg (by simp), node_withPart hf, if_neg (by simp [partPath])]
    cases hnode : w.fs.node (fl.usrRoot ++ [r.usr, FILES]) with
    | none => simp
    | some m =>
      obtain rfl := hs.usr_entry [r.usr, FILES] m hnode (Or.inl rfl)
      simp
  · have hmoved := FileTree.node_move_under _ _ _ hcan []
    rw [List.append_nil, List.append_nil] at hmoved
    rw [hmoved, withPart_dir hf]

theorem handle_again_part (hnot : Md5.hexDigest (newContent fl r w.fs) = r.partSign →
      shardSize r.shard ≠ (partNames fl r w.fs).card) :
    (handle env fl (handle env fl w r).2 r).2.fs = (handle env fl w r).2.fs ↔
      (Part.of r).content (some (newContent fl r w.fs)) = newContent fl r w.fs := by
  have hf := Fresh.of_shape hs huser hnew
  have hs1 := (handle_spec env hs hr).1
  have hw := handle_part env hs hr huser hnew hnot
  rw [← withPart_twice hf, ← hw]
  generalize (handle env fl w r).2 = w1 at hs1 hw
  have huser1 : w1.fs.node (fl.usrRoot ++ [r.usr]) = some .dir := by rw [hw, (fresh_withPart hf).user]
  have hnew1 : w1.fs.node (storedDir fl r) = none := by rw [hw, withPart_new hf]
  by_cases hlast : Md5.hexDigest (newContent fl r w1.fs) = r.partSign ∧
      shardSize r.shard = (partNames fl r w1.fs).card
  · obtain ⟨hgood, hall⟩ := hlast
    obtain ⟨hcan, hw2⟩ := handle_last env hs1 hr huser1 hnew1 hgood hall
    have hpart : w1.fs.node (partPath fl r) = some (.file (newContent fl r w.fs)) := by rw [hw, withPart_part hf]
    constructor
    · intro h
      -- The directory of the parts has gone.
      have hgone : (handle env fl w1 r).2.fs.node (partPath fl r) = none := by
        have hne : partPath fl r ≠ fl.usrRoot ++ [r.usr, FILES, r.fileSign] := by simp [partPath]
        rw [hw2, ensureLink, ensure]
        split
        all_goals simp [partPath, partsDir, storedDir, Shape.move_node_usr]
      rw [h, hpart] at hgone
      cases hgone
    · intro h
      -- What the second write leaves is what was counted before.
      have hcontent := (withPart_twice hf).mp (by rw [← hw]; exact h)
      rw [hw, newContent_withPart hf, hcontent] at hgood
      have hnames : partNames fl r w1.fs = partNames fl r w.fs := by
        rw [partNames, hw, listed_withPart hf, partNames, Finset.insert_idem]
      rw [hnames] at hall
      exact absurd hall (hnot hgood)
  · rw [handle_part env hs1 hr huser1 hnew1 fun hgood hall => hlast ⟨hgood, hall⟩]

end

theorem handle_twice {w : World} {r : NetDiskRequest} (hs : Shape fl w.fs) (hr : PlainNames r) :
    (handle env fl (handle env fl w r).2 r).2.fs = (handle env fl w r).2.fs ↔ ¬ (disk fl w).Spoils (Part.of r) := by
  by_cases huser : w.fs.node (fl.usrRoot ++ [r.usr]) = some .dir
  swap
  · have hnone : w.fs.node (fl.usrRoot ++ [r.usr]) = none := by
      by_contra h
      exact huser (hs.user_dir h)
    have hw := handle_noUser env hs hr hnone
    have hagain := handle_noUser env (handle_spec env hs hr).1 hr (by rw [hw, hnone])
    simp [hagain, Disk.Spoils, disk, Disk.of, Part.of, hnone]
  by_cases hst : w.fs.node (storedDir fl r) = some .dir
  · have hagain := handle_again_stored env hs hr huser hst
    have hstored : (disk fl w).stored r.fileSign = true := by
      rw [storedDir] at hst
      simp [disk, Disk.of, hst]
    simp [hagain, Disk.Spoils, Part.of, hstored]
  have hnew : w.fs.node (storedDir fl r) = none := by
    by_contra h
    obtain ⟨m, hm⟩ := Option.ne_none_iff_exists'.mp h
    exact hst (by rw [hm, hs.store_entry [r.fileSign] m hm])
  have hspoils : (disk fl w).Spoils (Part.of r) ↔
      ¬ (Part.of r).content (some (newContent fl r w.fs)) = newContent fl r w.fs := by
    have hdu : (disk fl w).user r.usr = true := by simp [disk, Disk.of, huser]
    have hds : (disk fl w).stored r.fileSign = false := by
      rw [storedDir] at hnew
      simp [disk, Disk.of, hnew]
    rw [newContent, Part.content_twice, not_not]
    exact ⟨fun h => h.2.2, fun h => ⟨hdu, hds, h⟩⟩
  rw [hspoils, not_not]
  by_cases hlast : Md5.hexDigest (newContent fl r w.fs) = r.partSign ∧
      shardSize r.shard = (partNames fl r w.fs).card
  · obtain ⟨hgood, hall⟩ := hlast
    have hkept : (Part.of r).content (some (newContent fl r w.fs)) = newContent fl r w.fs := by
      rw [newContent, Part.content_twice]
      rintro ⟨o, hold, hsum, hbad, -⟩
      rw [newContent, hold, Part.content_good hsum] at hgood
      exact hbad hgood
    simp [handle_again_last env hs hr huser hnew hgood hall, hkept]
  · exact handle_again_part hs hr huser hnew fun hgood hall => hlast ⟨hgood, hall⟩

end UploadRpc

/-- In a state that uploads lead to, a request that comes again changes no file, exactly unless it spoils a part
that is longer than what it writes. -/
theorem handle_twice_iff {w : World} {requests : List NetDiskRequest} {r : NetDiskRequest} (hempty : EmptyDirs fl w.fs)
    (hnames : ∀ x ∈ requests, PlainNames x) (hr : PlainNames r) :
    (handle env fl (handle env fl (serve env fl w requests) r).2 r).2.fs =
        (handle env fl (serve env fl w requests) r).2.fs ↔
      ¬ (disk fl (serve env fl w requests)).Spoils (Part.of r) :=
  handle_twice (serve_shape env hempty.shape hnames requests List.prefix_rfl) hr

/-! ### A part that is spoilt -/

namespace Spoilt

/-- A part of a file of two, with the digest of `abc`. -/
def request (body : String) : NetDiskRequest where
  opType := 5
  shard := 2
  partIndex := 0
  partSign := Md5.hexDigest (ascii "abc")
  fileName := ascii "abcd.txt"
  fileSign := TwoParts.sign
  usr := ascii "bob"
  body := ascii body

theorem plainNames (body : String) : PlainNames (request body) :=
  ⟨(by decide +kernel : Plain (ascii "bob")), (by decide +kernel : Plain TwoParts.sign)⟩

/-- The good part is there. -/
def world : World := serve .bare .short TwoParts.world [request "abc"]

end Spoilt

theorem handle_twice_spoilt :
    (handle .bare .short (handle .bare .short Spoilt.world (Spoilt.request "x")).2 (Spoilt.request "x")).2.fs =
        (handle .bare .short Spoilt.world (Spoilt.request "x")).2.fs ↔
      ¬ (disk .short Spoilt.world).Spoils (Part.of (Spoilt.request "x")) := by
  have hnames : ∀ x ∈ [Spoilt.request "abc"], PlainNames x := by
    intro x hx
    rw [List.mem_singleton.mp hx]
    exact Spoilt.plainNames "abc"
  rw [Spoilt.world]
  exact handle_twice_iff (EmptyDirs.start _ _) hnames (Spoilt.plainNames "x")

/-- The first call writes over the start of the good part, and the second one deletes what is left. -/
theorem spoilt_twice :
    Alnum (Spoilt.request "x").usr ∧ Hex32 (Spoilt.request "x").fileSign ∧
    (handle .bare .short (handle .bare .short Spoilt.world (Spoilt.request "x")).2 (Spoilt.request "x")).2.fs ≠
      (handle .bare .short Spoilt.world (Spoilt.request "x")).2.fs := by
  refine ⟨by decide +kernel, by decide +kernel, fun h => ?_⟩
  have hnode := congrArg (fun fs : FS => fs.node (partPath .short (Spoilt.request "x"))) h
  have honce : (handle .bare .short Spoilt.world (Spoilt.request "x")).2.fs.node (partPath .short (Spoilt.request "x")) =
      some (.file (ascii "xbc")) := by decide +kernel
  have htwice : (handle .bare .short (handle .bare .short Spoilt.world (Spoilt.request "x")).2
      (Spoilt.request "x")).2.fs.node (partPath .short (Spoilt.request "x")) = some (.file (ascii "x")) := by
    decide +kernel
  rw [honce, htwice] at hnode
  exact absurd hnode (by decide)

end NetDisk
