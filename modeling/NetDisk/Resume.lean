import NetDisk.Retry

/-!
# A part that is there already

What becomes of a part that a request brings when nothing of the call fails: a good one may be spoilt, and a request
with the right body repairs a bad one.
-/

namespace NetDisk

open Machine

/-! ## Calls in which nothing fails -/

namespace Machine

/-- A reply that reports no failure. What is only asked for may be missing, and what is made may be there. -/
def Succeeds : (op : Sys) → op.Res → Prop
  | .mkdir _, (err : Option Errno) => err = none ∨ err = some .eexist
  | .symlink _ _, (err : Option Errno) => err = none ∨ err = some .eexist
  | .remove _, (err : Option Errno) => err = none
  | .readdir _, (names : Option (Finset Name)) => names ≠ none
  | .openFile _, (fd : Option Nat) => fd ≠ none
  | .write _ _, (n : Option Nat) => n ≠ none
  | .shell _, (out : Option Bytes) => out ≠ none
  | .query _, (ok : Bool) => ok = true
  | .opendir _, _ | .access _, _ | .close _, _ | .fetch, _ | .lock, _ | .unlock, _ | .send _ _, _ => True

instance : (op : Sys) → (r : op.Res) → Decidable (Succeeds op r)
  | .mkdir _, (err : Option Errno) => inferInstanceAs (Decidable (err = none ∨ err = some .eexist))
  | .symlink _ _, (err : Option Errno) => inferInstanceAs (Decidable (err = none ∨ err = some .eexist))
  | .remove _, (err : Option Errno) => inferInstanceAs (Decidable (err = none))
  | .readdir _, (names : Option (Finset Name)) => inferInstanceAs (Decidable (names ≠ none))
  | .openFile _, (fd : Option Nat) => inferInstanceAs (Decidable (fd ≠ none))
  | .write _ _, (n : Option Nat) => inferInstanceAs (Decidable (n ≠ none))
  | .shell _, (out : Option Bytes) => inferInstanceAs (Decidable (out ≠ none))
  | .query _, (ok : Bool) => inferInstanceAs (Decidable (ok = true))
  | .opendir _, _ | .access _, _ | .close _, _ | .fetch, _ | .lock, _ | .unlock, _ | .send _ _, _ =>
    inferInstanceAs (Decidable True)

/-- No system call and no query of the run fails. -/
def Quiet {α : Type} (env : Env) (tid : Nat) (c : Code α) (w : World) : Prop := c.Meets Succeeds (exec env tid) w

instance {α : Type} (env : Env) (tid : Nat) (c : Code α) (w : World) : Decidable (Quiet env tid c w) :=
  inferInstanceAs (Decidable (Prog.Meets _ _ _ _))

end Machine

namespace UploadRpc

open FileSys Mmysql

section
variable {env : Env} {tid : Nat} {w : World}

theorem quiet_rest {α β : Type} {c : Code α} {f : α → Code β} {a : α} {fs fs' : FS} {db db' : DB}
    (h : Quiet env tid (c >>= f) w) (hends : Ends env tid c fs db a fs' db') (hfs : w.fs = fs) (hdb : w.db = db) :
    ∃ w', w'.fs = fs' ∧ w'.db = db' ∧ (c >>= f).run (exec env tid) w = (f a).run (exec env tid) w' ∧
      Quiet env tid (f a) w' := by
  obtain ⟨h1, h2, h3⟩ := hends w hfs hdb
  refine ⟨(c.run (exec env tid) w).2, h2, h3, ?_, ?_⟩
  · rw [Prog.run_bind, h1]
  · have hrest := ((Prog.meets_bind _ _ _ _ _).mp h).2
    rwa [h1] at hrest

theorem quiet_query {cmd : Bytes} {β : Type} {f : Int → Code β} (h : Quiet env tid (runQuery cmd >>= f) w) :
    ∃ db rows, sql env w.db cmd = some (db, rows) := by
  have hreply : (exec env tid (.query cmd) w).1 = true := ((Prog.meets_bind _ _ _ _ _).mp h).1.1
  cases hq : sql env w.db cmd with
  | none => simp [exec, hq] at hreply
  | some r => exact ⟨r.1, r.2, rfl⟩

theorem quiet_lockedQuery {cmd : Bytes} (h : Quiet env tid (lockedQuery cmd) w) :
    (queryOutcome env w.db cmd).1 = true := by
  obtain ⟨db, rows, hq⟩ := quiet_query (w := { w with locked := true }) h.2
  unfold queryOutcome
  rw [show sql env w.db cmd = some (db, rows) from hq]

theorem quiet_countLink {sign fileName : Bytes} (h : Quiet env tid (countLink sign fileName) w) :
    (linkQueries env w.db sign fileName).1 = true := by
  obtain ⟨db, rows, hq⟩ := quiet_query h
  have hrest := ((Prog.meets_bind _ _ _ _ _).mp h).2
  rw [runQuery_some env tid hq, if_neg (by simp)] at hrest
  -- The row is fetched from what the `SELECT` left.
  have hmatch := ((Prog.meets_bind _ _ _ _ _).mp hrest).2
  have hfetch : fetchRes.run (exec env tid) { w with db := db, pending := Function.update w.pending tid rows } =
      (rows.bind List.head?, { w with db := db, pending := Function.update w.pending tid none }) := by
    simp [fetchRes, sys, Prog.lift, Prog.run_call, exec]
  rw [hfetch] at hmatch
  unfold linkQueries
  rw [hq]
  dsimp only at hmatch ⊢
  cases hrow : rows.bind List.head? with
  | none =>
    rw [hrow] at hmatch
    exact quiet_lockedQuery hmatch
  | some row =>
    rw [hrow] at hmatch
    exact quiet_lockedQuery hmatch

/-- All that was there, and at most a link more. -/
def Linked (fs fs' : FS) : Prop :=
  ∀ q, fs'.node q = fs.node q ∨ fs.node q = none ∧ ∃ target, fs'.node q = some (.link target)

theorem Linked.file_iff {fs fs' : FS} (h : Linked fs fs') {q : Path} {c : Bytes} :
    fs'.node q = some (.file c) ↔ fs.node q = some (.file c) := by
  rcases h q with hq | ⟨hnone, target, hq⟩
  · rw [hq]
  · simp [hq, hnone]

theorem quiet_link {src dst : Bytes} (h : Quiet env tid (link src dst) w) : ∃ w',
    (link src dst).run (exec env tid) w = (0, w') ∧ w'.db = w.db ∧ Linked w.fs w'.fs := by
  have hok : Succeeds (.symlink (cStr src) (cStr dst)) (exec env tid (.symlink (cStr src) (cStr dst)) w).1 := h.1
  refine ⟨(exec env tid (.symlink (cStr src) (cStr dst)) w).2, ?_, rfl, ?_⟩
  · refine (link_run (Prod.mk.eta).symm).trans ?_
    rw [if_neg]
    rintro ⟨hnone, hexist⟩
    exact hok.elim hnone hexist
  · change Linked w.fs (Machine.symlink env w.fs (cStr src) (cStr dst)).2
    rcases symlink_cases env (cStr src) (cStr dst) w.fs with ⟨-, p, -, hnone, hnode⟩ | ⟨-, -, hfs⟩ | ⟨e, -, -, hfs⟩
    · intro q
      rw [hnode]
      by_cases hq : q = p
      · exact Or.inr ⟨hq ▸ hnone, cStr src, if_pos hq⟩
      · exact Or.inl (if_neg hq)
    · exact fun q => Or.inl (by rw [hfs])
    · exact fun q => Or.inl (by rw [hfs])

theorem quiet_linkToUsr {src dst sign fileName : Bytes} (h : Quiet env tid (linkToUsr src dst sign fileName) w) : ∃ w',
    (linkToUsr src dst sign fileName).run (exec env tid) w = (0, w') ∧ Linked w.fs w'.fs := by
  obtain ⟨hlink, hrest⟩ := (Prog.meets_bind _ _ _ _ _).mp h
  obtain ⟨w1, hrun, hdb, hlinked⟩ := quiet_link hlink
  rw [hrun, if_neg (by simp)] at hrest
  have hq := quiet_countLink hrest
  have hspec : Ends env tid (countLink sign fileName) w1.fs w1.db _ _ _ := countLink_spec sign fileName
  obtain ⟨hrt, hfs, -⟩ := hspec w1 rfl rfl
  rw [hq, if_pos rfl] at hrt
  refine ⟨((countLink sign fileName).run (exec env tid) w1).2, ?_, hfs ▸ hlinked⟩
  unfold linkToUsr
  rw [Prog.run_bind_of _ hrun, if_neg (by simp)]
  exact Prod.ext hrt rfl

end

/-! ## How such a call ends -/

/-- The answer and the file system, when nothing fails. -/
inductive Ended (fl : Flags) (r : NetDiskRequest) (fs : FS) : Option Bool → FS → Prop
  | rejected (hbad : Md5.hexDigest (newContent fl r fs) ≠ r.partSign) : Ended fl r fs (some false) (withPart fl r fs)
  | accepted (hgood : Md5.hexDigest (newContent fl r fs) = r.partSign)
      (hmore : shardSize r.shard ≠ (partNames fl r fs).card) : Ended fl r fs (some true) (withPart fl r fs)
  | published (hgood : Md5.hexDigest (newContent fl r fs) = r.partSign)
      (hlast : shardSize r.shard = (partNames fl r fs).card) (hcan : _) (fs' : FS)
      (hlinked : Linked ((withPart fl r fs).move (partsDir fl r) (storedDir fl r) hcan) fs') :
      Ended fl r fs (some true) fs'

section
variable {env : Env} {fl : Flags} {r : NetDiskRequest} {w : World} (hu : Plain r.usr) (hsg : Plain r.fileSign)
  (hf : Fresh fl r w.fs)
include hu hsg hf

theorem publish_quiet {tid : Nat} {w' : World} (hw : w'.fs = withPart fl r w.fs) (response : NetDiskResponse)
    (hquiet : Quiet env tid (publish fl r response) w') : ∃ hcan,
      ((publish fl r response).run (exec env tid) w').1.res = some true ∧
      Linked ((withPart fl r w.fs).move (partsDir fl r) (storedDir fl r) hcan)
        ((publish fl r response).run (exec env tid) w').2.fs := by
  have hfroot := withPart_files_root hf
  have hnew := withPart_new hf
  have hcan := Shape.canMove_new (u := r.usr) hfroot hnew
  obtain ⟨w2, hfs2, -, hrun2, hquiet2⟩ := quiet_rest hquiet (mv_spec hu hsg hfroot (withPart_dir hf) hnew) hw rfl
  rw [if_neg (by simp)] at hquiet2
  obtain ⟨w3, hrun3, hlinked⟩ := quiet_linkToUsr ((Prog.meets_bind _ _ _ _ _).mp hquiet2).1
  rw [hfs2] at hlinked
  unfold publish
  rw [hrun2, if_neg (by simp), Prog.run_bind_of _ hrun3, if_neg (by simp)]
  exact ⟨hcan, rfl, hlinked⟩

theorem handle_ended (hquiet : Quiet env 0 (Do fl r .empty) w) :
    Ended fl r w.fs (Server.handle env fl w r).1.res (Server.handle env fl w r).2.fs := by
  have hK : ∀ w' : World, w'.fs = w.fs → w'.db = w.db → Quiet env 0 (Do fl r .empty) w' →
      Ended fl r w.fs ((Do fl r .empty).run (exec env 0) w').1.res ((Do fl r .empty).run (exec env 0) w').2.fs := by
    refine Do_fresh env 0 w.db (K := fun c fs => ∀ w' : World, w'.fs = fs → w'.db = w.db → Quiet env 0 c w' →
      Ended fl r w.fs (c.run (exec env 0) w').1.res (c.run (exec env 0) w').2.fs) hu hsg hf ?_ .empty ?_ ?_ ?_
    · intro α c f a fs fs' hends _ hleft w' hfs hdb hq
      obtain ⟨w2, hfs2, hdb2, hrun, hquiet2⟩ := quiet_rest hq hends hfs hdb
      rw [hrun]
      exact hleft w2 hfs2 hdb2 hquiet2
    · intro hbad response w' hfs hdb _
      rw [Prog.run_pure, hfs]
      exact .rejected hbad
    · intro hgood hmore response w' hfs hdb _
      rw [Prog.run_pure, hfs]
      exact .accepted hgood hmore
    · intro hgood hlast response w' hfs hdb hq
      obtain ⟨hcan, hres, hlinked⟩ := publish_quiet hu hsg hf hfs response hq
      rw [hres]
      exact .published hgood hlast hcan _ hlinked
  exact hK w rfl rfl hquiet

end

/-! ## The parts after it -/

section
variable {fl : Flags} {r : NetDiskRequest} {fs fs' : FS} {hcan : (withPart fl r fs).CanMove (partsDir fl r) (storedDir fl r)}
  (hlinked : Linked ((withPart fl r fs).move (partsDir fl r) (storedDir fl r) hcan) fs')
include hlinked

theorem published_stored (f : Name) (c : Bytes) : fs'.node (storedDir fl r ++ [f]) = some (.file c) ↔
    (withPart fl r fs).node (partsDir fl r ++ [f]) = some (.file c) := by
  rw [hlinked.file_iff, FileTree.node_move_under]

theorem published_gone (f : Name) (c : Bytes) : fs'.node (partsDir fl r ++ [f]) ≠ some (.file c) := by
  have happ : partsDir fl r ++ [f] = fl.usrRoot ++ [r.usr, TMP, r.fileSign, f] := by simp [partsDir]
  have hnone : ((withPart fl r fs).move (partsDir fl r) (storedDir fl r) hcan).node (partsDir fl r ++ [f]) = none := by
    rw [happ]
    refine (Shape.move_node_usr hcan _).trans (if_pos ?_)
    simp
  rw [ne_eq, hlinked.file_iff, hnone]
  simp

end

/-! ## A good part -/

theorem Fresh.of_part {fl : Flags} {r : NetDiskRequest} {fs : FS} {c : Bytes}
    (hroot : fs.node fl.filesRoot = some .dir) (hnew : fs.node (storedDir fl r) = none)
    (hpart : fs.node (partPath fl r) = some (.file c)) : Fresh fl r fs := by
  have habove : ∀ q q', partPath fl r = q ++ q' → q' ≠ [] → fs.node q = some .dir := by
    intro q q' hq hne
    exact fs.dir_above q q' hne (by rw [← hq, hpart]; simp)
  refine ⟨⟨habove _ _ (by simp [partPath]; rfl) (by simp), fun m hm => ?_, fun m hm => ?_⟩, hroot, hnew, fun m hm => ?_⟩
  · have hdir := habove (fl.usrRoot ++ [r.usr, TMP]) [r.fileSign, toString r.partIndex.toNat] (by simp [partPath]) (by simp)
    exact Option.some.inj (hm.symm.trans hdir)
  · have hdir := habove (fl.usrRoot ++ [r.usr, TMP, r.fileSign]) [toString r.partIndex.toNat] (by simp [partPath]) (by simp)
    exact Option.some.inj (hm.symm.trans hdir)
  · exact ⟨c, Option.some.inj (hm.symm.trans hpart)⟩

end UploadRpc

open UploadRpc FileSys Server

/-- A good part that comes again is accepted and kept, exactly if what is written of the body is the start of it. -/
theorem resumed_part_iff {env : Env} {fl : Flags} {w : World} {r : NetDiskRequest} {c : Bytes} (hu : Plain r.usr)
    (hsg : Plain r.fileSign) (hroot : w.fs.node fl.filesRoot = some .dir) (hnew : w.fs.node (storedDir fl r) = none)
    (hpart : w.fs.node (partPath fl r) = some (.file c)) (hgood : Md5.hexDigest c = r.partSign)
    (hquiet : Quiet env 0 (Do fl r .empty) w) :
    ((handle env fl w r).1.res = some true ∧
      ((handle env fl w r).2.fs.node (partPath fl r) = some (.file c) ∨
        (handle env fl w r).2.fs.node (storedDir fl r ++ [toString r.partIndex.toNat]) = some (.file c))) ↔
      written r.body <+: c := by
  have hf := Fresh.of_part hroot hnew hpart
  have hcontent : newContent fl r w.fs = overlay c (written r.body) := by
    rw [newContent, fileAt, hpart]
    exact Part.content_good hgood
  have hended := handle_ended hu hsg hf hquiet
  have hpath : partPath fl r = partsDir fl r ++ [toString r.partIndex.toNat] := partPath_eq fl r
  have hwith := withPart_part hf
  rw [← overlay_eq_self, ← hcontent]
  generalize (handle env fl w r).1.res = res, (handle env fl w r).2.fs = fs' at hended
  cases hended with
  | rejected hbad =>
    refine ⟨fun h => by simp at h, fun h => ?_⟩
    rw [h] at hbad
    exact absurd hgood hbad
  | accepted =>
    have hno := FileTree.none_below (withPart fl r w.fs) (p := storedDir fl r) (by simp [withPart_new hf])
      (q := [toString r.partIndex.toNat]) (by simp)
    simp [hwith, hno]
  | published _ _ hcan _ hlinked =>
    have hst := published_stored hlinked (toString r.partIndex.toNat)
    have hgone := published_gone hlinked (toString r.partIndex.toNat)
    rw [← hpath] at hst hgone
    simp [hst, hgone, hwith]

theorem resumed_part_spoilt :
    ((handle .bare .short Spoilt.world (Spoilt.request "x")).1.res = some true ∧
      ((handle .bare .short Spoilt.world (Spoilt.request "x")).2.fs.node (partPath .short (Spoilt.request "x")) =
          some (.file (ascii "abc")) ∨
        (handle .bare .short Spoilt.world (Spoilt.request "x")).2.fs.node
          (storedDir .short (Spoilt.request "x") ++ [toString (Spoilt.request "x").partIndex.toNat]) =
            some (.file (ascii "abc")))) ↔
      written (Spoilt.request "x").body <+: ascii "abc" := by
  have hroot : Spoilt.world.fs.node Flags.short.filesRoot = some .dir := by decide +kernel
  have hnew : Spoilt.world.fs.node (storedDir .short (Spoilt.request "x")) = none := by decide +kernel
  have hpart : Spoilt.world.fs.node (partPath .short (Spoilt.request "x")) = some (.file (ascii "abc")) := by
    decide +kernel
  have hgood : Md5.hexDigest (ascii "abc") = (Spoilt.request "x").partSign := rfl
  have hquiet : Quiet .bare 0 (Do .short (Spoilt.request "x") .empty) Spoilt.world := by decide +kernel
  exact resumed_part_iff (Spoilt.plainNames "x").1 (Spoilt.plainNames "x").2 hroot hnew hpart hgood hquiet

/-- A body that is wrong: the part was good, and is spoilt and rejected. -/
theorem good_part_spoilt :
    Spoilt.world.fs.node (storedDir .short (Spoilt.request "x")) = none ∧
    Spoilt.world.fs.node (partPath .short (Spoilt.request "x")) = some (.file (ascii "abc")) ∧
    Md5.hexDigest (ascii "abc") = (Spoilt.request "x").partSign ∧
    Quiet .bare 0 (Do .short (Spoilt.request "x") .empty) Spoilt.world ∧
    (handle .bare .short Spoilt.world (Spoilt.request "x")).1.res = some false ∧
    (handle .bare .short Spoilt.world (Spoilt.request "x")).2.fs.node (partPath .short (Spoilt.request "x")) =
      some (.file (ascii "xbc")) := by
  decide +kernel

/-! ## A clean part -/

section
variable {env : Env} {fl : Flags} {w : World} {r : NetDiskRequest}

/-- A file is there with the same content in both. -/
def SameFile (fs fs' : FS) (p p' : Path) : Prop := ∀ c, fs.node p = some (.file c) ↔ fs'.node p' = some (.file c)

theorem SameFile.of_eq {fs fs' : FS} {p p' : Path} (h : fs.node p = fs'.node p') : SameFile fs fs' p p' :=
  fun c => by rw [h]

theorem ended_others {res : Option Bool} {fs' : FS} (hf : Fresh fl r w.fs) (h : Ended fl r w.fs res fs') :
    (∀ v s f, ¬ (v = r.usr ∧ s = r.fileSign) →
      SameFile fs' w.fs (fl.usrRoot ++ [v, TMP, s, f]) (fl.usrRoot ++ [v, TMP, s, f])) ∧
    ∀ s f, s ≠ r.fileSign → SameFile fs' w.fs (fl.filesRoot ++ [s, f]) (fl.filesRoot ++ [s, f]) := by
  have hparts : ∀ v s f, ¬ (v = r.usr ∧ s = r.fileSign) → (withPart fl r w.fs).node (fl.usrRoot ++ [v, TMP, s, f]) =
      w.fs.node (fl.usrRoot ++ [v, TMP, s, f]) := by
    intro v s f hne
    refine withPart_of_ne hf ?_ (by simp) (by simp) (by simp [partsDir])
    simp only [partPath, ne_eq, List.append_cancel_left_eq, List.cons.injEq, and_true, true_and]
    exact fun h => hne ⟨h.1, h.2.1⟩
  have hstore : ∀ q, (withPart fl r w.fs).node (fl.filesRoot ++ q) = w.fs.node (fl.filesRoot ++ q) := by
    have hne : ∀ q q', fl.filesRoot ++ q ≠ fl.usrRoot ++ q' := fun q q' => fl.files_ne_usr _ _
    exact fun q => withPart_of_ne hf (hne q _) (hne q _) (hne q _) (hne q _)
  cases h with
  | rejected => exact ⟨fun v s f hne => .of_eq (hparts v s f hne), fun s f _ => .of_eq (hstore _)⟩
  | accepted => exact ⟨fun v s f hne => .of_eq (hparts v s f hne), fun s f _ => .of_eq (hstore _)⟩
  | published _ _ hcan _ hlinked =>
    refine ⟨fun v s f hne c => ?_, fun s f hne c => ?_⟩
    · have hsame := Shape.move_node_usr hcan [v, TMP, s, f]
      rw [if_neg, hparts v s f hne] at hsame
      · exact hlinked.file_iff.trans (iff_of_eq (congrArg (· = _) hsame))
      · simp only [List.cons_prefix_cons, List.nil_prefix, and_true, true_and]
        exact fun h => hne ⟨h.1.symm, h.2.symm⟩
    · have hsame := Shape.move_node_store hcan [s, f]
      rw [if_neg (by simpa using hne.symm), hstore] at hsame
      exact hlinked.file_iff.trans (iff_of_eq (congrArg (· = _) hsame))

/-- A request with the right body is accepted whatever was left of its part, and exactly the body is there then,
beside the other parts. -/
theorem clean_part_repairs (hu : Alnum r.usr) (hsg : Hex32 r.fileSign) (hf : Fresh fl r w.fs) (h0 : (0 : Byte) ∉ r.body)
    (hlen : r.body.length ≤ 4096) (hsum : r.partSign = Md5.hexDigest r.body)
    (hcoll : ∀ old, w.fs.node (partPath fl r) = some (.file old) → Md5.hexDigest old = Md5.hexDigest r.body →
      old = r.body) (hquiet : Quiet env 0 (Do fl r .empty) w) :
    (handle env fl w r).1.res = some true ∧
    (∃ dir, dir = (if shardSize r.shard = (partNames fl r w.fs).card then storedDir fl r else partsDir fl r) ∧
      (handle env fl w r).2.fs.node (dir ++ [toString r.partIndex.toNat]) = some (.file r.body) ∧
      ∀ f, f ≠ toString r.partIndex.toNat →
        SameFile (handle env fl w r).2.fs w.fs (dir ++ [f]) (partsDir fl r ++ [f])) ∧
    (∀ v s f, ¬ (v = r.usr ∧ s = r.fileSign) →
      SameFile (handle env fl w r).2.fs w.fs (fl.usrRoot ++ [v, TMP, s, f]) (fl.usrRoot ++ [v, TMP, s, f])) ∧
    ∀ s f, s ≠ r.fileSign →
      SameFile (handle env fl w r).2.fs w.fs (fl.filesRoot ++ [s, f]) (fl.filesRoot ++ [s, f]) := by
  have hwritten : written r.body = r.body := written_eq_self h0 hlen
  have hcontent : newContent fl r w.fs = r.body := by
    rw [newContent, fileAt]
    cases hnode : w.fs.node (partPath fl r) with
    | none => exact hwritten
    | some m =>
      obtain ⟨old, rfl⟩ := hf.part m hnode
      by_cases hold : Md5.hexDigest old = r.partSign
      · obtain rfl := hcoll old hnode (hold.trans hsum)
        refine (Part.content_good hold).trans ?_
        change overlay r.body (written r.body) = r.body
        rw [hwritten, overlay_self]
      · exact (Part.content_bad hold).trans hwritten
  have hended := handle_ended hu.plain hsg.plain hf hquiet
  have hothers := ended_others hf hended
  have hpath : partPath fl r = partsDir fl r ++ [toString r.partIndex.toNat] := partPath_eq fl r
  have hpart := withPart_part hf
  rw [hpath, hcontent] at hpart
  have hrest : ∀ f, f ≠ toString r.partIndex.toNat →
      (withPart fl r w.fs).node (partsDir fl r ++ [f]) = w.fs.node (partsDir fl r ++ [f]) := by
    intro f hne
    exact withPart_of_ne hf (by rw [hpath]; simpa using hne) (by simp [partsDir]) (by simp [partsDir]) (by simp)
  generalize (handle env fl w r).1.res = res, (handle env fl w r).2.fs = fs' at hended hothers
  cases hended with
  | rejected hbad =>
    rw [hcontent] at hbad
    exact absurd hsum.symm hbad
  | accepted _ hmore => exact ⟨rfl, ⟨_, (if_neg hmore).symm, hpart, fun f hne => .of_eq (hrest f hne)⟩, hothers⟩
  | published _ hlast hcan _ hlinked =>
    refine ⟨rfl, ⟨_, (if_pos hlast).symm, ?_, fun f hne c => ?_⟩, hothers⟩
    · exact (published_stored hlinked _ _).mpr hpart
    · rw [published_stored hlinked, hrest f hne]

end

/-! ### A damaged part -/

namespace TwoParts

def damagedWorld : World := serve .bare .short world [request "bob" 0 "x"]

end TwoParts

theorem damaged_part_repaired :
    (handle .bare .short TwoParts.damagedWorld (TwoParts.request "bob" 0 "a")).1.res = some true := by
  have hroot : TwoParts.damagedWorld.fs.node Flags.short.filesRoot = some .dir := by decide +kernel
  have hnew : TwoParts.damagedWorld.fs.node (storedDir .short (TwoParts.request "bob" 0 "a")) = none := by decide +kernel
  have hpart : TwoParts.damagedWorld.fs.node (partPath .short (TwoParts.request "bob" 0 "a")) =
      some (.file (ascii "x")) := by decide +kernel
  have hcoll : ∀ old, TwoParts.damagedWorld.fs.node (partPath .short (TwoParts.request "bob" 0 "a")) =
      some (.file old) → Md5.hexDigest old = Md5.hexDigest (TwoParts.request "bob" 0 "a").body →
      old = (TwoParts.request "bob" 0 "a").body := by
    intro old hold hsum
    rw [hpart, Option.some.injEq, Node.file.injEq] at hold
    rw [← hold] at hsum
    exact absurd hsum (by decide +kernel)
  have hquiet : Quiet .bare 0 (Do .short (TwoParts.request "bob" 0 "a") .empty) TwoParts.damagedWorld := by
    decide +kernel
  exact (clean_part_repairs (by decide +kernel : Alnum (ascii "bob")) (by decide +kernel : Hex32 TwoParts.sign)
    (Fresh.of_part hroot hnew hpart) (by decide) (by decide) rfl hcoll hquiet).1

end NetDisk
