import NetDisk.Named
import NetDisk.Register

/-!
# The directories of the users

The table keeps the names apart as strings. Their directories are apart exactly when each name, as a
path, is one entry of `usr_dir`, and no two of them are the same entry.
-/

namespace NetDisk

open Machine

/-! ## One `mkdir` -/

section
variable (env : Env) {fs : FS} (hl : ∀ q target, fs.node q ≠ some (.link target)) {text : Bytes} {p : Path}
  (htext : named text = some p)
include htext

omit htext in
theorem named_eq_some (htext : named text = some p) :
    isAbsolute text = true ∧ p = FileTree.normalize [] (pathComps text) := by
  unfold named at htext
  split at htext
  · exact ⟨‹_›, (Option.some.inj htext).symm⟩
  · cases htext

theorem locate_named : locate env fs text = fs.locate readPath maxLinks [] (pathComps text) := by
  obtain ⟨habs, _⟩ := named_eq_some htext
  have hne : text ≠ [] := by
    rintro rfl
    cases habs
  rw [locate, if_neg hne, startDir, if_pos habs]

include hl

theorem mkdir_named : (mkdir env fs text).2 = fs ∨
    ((mkdir env fs text).1 = none ∧ fs.node p = none ∧ ∀ q, (mkdir env fs text).2.node q = if q = p then some .dir else fs.node q) := by
  obtain ⟨_, hp⟩ := named_eq_some htext
  unfold mkdir
  rw [locate_named env htext]
  cases hloc : fs.locate readPath maxLinks [] (pathComps text) with
  | error e => exact Or.inl rfl
  | ok p' =>
    have heq : p' = p := (FileTree.locate_normalize hl hloc).trans hp.symm
    subst heq
    dsimp only
    split
    · rename_i hcan
      exact Or.inr ⟨rfl, hcan.2, fun q => rfl⟩
    · exact Or.inl rfl

theorem mkdir_there (h : (mkdir env fs text).1 = none ∨ (mkdir env fs text).1 = some .eexist) :
    (mkdir env fs text).2.node p ≠ none := by
  obtain ⟨_, hp⟩ := named_eq_some htext
  unfold mkdir at h ⊢
  rw [locate_named env htext] at h ⊢
  cases hloc : fs.locate readPath maxLinks [] (pathComps text) with
  | error e =>
    rw [hloc] at h
    have he : e = .eexist := by simpa using h
    rw [he] at hloc
    have hdir := FileTree.locate_eexist hl hloc
    rw [← hp] at hdir
    simp [hdir]
  | ok p' =>
    have heq : p' = p := (FileTree.locate_normalize hl hloc).trans hp.symm
    subst heq
    obtain ⟨d, n, hdn, hdir⟩ := FileTree.parent_of_locate hloc
    dsimp only
    split
    · simp
    · rename_i hcan
      intro hnone
      have hfree : fs.node p' = none := hnone
      refine hcan ⟨⟨?_, ?_, ?_⟩, hfree⟩
      · simp [hdn]
      · rw [hdn, List.dropLast_concat]
        exact hdir
      · simp [hfree]

end

namespace RegisterView

variable {ρ : Type} (j : Jsoncpp ρ) (fl : Flags) (env : Env)

/-- Where the directory of a name is, with `.`, `..` and slashes read. -/
def usrPath (usr : Bytes) : Path := FileTree.normalize [] (pathComps (cStr (fl.usrDir ++ usr)))

/-! ## One registration -/

theorem named_usrPath (usr : Bytes) : named (cStr (fl.usrDir ++ usr)) = some (usrPath fl usr) := by
  have habs : isAbsolute (cStr (fl.usrDir ++ usr)) = true := rfl
  rw [named, if_pos habs]
  rfl

/-- A registration fails and makes nothing, or its answer is that of its `mkdir`. -/
def Makes (usr : Bytes) (fs : FS) (message : Bytes) (fs' : FS) : Prop :=
  (fs' = fs ∧ ¬ IsSuccess message) ∨
    (fs' = (mkdir env fs (cStr (fl.usrDir ++ usr))).2 ∧
      (IsSuccess message ↔ (mkdir env fs (cStr (fl.usrDir ++ usr))).1 = none ∨
        (mkdir env fs (cStr (fl.usrDir ++ usr))).1 = some .eexist))

/-- Operations on MySQL and on sockets. -/
def offDisk : Sys → Bool
  | .query _ | .fetch | .send _ _ => true
  | _ => false

theorem offDisk_fs {op : Sys} (h : offDisk op = true) (s : Faulty) :
    (faulty canFail env 0 op s).2.world.fs = s.world.fs := by
  refine faulty_spec (Q := fun _ w => w.fs = s.world.fs) ?_ fun hcan f => ?_
  · cases op with
    | query cmd =>
      unfold exec
      dsimp only
      split <;> rfl
    | fetch | send => rfl
    | _ => cases h
  · cases op with
    | query cmd => rfl
    | fetch | send => cases hcan
    | _ => cases h

theorem uses_offDisk_fs {α : Type} {p : Code α} (hp : p.Uses fun op => offDisk op = true) (s : Faulty) :
    (p.run (faulty canFail env 0) s).2.world.fs = s.world.fs := by
  induction p generalizing s with
  | pure a => rfl
  | call op next ih =>
    rw [Prog.run_call, ih _ (hp.2 _)]
    exact offDisk_fs env hp.1 s

theorem runQuery_offDisk (cmd : Bytes) : (Mmysql.runQuery cmd).Uses fun op => offDisk op = true := by
  unfold Mmysql.runQuery
  exact Prog.Uses.bind (Prog.Uses.lift rfl) fun ok => Prog.Uses.ite .pure .pure

theorem usrNotExist_offDisk (usr : Bytes) : (usrNotExist usr).Uses fun op => offDisk op = true := by
  unfold usrNotExist
  refine Prog.Uses.bind (runQuery_offDisk _) fun rt => Prog.Uses.ite .pure (Prog.Uses.bind (Prog.Uses.lift rfl) fun row => ?_)
  cases row <;> exact .pure

theorem insertUsr_offDisk (usr passwd : Bytes) : (insertUsr usr passwd).Uses fun op => offDisk op = true := by
  unfold insertUsr
  exact Prog.Uses.bind (runQuery_offDisk _) fun rt => Prog.Uses.ite .pure .pure

theorem createUsrDir_run (usr : Bytes) (s : Faulty) : ∃ rt s', (createUsrDir fl usr).run (faulty canFail env 0) s = (rt, s') ∧
    ((s'.world.fs = s.world.fs ∧ rt = -1) ∨
      (s'.world.fs = (mkdir env s.world.fs (cStr (fl.usrDir ++ usr))).2 ∧
        (rt ≠ -1 ↔ (mkdir env s.world.fs (cStr (fl.usrDir ++ usr))).1 = none ∨
          (mkdir env s.world.fs (cStr (fl.usrDir ++ usr))).1 = some .eexist))) := by
  cases h0 : s.faults 0 with
  | some f => exact ⟨_, _, createUsrDir_some fl env 0 h0, Or.inl ⟨rfl, rfl⟩⟩
  | none =>
    have hop : faulty canFail env 0 (.mkdir (cStr (fl.usrDir ++ usr))) s =
        ((mkdir env s.world.fs (cStr (fl.usrDir ++ usr))).1,
          ⟨{ s.world with fs := (mkdir env s.world.fs (cStr (fl.usrDir ++ usr))).2 }, s.rest⟩) := faulty_none h0
    generalize mkdir env s.world.fs (cStr (fl.usrDir ++ usr)) = out at hop ⊢
    obtain ⟨err, fs⟩ := out
    have hmk : (FileSys.mkdir (fl.usrDir ++ usr)).run (faulty canFail env 0) s =
        (if err ≠ none ∧ err ≠ some .eexist then -1 else 0, ⟨{ s.world with fs := fs }, s.rest⟩) := by
      refine (Prog.run_call_of _ hop).trans ?_
      change (if err ≠ none ∧ err ≠ some .eexist then .pure (-1) else .pure 0 : Code Int).run _ _ = _
      split <;> rfl
    have hrun : (createUsrDir fl usr).run (faulty canFail env 0) s =
        (if err ≠ none ∧ err ≠ some .eexist then -1 else 1, ⟨{ s.world with fs := fs }, s.rest⟩) := by
      unfold createUsrDir
      rw [Prog.run_bind_of _ hmk]
      split <;> rfl
    refine ⟨_, _, hrun, Or.inr ⟨rfl, ?_⟩⟩
    by_cases herr : err ≠ none ∧ err ≠ some .eexist
    · rw [if_pos herr]
      exact iff_of_false (fun h => h rfl) fun h => h.elim herr.1 herr.2
    · rw [if_neg herr]
      refine iff_of_true (by decide) ?_
      by_cases hnone : err = none
      · exact Or.inl hnone
      · exact Or.inr (not_not.mp fun hne => herr ⟨hnone, hne⟩)

theorem regist_makes (usr passwd : Bytes) (s : Faulty) :
    Makes fl env usr s.world.fs ((regist fl usr passwd).run (faulty canFail env 0) s).1
      ((regist fl usr passwd).run (faulty canFail env 0) s).2.world.fs := by
  have hfail : ∀ e, e ≠ Ending.registered → ¬ IsSuccess (e.message usr) := fun e he h =>
    he ((isSuccess_message usr e).mp h)
  unfold regist
  rw [Prog.run_bind]
  have hfs1 := uses_offDisk_fs env (usrNotExist_offDisk usr) s
  generalize (usrNotExist usr).run (faulty canFail env 0) s = out1 at hfs1 ⊢
  obtain ⟨rt1, s1⟩ := out1
  dsimp only at hfs1 ⊢
  split
  · exact Or.inl ⟨hfs1, hfail .queryFailed nofun⟩
  split
  · exact Or.inl ⟨hfs1, hfail .existed nofun⟩
  rw [Prog.run_bind]
  have hfs2 := uses_offDisk_fs env (insertUsr_offDisk usr passwd) s1
  generalize (insertUsr usr passwd).run (faulty canFail env 0) s1 = out2 at hfs2 ⊢
  obtain ⟨rt2, s2⟩ := out2
  dsimp only at hfs2 ⊢
  rw [hfs1] at hfs2
  split
  · exact Or.inl ⟨hfs2, hfail .insertFailed nofun⟩
  obtain ⟨rt, s3, hrun, hdir⟩ := createUsrDir_run fl env usr s2
  rw [Prog.run_bind_of _ hrun]
  rw [hfs2] at hdir
  rcases hdir with ⟨hsame, hrt⟩ | ⟨hmade, hrt⟩
  · rw [if_pos hrt]
    exact Or.inl ⟨hsame, hfail .noDir nofun⟩
  · refine Or.inr ?_
    rw [← hrt]
    by_cases h : rt = -1
    · rw [if_pos h]
      exact ⟨hmade, iff_of_false (hfail .noDir nofun) fun hne => hne h⟩
    · rw [if_neg h]
      exact ⟨hmade, iff_of_true ((isSuccess_message usr .registered).mpr rfl) h⟩

theorem register_makes (w : World) (r : Registration) :
    Makes fl env r.usr w.fs (register j fl env w r).1 (register j fl env w r).2.fs := by
  unfold register answer
  rw [Prog.run_bind]
  have hmakes := regist_makes fl env r.usr r.passwd ⟨w, r.faults⟩
  generalize (regist fl r.usr r.passwd).run (faulty canFail env 0) ⟨w, r.faults⟩ = out at hmakes ⊢
  obtain ⟨message, s⟩ := out
  have hsend : (respond j r.clientFd .null message >>= fun _ => .pure message : Code Bytes).Uses fun op => offDisk op = true :=
    ⟨rfl, fun _ => trivial⟩
  have hfs := uses_offDisk_fs env hsend s
  exact hfs ▸ hmakes

/-! ## Runs -/

/-- The answer to a registration of the name, in a run, was a success. -/
def Succeeded (w : World) (rs : List Registration) (usr : Bytes) : Prop :=
  ∃ done r, done ++ [r] <+: rs ∧ r.usr = usr ∧ IsSuccess (register j fl env (registers j fl env w done) r).1

/-- The directories of the users are below `usr_dir`, and none of them is another one or lies in it. -/
structure Separated (users : Bytes → Prop) : Prop where
  inside : ∀ u, users u → fl.usrRoot <+: usrPath fl u ∧ usrPath fl u ≠ fl.usrRoot
  apart : ∀ u v, users u → users v → u ≠ v → ¬ usrPath fl u <+: usrPath fl v

/-- Each name is, as a path, one entry of `usr_dir`, and no two are the same. -/
structure OneEntryEach (users : Bytes → Prop) : Prop where
  entry : ∀ u, users u → ∃ n, usrPath fl u = fl.usrRoot ++ [n]
  different : ∀ u v, users u → users v → u ≠ v → usrPath fl u ≠ usrPath fl v

/-- What `mkdir` has made of a start with an empty `usr_dir`. -/
structure Grown (users : Bytes → Prop) (fs : FS) : Prop where
  no_links : ∀ q target, fs.node q ≠ some (.link target)
  made : ∀ q, q ≠ [] → fs.node (fl.usrRoot ++ q) ≠ none → ∃ u, users u ∧ usrPath fl u = fl.usrRoot ++ q
  there : ∀ u, users u → fs.node (usrPath fl u) ≠ none

variable {fl}

theorem Grown.start {fs : FS} (hl : ∀ q target, fs.node q ≠ some (.link target))
    (hempty : ∀ n, fs.node (fl.usrRoot ++ [n]) = none) : Grown fl (fun _ => False) fs where
  no_links := hl
  made q hq hnode := by
    obtain ⟨n, q, rfl⟩ := List.exists_cons_of_ne_nil hq
    have hnone := fs.none_below (p := fl.usrRoot ++ [n]) (by rw [hempty]; exact nofun) (q := q)
    by_cases hnil : q = []
    · rw [hnil] at hnode
      exact absurd (hempty n) hnode
    · have hnode : fs.node (fl.usrRoot ++ [n] ++ q) ≠ none := by simpa using hnode
      exact absurd (hnone hnil) hnode
  there _ hu := hu.elim

variable {env} in
theorem Grown.step {users : Bytes → Prop} {usr : Bytes} {fs fs' : FS} {message : Bytes} (h : Grown fl users fs)
    (hmakes : Makes fl env usr fs message fs') : Grown fl (fun u => users u ∨ usr = u ∧ IsSuccess message) fs' := by
  have htext := named_usrPath fl usr
  rcases hmakes with ⟨rfl, hfail⟩ | ⟨rfl, hsuccess⟩
  · refine ⟨h.no_links, ?_, ?_⟩
    · intro q hq hnode
      obtain ⟨u, hu, hpath⟩ := h.made q hq hnode
      exact ⟨u, Or.inl hu, hpath⟩
    · rintro u (hu | ⟨_, hs⟩)
      · exact h.there u hu
      · exact absurd hs hfail
  · have hthere : IsSuccess message → (mkdir env fs (cStr (fl.usrDir ++ usr))).2.node (usrPath fl usr) ≠ none :=
      fun hs => mkdir_there env h.no_links htext (hsuccess.mp hs)
    rcases mkdir_named env h.no_links htext with hsame | ⟨hnone, _, hnode⟩
    · rw [hsame] at hthere ⊢
      refine ⟨h.no_links, ?_, ?_⟩
      · intro q hq hnode
        obtain ⟨u, hu, hpath⟩ := h.made q hq hnode
        exact ⟨u, Or.inl hu, hpath⟩
      · rintro u (hu | ⟨rfl, hs⟩)
        · exact h.there u hu
        · exact hthere hs
    -- A new directory, and then a success.
    · have hs := hsuccess.mpr (Or.inl hnone)
      refine ⟨?_, ?_, ?_⟩
      · intro q target
        rw [hnode]
        split
        · exact nofun
        · exact h.no_links q target
      · intro q hq hne
        by_cases hp : fl.usrRoot ++ q = usrPath fl usr
        · exact ⟨usr, Or.inr ⟨rfl, hs⟩, hp.symm⟩
        · rw [hnode, if_neg hp] at hne
          obtain ⟨u, hu, hpath⟩ := h.made q hq hne
          exact ⟨u, Or.inl hu, hpath⟩
      · rintro u (hu | ⟨rfl, _⟩)
        · rw [hnode]
          split
          · exact nofun
          · exact h.there u hu
        · exact hthere hs

variable {env} in
theorem succeeded_concat {w : World} {done : List Registration} {r : Registration} {usr : Bytes} :
    Succeeded j fl env w (done ++ [r]) usr ↔
      Succeeded j fl env w done usr ∨ r.usr = usr ∧ IsSuccess (register j fl env (registers j fl env w done) r).1 := by
  constructor
  · rintro ⟨done', r', hpre, husr, hs⟩
    rcases List.prefix_concat_iff.mp hpre with heq | hpre
    · obtain ⟨rfl, hr⟩ := List.append_inj' heq rfl
      cases hr
      exact Or.inr ⟨husr, hs⟩
    · exact Or.inl ⟨done', r', hpre, husr, hs⟩
  · rintro (⟨done', r', hpre, husr, hs⟩ | ⟨husr, hs⟩)
    · exact ⟨done', r', hpre.trans (List.prefix_append done [r]), husr, hs⟩
    · exact ⟨done, r, List.prefix_refl _, husr, hs⟩

theorem registers_grown {w : World} (hl : ∀ q target, w.fs.node q ≠ some (.link target))
    (hempty : ∀ n, w.fs.node (fl.usrRoot ++ [n]) = none) (rs : List Registration) :
    Grown fl (Succeeded j fl env w rs) (registers j fl env w rs).fs := by
  refine Prog.foldl_invariant (fun done (w' : World) => Grown fl (Succeeded j fl env w done) w'.fs) ?_ ?_ rs
    (List.prefix_refl rs)
  · have hnone : Succeeded j fl env w [] = fun _ => False := by
      funext u
      refine propext (iff_of_false ?_ id)
      rintro ⟨done, r, hpre, _⟩
      exact absurd hpre.length_le (by simp)
    rw [hnone]
    exact Grown.start hl hempty
  · intro done r _ h
    have husers : Succeeded j fl env w (done ++ [r]) = fun u => Succeeded j fl env w done u ∨
        r.usr = u ∧ IsSuccess (register j fl env (registers j fl env w done) r).1 :=
      funext fun u => propext (succeeded_concat j)
    rw [husers]
    exact h.step (register_makes j fl env _ r)

theorem OneEntryEach.separated {users : Bytes → Prop} (hone : OneEntryEach fl users) : Separated fl users := by
  constructor
  · intro u hu
    obtain ⟨n, hn⟩ := hone.entry u hu
    rw [hn]
    exact ⟨List.prefix_append _ _, by simp⟩
  · intro u v hu hv hne hpre
    obtain ⟨n, hn⟩ := hone.entry u hu
    obtain ⟨m, hm⟩ := hone.entry v hv
    refine hone.different u v hu hv hne (hpre.eq_of_length ?_)
    rw [hn, hm, List.length_append, List.length_append]
    rfl

/-- Where a directory is there, those above it are somebody's too. -/
theorem Grown.separated_iff {users : Bytes → Prop} {fs : FS} (h : Grown fl users fs) :
    Separated fl users ↔ OneEntryEach fl users := by
  constructor
  · intro hsep
    refine ⟨fun u hu => ?_, fun u v hu hv hne he => hsep.apart u v hu hv hne (he ▸ List.prefix_refl _)⟩
    obtain ⟨⟨q, hq⟩, hne⟩ := hsep.inside u hu
    have hqne : q ≠ [] := by
      rintro rfl
      exact hne (by rw [← hq, List.append_nil])
    obtain ⟨n, q', rfl⟩ := List.exists_cons_of_ne_nil hqne
    have hpre : fl.usrRoot ++ [n] <+: usrPath fl u := ⟨q', by rw [← hq]; simp⟩
    have habove : fs.node (fl.usrRoot ++ [n]) ≠ none := by
      obtain ⟨rest, hrest⟩ := hpre
      by_cases hnil : rest = []
      · have hthere := h.there u hu
        rwa [← hrest, hnil, List.append_nil] at hthere
      · have hthere := h.there u hu
        rw [← hrest] at hthere
        rw [fs.dir_above _ _ hnil hthere]
        exact nofun
    obtain ⟨v, hv, hpath⟩ := h.made [n] (List.cons_ne_nil n []) habove
    by_cases hvu : v = u
    · exact ⟨n, hvu ▸ hpath⟩
    · exact absurd (hpath ▸ hpre) (hsep.apart v u hv hu hvu)
  · exact OneEntryEach.separated

theorem usrPath_single {usr : Bytes} (h : Single usr) : usrPath fl usr = fl.usrRoot ++ [usr] := by
  have htext : cStr (fl.usrDir ++ usr) = dirText fl.usrRoot ++ usr := FileSys.cStr_single fl.usr_plain h
  rw [usrPath, htext, pathComps_single _ _ fl.usr_plain h, FileTree.normalize_names, List.nil_append]

variable (fl) in
/-- In any run, with any names, the directories of the users that were answered Success are separate when each name is
one component of a path; from an empty `usr_dir` they are separate exactly when each name is one entry of it, and no two the
same. -/
theorem users_separated (w : World) (rs : List Registration) :
    ((∀ u, Succeeded j fl env w rs u → Single u) → Separated fl (Succeeded j fl env w rs)) ∧
      ((∀ q target, w.fs.node q ≠ some (.link target)) → (∀ n, w.fs.node (fl.usrRoot ++ [n]) = none) →
        (Separated fl (Succeeded j fl env w rs) ↔ OneEntryEach fl (Succeeded j fl env w rs))) := by
  refine ⟨fun hsingle => OneEntryEach.separated ⟨fun u hu => ⟨u, usrPath_single (hsingle u hu)⟩, ?_⟩, fun hl hempty => ?_⟩
  · intro u v hu hv hne he
    rw [usrPath_single (hsingle u hu), usrPath_single (hsingle v hv)] at he
    exact hne (List.singleton_injective (List.append_cancel_left he))
  · exact (registers_grown j env hl hempty rs).separated_iff

/-! ### Two names of one directory -/

namespace Slash

def named (usr : String) : Registration := ⟨ascii usr, ascii "pw", 4, fun _ => none⟩

theorem no_links (q : Path) (target : Bytes) : Lost.world.fs.node q ≠ some (.link target) := by
  change (if _ then some Node.dir else none) ≠ _
  split <;> exact nofun

end Slash

theorem users_separated_two :
    Separated .short (Succeeded Lost.jsoncpp .short .bare Lost.world [Slash.named "alice", Slash.named "bob"]) ∧
    (Separated .short (Succeeded Lost.jsoncpp .short .bare Lost.world [Slash.named "alice", Slash.named "bob"]) ↔
      OneEntryEach .short (Succeeded Lost.jsoncpp .short .bare Lost.world [Slash.named "alice", Slash.named "bob"])) := by
  have hboth := users_separated Lost.jsoncpp .short .bare Lost.world [Slash.named "alice", Slash.named "bob"]
  refine ⟨hboth.1 ?_, hboth.2 Slash.no_links (EmptyDirs.start_no_user .short)⟩
  rintro u ⟨done, r, hpre, rfl, _⟩
  have hr : r ∈ [Slash.named "alice", Slash.named "bob"] := hpre.subset (by simp)
  rcases List.mem_cons.mp hr with rfl | hr
  · decide
  · rw [List.mem_singleton.mp hr]
    decide

/-- Both are registered, and have the directory `/u/a`. -/
theorem slash_shares_dir :
    ¬ Separated .short (Succeeded Lost.jsoncpp .short .bare Lost.world [Slash.named "a", Slash.named "a/"]) := by
  intro h
  have hfirst : Succeeded Lost.jsoncpp .short .bare Lost.world [Slash.named "a", Slash.named "a/"] (ascii "a") :=
    ⟨[], Slash.named "a", ⟨[Slash.named "a/"], rfl⟩, rfl, by decide⟩
  have hsecond : Succeeded Lost.jsoncpp .short .bare Lost.world [Slash.named "a", Slash.named "a/"] (ascii "a/") :=
    ⟨[Slash.named "a"], Slash.named "a/", List.prefix_refl _, rfl, by decide⟩
  exact h.apart _ _ hfirst hsecond (by decide) (by decide)

end RegisterView

end NetDisk
