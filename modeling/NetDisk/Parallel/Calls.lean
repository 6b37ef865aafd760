import NetDisk.Parallel.Together

/-!
# One call among the others

What a call of `UploadRpc::Do` knows between its operations, and that it keeps what it promises.
-/

namespace NetDisk.Parallel

open Machine UploadRpc FileSys Mmysql Prog

/-- One undamaged request for each part of a file. -/
structure Parts {n : Nat} (u s : Name) (request : Fin n → NetDiskRequest) : Prop where
  usr_plain : Plain u
  sign_plain : Plain s
  usr_eq : ∀ i, (request i).usr = u
  sign_eq : ∀ i, (request i).fileSign = s
  shard_eq : ∀ i, (request i).shard.toNat = n
  index_eq : ∀ i, (request i).partIndex.toNat = i
  digest_eq : ∀ i, (request i).partSign = Md5.hexDigest (request i).body
  count_lt : n < 2147483648
  body_nul : ∀ i, (0 : Byte) ∉ (request i).body
  body_length : ∀ i, (request i).body.length ≤ writeLen
  one_row : ∀ i, Stmt.OneRow s (request i).fileName

/-! ## How far a call is -/

section
variable (fl : Flags) (u s : Name) {n : Nat}

/-- The operations of a call that the others look at, in its order. -/
def marks (i : Nat) : List Sys := [openOp fl u s i, sumOp fl u s i, listOp fl u s, mvOp fl u s]

/-- The kinds of operation that they are of. -/
def marking : Sys → Bool
  | .openFile _ | .shell _ | .readdir _ => true
  | _ => false

theorem not_mem_marks {fl : Flags} {u s : Name} {i : Nat} {op : Sys} (h : marking op = false) : op ∉ marks fl u s i := by
  intro hmem
  simp only [marks, List.mem_cons, List.not_mem_nil, or_false] at hmem
  rcases hmem with rfl | rfl | rfl | rfl <;> cases h

/-- The call has done the first `k` of them. -/
def At (i : Fin n) (k : Nat) (t : Calls n) : Prop :=
  ∀ m op, (marks fl u s i)[m]? = some op → ((i, op) ∈ t.trace ↔ m < k)

/-- How far the call is, and some directories of the user, which are not moved before it has checked its
part. -/
structure Has (i : Fin n) (k : Nat) (qs : List Path) (t : Calls n) : Prop where
  marked : At fl u s i k t
  dirs : ∀ q ∈ qs, t.state.fs.node (fl.usrRoot ++ q) = some .dir
  kept : k ≤ 1 ∨ ∀ q ∈ qs, ¬ [u, TMP, s] <+: q

end

section
variable {fl : Flags} {u s : Name} {n : Nat} {i : Fin n} {k : Nat} {qs : List Path} {t : Calls n}

theorem At.opened (h : At fl u s i k t) : Opened fl u s t.trace i ↔ 0 < k := h 0 _ rfl
theorem At.summed (h : At fl u s i k t) : Summed fl u s t.trace i ↔ 1 < k := h 1 _ rfl
theorem At.listed (h : At fl u s i k t) : Listed fl u s t.trace i ↔ 2 < k := h 2 _ rfl
theorem At.moved (h : At fl u s i k t) : (i, mvOp fl u s) ∈ t.trace ↔ 3 < k := h 3 _ rfl

theorem nodup_marks (hu : Plain u) (hsg : Plain s) (i : Nat) : (marks fl u s i).Nodup := by
  have hne : sumOp fl u s i ≠ mvOp fl u s := sum_ne_mv hu hsg i
  unfold sumOp mvOp at hne
  simp [marks, openOp, sumOp, listOp, mvOp]
  simpa using hne

section
variable {env : Env} {op : Sys}

theorem at_other {j : Fin n} (hj : j ≠ i) (h : At fl u s i k t) :
    At fl u s i k ((sched fl u s env n).after t j op) := by
  intro m op' hm
  rw [Sched.mem_after, h m op' hm]
  exact or_iff_left fun h => hj h.1.symm

theorem at_same (hop : op ∉ marks fl u s i) (h : At fl u s i k t) :
    At fl u s i k ((sched fl u s env n).after t i op) := by
  intro m op' hm
  rw [Sched.mem_after, h m op' hm]
  refine or_iff_left ?_
  rintro ⟨_, rfl⟩
  exact hop (List.mem_of_getElem? hm)

theorem at_next (hu : Plain u) (hsg : Plain s) (hop : (marks fl u s i)[k]? = some op) (h : At fl u s i k t) :
    At fl u s i (k + 1) ((sched fl u s env n).after t i op) := by
  intro m op' hm
  rw [Sched.mem_after, h m op' hm, Nat.lt_succ_iff_lt_or_eq]
  refine or_congr_right ?_
  constructor
  · rintro ⟨_, rfl⟩
    have hlt : m < (marks fl u s i).length := (List.getElem?_eq_some_iff.mp hm).1
    exact (List.getElem?_inj hlt (nodup_marks hu hsg i)).mp (hm.trans hop.symm)
  · rintro rfl
    exact ⟨rfl, Option.some.inj (hm.symm.trans hop)⟩

theorem not_mv {j : Fin n} (h : At fl u s i k t) (hk : k ≤ 1) (hok : (sched fl u s env n).ok t j op) :
    op ≠ mvOp fl u s := by
  intro hop
  have hsum := h.summed.mp (hok.2 hop i)
  omega

/-! ## The call that moves the parts -/

theorem found_after {j : Fin n} : Found fl u s ((sched fl u s env n).after t j op).trace i ↔
    Found fl u s t.trace i ∨ j = i ∧ op = listOp fl u s ∧ Complete fl u s t.trace := by
  constructor
  · rintro ⟨pre, hcomplete, hpre⟩
    rcases List.prefix_concat_iff.mp hpre with heq | hpre
    · obtain ⟨rfl, hlast⟩ := List.append_inj' heq rfl
      rw [List.singleton_inj, Prod.mk.injEq] at hlast
      exact Or.inr ⟨hlast.1.symm, hlast.2.symm, hcomplete⟩
    · exact Or.inl ⟨pre, hcomplete, hpre⟩
  · rintro (⟨pre, hcomplete, hpre⟩ | ⟨rfl, rfl, hcomplete⟩)
    · exact ⟨pre, hcomplete, hpre.trans (List.prefix_append _ _)⟩
    · exact ⟨t.trace, hcomplete, List.prefix_rfl⟩

theorem Found.listed {tr : List (Fin n × Sys)} (h : Found fl u s tr i) : Listed fl u s tr i := by
  obtain ⟨pre, _, hpre⟩ := h
  exact hpre.subset (by simp)

/-- The parts wait for the call, and no other one has found all of them. -/
structure Mover (fl : Flags) (u s : Name) (i : Fin n) (t : Calls n) : Prop where
  found : Found fl u s t.trace i
  not_moved : ¬ Moved fl u s t.trace
  others : ∀ j, j ≠ i → ¬ Found fl u s t.trace j

theorem mover_other {body name : Fin n → Bytes} (hu : Plain u) (hsg : Plain s) {j : Fin n} (hj : j ≠ i)
    (hok : (sched fl u s env n).ok t j op) (hpro : Promise fl u s body name t j op) (h : Mover fl u s i t) :
    Mover fl u s i ((sched fl u s env n).after t j op) := by
  refine ⟨found_after.mpr (Or.inl h.found), ?_, ?_⟩
  · rw [moved_after]
    rintro (hmoved | rfl)
    · exact h.not_moved hmoved
    · exact h.others j hj (hpro.of_mv hu hsg).1
  · intro m hm hfound
    rcases found_after.mp hfound with hfound | ⟨rfl, hop, hcomplete⟩
    · exact h.others m hm hfound
    · -- It would have to wait for the move.
      rcases hok.1 hop hcomplete with hmoved | hnone
      · exact h.not_moved hmoved
      · exact hnone i h.found

end

end

/-! ## Making the part -/

/-- How the calls of a file work together. -/
abbrev calls {u s : Name} {n : Nat} {request : Fin n → NetDiskRequest} (hp : Parts u s request) (fl : Flags)
    (env : Env) : Proto World (Fin n) Sys Sys.Res :=
  proto hp.usr_plain hp.sign_plain fl (fun i => (request i).body) (fun i => (request i).fileName) env

/-- The call has made its part, which is `c` so far. -/
def Holds (fl : Flags) (u s : Name) {n : Nat} (i : Fin n) (qs : List Path) (c : Bytes) (t : Calls n) : Prop :=
  Has fl u s i 1 qs t ∧ (Disk.of fl t.state.fs).part u s i = some c

/-- And has it open. -/
def Writes (fl : Flags) (u s : Name) {n : Nat} (i : Fin n) (qs : List Path) (c : Bytes) (fd o : Nat) (t : Calls n) :
    Prop :=
  Holds fl u s i qs c t ∧ t.state.fds fd = some ⟨some (signDir fl u s ++ [toString i]), o⟩

section
variable {fl : Flags} {u s : Name} {n : Nat} {request : Fin n → NetDiskRequest} (env : Env)
  (hp : Parts u s request) {i : Fin n} {k : Nat} {qs : List Path} {t : Calls n}

section
variable {j : Fin n} {op : Sys} (hinv : (calls hp fl env).inv t) (hok : (calls hp fl env).ok t j op)
  (hpro : (calls hp fl env).promise t j op)
include hinv hok hpro

theorem calls_change : Change fl u s t j op ((calls hp fl env).after t j op).state.fs := by
  have hpro' : Promise fl u s (fun i => (request i).body) (fun i => (request i).fileName) t j op := hpro
  exact step_change hp.usr_plain hp.sign_plain hinv hok hpro'

theorem has_other (hj : j ≠ i) (h : Has fl u s i k qs t) : Has fl u s i k qs ((calls hp fl env).after t j op) := by
  have hchange := calls_change env hp hinv hok hpro
  refine ⟨at_other hj h.marked, fun q hq => hchange.dir_kept (h.dirs q hq) ?_, h.kept⟩
  rcases h.kept with hk | hqs
  · exact Or.inl (not_mv h.marked hk hok)
  · exact Or.inr (hqs q hq)

theorem has_same (hop : op ∉ marks fl u s j) (h : Has fl u s j k qs t) :
    Has fl u s j k qs ((calls hp fl env).after t j op) := by
  have hchange := calls_change env hp hinv hok hpro
  have hne : op ≠ mvOp fl u s := by
    rintro rfl
    exact hop (by simp [marks])
  exact ⟨at_same hop h.marked, fun q hq => hchange.dir_kept (h.dirs q hq) (Or.inl hne), h.kept⟩

theorem has_next (hop : (marks fl u s j)[k]? = some op) (h : Has fl u s j k qs t) {qs' : List Path} (hsub : qs' ⊆ qs)
    (hkept : k = 0 ∨ ∀ q ∈ qs', ¬ [u, TMP, s] <+: q) : Has fl u s j (k + 1) qs' ((calls hp fl env).after t j op) := by
  have hchange := calls_change env hp hinv hok hpro
  refine ⟨at_next hp.usr_plain hp.sign_plain hop h.marked, fun q hq => hchange.dir_kept (h.dirs q (hsub hq)) ?_, ?_⟩
  · rcases hkept with rfl | hqs
    · obtain rfl : openOp fl u s j = op := Option.some.inj hop
      exact Or.inl (by simp [openOp, mvOp])
    · exact Or.inr (hqs q hq)
  · exact hkept.imp_left fun h0 => by omega

theorem part_other (hj : j ≠ i) (hk : k ≤ 1) (h : At fl u s i k t) {c : Bytes}
    (hc : (Disk.of fl t.state.fs).part u s i = some c) :
    (Disk.of fl ((calls hp fl env).after t j op).state.fs).part u s i = some c := by
  have hchange := calls_change env hp hinv hok hpro
  rw [hchange.part_kept (not_mv h hk hok) (Or.inl fun he => hj (Fin.ext he).symm)]
  exact hc

theorem fd_other (hj : j ≠ i) (hk : k ≤ 1) (h : At fl u s i k t) {fd o : Nat}
    (hfd : t.state.fds fd = some ⟨some (signDir fl u s ++ [toString i]), o⟩) :
    ((calls hp fl env).after t j op).state.fds fd = some ⟨some (signDir fl u s ++ [toString i]), o⟩ := by
  have hpro' : Promise fl u s (fun i => (request i).body) (fun i => (request i).fileName) t j op := hpro
  have hkept := fd_kept env hp.usr_plain hp.sign_plain hinv hok hpro' (not_mv h hk hok)
    (fun he => hj (Fin.ext he).symm) hfd
  exact hkept.trans hfd

omit hok in
theorem refs_other (hj : j ≠ i) (h : (i, mvOp fl u s) ∈ t.trace) :
    ((calls hp fl env).after t j op).state.db = t.state.db := by
  have hpro' : Promise fl u s (fun i => (request i).body) (fun i => (request i).fileName) t j op := hpro
  exact exec_db env j t.state (hpro'.not_query fun hmem => hj (hinv.mover j i hmem h))

end

theorem has_stable : (calls hp fl env).Stable i (Has fl u s i k qs) :=
  fun _ _ _ hj hinv _ hok hpro h => has_other env hp hinv hok hpro hj h

theorem holds_stable (c : Bytes) : (calls hp fl env).Stable i (Holds fl u s i qs c) := by
  rintro t j op hj hinv _ hok hpro ⟨hhas, hc⟩
  exact ⟨has_other env hp hinv hok hpro hj hhas,
    part_other env hp hinv hok hpro hj le_rfl hhas.marked hc⟩

theorem writes_stable (c : Bytes) (fd o : Nat) : (calls hp fl env).Stable i (Writes fl u s i qs c fd o) := by
  rintro t j op hj hinv hready hok hpro ⟨hholds, hfd⟩
  exact ⟨holds_stable env hp c t j op hj hinv hready hok hpro hholds,
    fd_other env hp hinv hok hpro hj le_rfl hholds.1.marked hfd⟩

theorem Target.made {q : Path} {m : Name} (h : Target u s q m) {fs : FS} (hs : Shape fl fs)
    (hd : fs.node (fl.usrRoot ++ q) = some .dir) :
    (ensureDir fs (fl.usrRoot ++ q ++ [m])).node (fl.usrRoot ++ (q ++ [m])) = some .dir := by
  rw [← List.append_assoc]
  apply ensureDir_made hd
  intro node hnode
  rw [List.append_assoc] at hnode
  have hentry := hs.usr_entry _ _ hnode
  cases h with
  | files => exact hentry (Or.inl rfl)
  | user => exact hentry
  | tmp => exact hentry (Or.inr rfl)
  | sign => exact hentry.2 rfl

theorem mkdir_sat {q : Path} {m : Name} (htarget : Target u s q m) (hmem : q ∈ qs) {path : Bytes}
    (hpath : path = dirText (fl.usrRoot ++ q) ++ m ∨ path = dirText (fl.usrRoot ++ q ++ [m]))
    (ht : Has fl u s i 0 qs t) :
    (calls hp fl env).Sat i (fun rt t => rt = 0 ∧ Has fl u s i 0 ((q ++ [m]) :: qs) t) (FileSys.mkdir path) t := by
  obtain ⟨hq, hm⟩ := htarget.plain fl hp.usr_plain hp.sign_plain
  have hcstr : cStr path = path := by
    rcases hpath with rfl | rfl
    · exact cStr_name hq hm
    · exact cStr_dirText (plain_snoc hq hm)
  unfold FileSys.mkdir
  refine Proto.Sat.once ?_ (has_stable env hp) ht (fun rt => Proto.Stable.const.and (has_stable env hp)) ?_
  · intro err
    split <;> exact ⟨_, rfl⟩
  · intro t hinv _ hok ht
    have hd := ht.dirs q hmem
    have hsum : ¬ Summed fl u s t.trace i := fun h => absurd (ht.marked.summed.mp h) (by omega)
    rw [hcstr] at hok ⊢
    have hpro : (calls hp fl env).promise t i (.mkdir path) := ⟨hsum, q, m, htarget, hd, hpath⟩
    have hhas := has_same env hp hinv hok hpro (not_mem_marks rfl) ht
    refine ⟨hpro, ?_, hhas.marked, ?_, Or.inl (by omega)⟩
    · rcases hpath with rfl | rfl
      · have hrun := (mkdir_spec env i t.state.db hq hm hd t.state rfl rfl).1
        unfold FileSys.mkdir at hrun
        rwa [hcstr] at hrun
      · have hrun := (mkdir_dirText_spec env i t.state.db hq hm hd t.state rfl rfl).1
        unfold FileSys.mkdir at hrun
        rwa [hcstr] at hrun
    · intro q' hq'
      rcases List.mem_cons.mp hq' with rfl | hq'
      · change (mkdir env t.state.fs path).2.node _ = _
        rw [mkdir_fs hq hm hd hpath]
        exact htarget.made hinv.shape hd
      · exact hhas.dirs q' hq'

theorem existDir_sat (ht : Has fl u s i 0 qs t) :
    (calls hp fl env).Sat i (fun stored t => stored = false ∧ Has fl u s i 0 qs t)
      (existDir (fileDir fl (request i))) t := by
  unfold existDir
  refine Proto.Sat.lift (has_stable env hp) ht (fun stored => Proto.Stable.const.and (has_stable env hp)) ?_
  intro t hinv _ hok ht
  have hsum : ¬ Summed fl u s t.trace i := fun h => absurd (ht.marked.summed.mp h) (by omega)
  have hst := (hinv.before (hinv.not_moved hsum)).stored
  have hpro : (calls hp fl env).promise t i (.opendir (cStr (fileDir fl (request i)))) := trivial
  refine ⟨hpro, ?_, has_same env hp hinv hok hpro (not_mem_marks rfl) ht⟩
  have hlink : ∀ target, t.state.fs.node (fl.filesRoot ++ [s]) ≠ some (.link target) := by
    intro target hnode
    have hdir := hinv.shape.store_entry _ _ hnode
    simp [storeEntry] at hdir
  have hrun := (existDir_spec env i t.state.db fl.files_plain hp.sign_plain hinv.shape.files_root hlink
    t.state rfl rfl).1
  unfold fileDir
  rw [hp.sign_eq]
  exact hrun.trans hst

include hp in
theorem filePath_eq (i : Fin n) : filePath fl (request i) = partText fl u s i := by
  rw [filePath_text, hp.usr_eq, hp.sign_eq, hp.index_eq]
  rfl

include hp in
theorem cStr_partText (i : Fin n) : cStr (partText fl u s i) = partText fl u s i :=
  cStr_name (plain_signDir fl hp.usr_plain hp.sign_plain) (plain_toString i)

theorem part_missing (hinv : (calls hp fl env).inv t) (h : At fl u s i 0 t) :
    ¬ Moved fl u s t.trace ∧ t.state.fs.node (signDir fl u s ++ [toString i]) = none := by
  have hnot := hinv.not_moved (mt h.summed.mp (by omega))
  refine ⟨hnot, node_part_none hinv.shape ?_⟩
  by_contra hne
  obtain ⟨j, hj, hopened⟩ := ((hinv.before hnot).part_iff i).mp hne
  rw [Fin.ext hj] at hopened
  exact absurd (h.opened.mp hopened) (by omega)

theorem existFile_sat (hmem : [u, TMP, s] ∈ qs) (ht : Has fl u s i 0 qs t) :
    (calls hp fl env).Sat i (fun exist t => exist = false ∧ Has fl u s i 0 qs t)
      (existFile (filePath fl (request i))) t := by
  unfold existFile
  refine Proto.Sat.lift (has_stable env hp) ht (fun exist => Proto.Stable.const.and (has_stable env hp)) ?_
  intro t hinv _ hok ht
  have hpro : (calls hp fl env).promise t i (.access (cStr (filePath fl (request i)))) := trivial
  refine ⟨hpro, ?_, has_same env hp hinv hok hpro (not_mem_marks rfl) ht⟩
  have hnone := (part_missing env hp hinv ht.marked).2
  have hrun := (existFile_spec env i t.state.db (p := signDir fl u s) (plain_signDir fl hp.usr_plain hp.sign_plain)
    (plain_toString i) (ht.dirs _ hmem) (by simp [hnone]) t.state rfl rfl).1
  rw [filePath_eq hp]
  exact hrun.trans (by simp [hnone])

/-! ## Writing the part -/

theorem open_sat (hmem : [u, TMP, s] ∈ qs) (ht : Has fl u s i 0 qs t) :
    (calls hp fl env).Sat i (fun fd t => ∃ k, fd = some k ∧ Writes fl u s i qs [] k 0 t)
      (sys (.openFile (cStr (filePath fl (request i))))) t := by
  refine Proto.Sat.lift (has_stable env hp) ht
    (fun fd => Proto.Stable.exists fun k => Proto.Stable.const.and (writes_stable env hp _ _ _)) ?_
  intro t hinv _ hok ht
  obtain ⟨_, hnone⟩ := part_missing env hp hinv ht.marked
  have hdir := ht.dirs _ hmem
  rw [filePath_eq hp, cStr_partText hp] at hok ⊢
  have hpro : (calls hp fl env).promise t i (openOp fl u s i) :=
    ⟨rfl, mt ht.marked.summed.mp (by omega), mt ht.marked.opened.mp (by omega), hdir⟩
  have hhas := has_next env hp hinv hok hpro rfl ht (List.Subset.refl qs) (Or.inl rfl)
  have hnew : openFile env t.state.fs (partText fl u s i) = _ :=
    openFile_new (p := signDir fl u s) (plain_signDir fl hp.usr_plain hp.sign_plain) (plain_toString i) hdir hnone
  refine ⟨hpro, t.state.nextFd, ?_, ⟨hhas, ?_⟩, ?_⟩
  · change (exec env i (.openFile _) t.state).1 = _
    simp only [exec, hnew]
  · change (Disk.of fl (exec env i (.openFile _) t.state).2.fs).part u s i = _
    simp only [exec, hnew]
    rw [of_put_signDir]
    simp
  · change (exec env i (.openFile _) t.state).2.fds _ = _
    simp only [exec, hnew]
    exact Function.update_self ..

theorem writeOp_sat {fd : Nat} (ht : Writes fl u s i qs [] fd 0 t) :
    (calls hp fl env).Sat i (fun _ t => ∃ o, Writes fl u s i qs (request i).body fd o t)
      (sys (.write fd (request i).body)) t := by
  refine Proto.Sat.lift (writes_stable env hp _ _ _) ht
    (fun _ => Proto.Stable.exists fun o => writes_stable env hp _ _ _) ?_
  rintro t hinv _ hok ⟨⟨hhas, hpart⟩, hfd⟩
  have hpro : (calls hp fl env).promise t i (.write fd (request i).body) :=
    ⟨mt hhas.marked.summed.mp (by omega), hhas.marked.opened.mpr (by omega), 0, hfd⟩
  have hnode := node_part_some hpart
  have hcan := canPut_of_parent (n := toString i) (t.state.fs.parent_dir _ _ (by rw [hnode]; simp)) (by simp [hnode])
  have hfs : writeFile t.state.fs ⟨some (signDir fl u s ++ [toString i]), 0⟩ (request i).body =
      t.state.fs.put _ (.file (request i).body) hcan := by
    simp only [writeFile, hnode]
    rw [dif_pos hcan]
    simp [overwrite]
  refine ⟨hpro, 0 + (request i).body.length,
    ⟨has_same env hp hinv hok hpro (not_mem_marks rfl) hhas, ?_⟩, ?_⟩
  · change (Disk.of fl (exec env i (.write fd _) t.state).2.fs).part u s i = _
    simp only [exec, hfd, hfs]
    rw [of_put_signDir]
    simp
  · change (exec env i (.write fd _) t.state).2.fds fd = _
    simp only [exec, hfd]
    exact Function.update_self ..

theorem close_sat {fd o : Nat} {c : Bytes} (ht : Writes fl u s i qs c fd o t) :
    (calls hp fl env).Sat i (fun _ t => Holds fl u s i qs c t) (sys (.close fd)) t := by
  refine Proto.Sat.lift (writes_stable env hp _ _ _) ht (fun _ => holds_stable env hp _) ?_
  rintro t hinv _ hok ⟨⟨hhas, hpart⟩, hfd⟩
  have hpro : (calls hp fl env).promise t i (.close fd) := ⟨o, hfd⟩
  exact ⟨hpro, has_same env hp hinv hok hpro (not_mem_marks rfl) hhas, hpart⟩

theorem writeLoop_short (fd : Nat) (str : Bytes) {len : Nat} (hlen : len ≤ writeLen) (fuel : Nat) :
    writeLoop fd str fuel len = .pure len := by
  cases fuel with
  | zero => rfl
  | succ fuel =>
    unfold writeLoop
    rw [if_neg (by omega)]
    rfl

theorem write_sat (hmem : [u, TMP, s] ∈ qs) (hinv : (calls hp fl env).inv t) (ht : Has fl u s i 0 qs t) :
    (calls hp fl env).Sat i (fun rt t => rt = 0 ∧ Holds fl u s i qs (request i).body t)
      (FileSys.write (request i).body (filePath fl (request i))) t := by
  unfold FileSys.write
  rw [cStr_eq_self (hp.body_nul i)]
  refine Proto.Sat.bind (open_sat env hp hmem ht) hinv ?_
  rintro _ t hinv ⟨fd, rfl, ht⟩
  dsimp only
  have hlen := hp.body_length i
  rw [intLen_eq (by unfold writeLen at hlen; omega), writeLoop_short fd _ hlen, pure_bind', List.take_length]
  refine Proto.Sat.bind (writeOp_sat env hp ht) hinv ?_
  rintro _ t hinv ⟨o, ht⟩
  refine Proto.Sat.bind (close_sat env hp ht) hinv ?_
  intro _ t _ ht
  exact Proto.Sat.pure (holds_stable env hp _) ht fun t _ ht => ⟨rfl, ht⟩

end

end NetDisk.Parallel
