import NetDisk.Machine

/-!
# The machine on plain paths

A path text built by `dirText` from plain names, whose directory exists, is found where it says.
One lemma per operation then says what it does there.
-/

namespace NetDisk.Machine

variable (env : Env) (fs : FS) (p : Path) (n : Name)

/-! ## Finding a path -/

variable {env fs p n} in
theorem locate_single (hp : ∀ m ∈ p, Plain m) (hn : Single n) (hd : fs.node p = some .dir) :
    locate env fs (dirText p ++ n) = .ok (p ++ [n]) := by
  have hne : dirText p ++ n ≠ [] := by simp [dirText]
  rw [locate, if_neg hne, startDir, if_pos (isAbsolute_dirText p n), pathComps_single p n hp hn]
  exact fs.locate_dir readPath maxLinks p n hd

section
variable {env fs p n} (hp : ∀ m ∈ p, Plain m) (hn : Plain n)
include hp hn

theorem locate_name (hd : fs.node p = some .dir) : locate env fs (dirText p ++ n) = .ok (p ++ [n]) :=
  locate_single hp hn.single hd

theorem locate_missing {m : Name} (hd : fs.node p = some .dir) (hnone : fs.node (p ++ [n]) = none)
    (hm : Plain m) : locate env fs (dirText (p ++ [n]) ++ m) = .error .enoent := by
  have hpn : ∀ k ∈ p ++ [n], Plain k := by
    intro k hk
    rcases List.mem_append.mp hk with hk | hk
    · exact hp k hk
    · rw [List.mem_singleton.mp hk]; exact hn
  have hne : dirText (p ++ [n]) ++ m ≠ [] := by simp [dirText]
  rw [locate, if_neg hne, startDir, if_pos (isAbsolute_dirText _ m), pathComps_name _ m hpn hm]
  exact fs.locate_missing readPath maxLinks p n m hd hnone

theorem resolve_name (hd : fs.node p = some .dir) (hl : ∀ target, fs.node (p ++ [n]) ≠ some (.link target)) :
    resolve env fs (dirText p ++ n) = .ok (p ++ [n]) := by
  have hne : dirText p ++ n ≠ [] := by simp [dirText]
  rw [resolve, if_neg hne, startDir, if_pos (isAbsolute_dirText p n), pathComps_name p n hp hn,
    finalSlash_name p n hn, List.append_nil]
  exact fs.walk_leaf readPath maxLinks p n hd hl

end

theorem resolve_dir {env : Env} {fs : FS} {p : Path} (hp : ∀ m ∈ p, Plain m) (hd : fs.node p = some .dir) :
    resolve env fs (dirText p) = .ok p := by
  have hne : dirText p ≠ [] := by simp [dirText]
  have habs := isAbsolute_dirText p []
  rw [List.append_nil] at habs
  rw [resolve, if_neg hne, startDir, if_pos habs, pathComps_dirText p hp, finalSlash_dirText]
  exact fs.walk_dir readPath maxLinks p [.here] (Or.inr rfl) hd

theorem locate_dirText (hp : ∀ m ∈ p, Plain m) (hn : Plain n) :
    locate env fs (dirText (p ++ [n])) = locate env fs (dirText p ++ n) := by
  have hpn : ∀ k ∈ p ++ [n], Plain k := by
    intro k hk
    rcases List.mem_append.mp hk with hk | hk
    · exact hp k hk
    · rw [List.mem_singleton.mp hk]; exact hn
  have habs := isAbsolute_dirText (p ++ [n]) []
  rw [List.append_nil] at habs
  have h1 : dirText (p ++ [n]) ≠ [] := by simp [dirText]
  have h2 : dirText p ++ n ≠ [] := by simp [dirText]
  rw [locate, locate, if_neg h1, if_neg h2, startDir, startDir, if_pos habs,
    if_pos (isAbsolute_dirText p n), pathComps_dirText _ hpn, pathComps_name p n hp hn]

/-! ## Entries that are made when they are missing -/

/-- An entry at `p` where nothing was. -/
def ensure (fs : FS) (p : Path) (m : Node Bytes Bytes) : FS :=
  if h : fs.node p = none ∧ fs.CanPut p then fs.put p m h.2 else fs

theorem ensure_new {fs : FS} {p : Path} (hn : fs.node p = none) (hc : fs.CanPut p) (m : Node Bytes Bytes) :
    ensure fs p m = fs.put p m hc := dif_pos ⟨hn, hc⟩

theorem ensure_old {fs : FS} {p : Path} (hn : fs.node p ≠ none) (m : Node Bytes Bytes) : ensure fs p m = fs :=
  dif_neg fun h => hn h.1

theorem ensure_of_ne {fs : FS} {p q : Path} (hq : q ≠ p) (m : Node Bytes Bytes) : (ensure fs p m).node q = fs.node q := by
  unfold ensure
  split
  · rw [FileTree.node_put, if_neg hq]
  · rfl

def ensureDir (fs : FS) (p : Path) : FS := ensure fs p .dir

theorem canPut_of_parent {fs : FS} {p : Path} {n : Name} (hd : fs.node p = some .dir)
    (hn : fs.node (p ++ [n]) ≠ some .dir) : fs.CanPut (p ++ [n]) :=
  ⟨by simp, by rwa [List.dropLast_concat], hn⟩

theorem node_ensureDir {fs : FS} {p : Path} {n : Name} (hd : fs.node p = some .dir) (q : Path) :
    (ensureDir fs (p ++ [n])).node q =
      if q = p ++ [n] ∧ fs.node (p ++ [n]) = none then some .dir else fs.node q := by
  unfold ensureDir
  by_cases hn : fs.node (p ++ [n]) = none
  · have hc := canPut_of_parent hd (n := n) (by simp [hn])
    rw [ensure_new hn hc, FileTree.node_put]
    simp [hn]
  · rw [ensure_old hn]
    simp [hn]

variable {env fs p n} in
theorem mkdir_single (hp : ∀ m ∈ p, Plain m) (hn : Single n) (hd : fs.node p = some .dir) :
    mkdir env fs (dirText p ++ n) =
      (if fs.node (p ++ [n]) = none then none else some .eexist, ensureDir fs (p ++ [n])) := by
  simp only [mkdir, locate_single hp hn hd, ensureDir]
  by_cases hnone : fs.node (p ++ [n]) = none
  · have hc := canPut_of_parent hd (n := n) (by simp [hnone])
    rw [dif_pos ⟨hc, hnone⟩, ensure_new hnone hc, if_pos hnone]
  · rw [dif_neg (fun h => hnone h.2), ensure_old hnone, if_neg hnone]

section
variable {env fs p n} (hp : ∀ m ∈ p, Plain m) (hn : Plain n)
include hp hn

theorem mkdir_name (hd : fs.node p = some .dir) :
    mkdir env fs (dirText p ++ n) =
      (if fs.node (p ++ [n]) = none then none else some .eexist, ensureDir fs (p ++ [n])) :=
  mkdir_single hp hn.single hd

theorem mkdir_missing {m : Name} (hd : fs.node p = some .dir) (hnone : fs.node (p ++ [n]) = none)
    (hm : Plain m) : mkdir env fs (dirText (p ++ [n]) ++ m) = (some .enoent, fs) := by
  simp only [mkdir, locate_missing hp hn hd hnone hm]

theorem mkdir_dirText (hd : fs.node p = some .dir) :
    mkdir env fs (dirText (p ++ [n])) =
      (if fs.node (p ++ [n]) = none then none else some .eexist, ensureDir fs (p ++ [n])) := by
  have h := @mkdir_name env fs p n hp hn hd
  rwa [mkdir, ← locate_dirText env fs p n hp hn] at h

theorem isDir_name (hd : fs.node p = some .dir) (hl : ∀ target, fs.node (p ++ [n]) ≠ some (.link target)) :
    isDir env fs (dirText p ++ n) = if fs.node (p ++ [n]) = some .dir then some (p ++ [n]) else none := by
  simp only [isDir, resolve_name hp hn hd hl]

theorem access_name (hd : fs.node p = some .dir) (hl : ∀ target, fs.node (p ++ [n]) ≠ some (.link target)) :
    access env fs (dirText p ++ n) = decide (fs.node (p ++ [n]) ≠ none) := by
  simp only [access, resolve_name hp hn hd hl]

/-! ## Files -/

theorem openFile_new (hd : fs.node p = some .dir) (hnone : fs.node (p ++ [n]) = none) :
    openFile env fs (dirText p ++ n) =
      some (p ++ [n], fs.put (p ++ [n]) (.file []) (canPut_of_parent hd (by simp [hnone]))) := by
  simp only [openFile, resolve_name hp hn hd (by simp [hnone]), hnone]
  rw [dif_pos]

theorem remove_file {c : Bytes} (hd : fs.node p = some .dir) (hc : fs.node (p ++ [n]) = some (.file c)) :
    remove env fs (dirText p ++ n) =
      (none, some (p ++ [n]), fs.erase (p ++ [n]) (fs.canErase_of_not_dir (by simp [hc]))) := by
  have hne : fs.node (p ++ [n]) ≠ none := by simp [hc]
  simp only [remove, locate_name hp hn hd, if_neg hne]
  rw [dif_pos]

theorem md5sum_file {c : Bytes} (hd : fs.node p = some .dir) (hc : fs.node (p ++ [n]) = some (.file c)) :
    md5sum env fs (dirText p ++ n) = Md5.hexDigest c ++ ascii "  " ++ (dirText p ++ n) ++ ascii "\n" := by
  simp only [md5sum, resolve_name hp hn hd (by simp [hc]), hc]

theorem symlink_new {target : Bytes} (ht : target ≠ []) (hd : fs.node p = some .dir) (hnone : fs.node (p ++ [n]) = none) :
    symlink env fs target (dirText p ++ n) =
      (none, fs.put (p ++ [n]) (.link target) (canPut_of_parent hd (by simp [hnone]))) := by
  have hc := canPut_of_parent hd (n := n) (by simp [hnone])
  simp only [symlink, if_neg ht, locate_name hp hn hd]
  rw [dif_pos ⟨hc, hnone⟩, if_pos (finalSlash_name p n hn)]

theorem symlink_old {target : Bytes} (ht : target ≠ []) (hd : fs.node p = some .dir) (hsome : fs.node (p ++ [n]) ≠ none) :
    symlink env fs target (dirText p ++ n) = (some .eexist, fs) := by
  simp only [symlink, if_neg ht, locate_name hp hn hd]
  rw [dif_neg fun h => hsome h.2]

end

theorem readdir_dir {env : Env} {fs : FS} {p : Path} {n : Name} (hp : ∀ m ∈ p, Plain m) (hn : Plain n)
    (hd : fs.node p = some .dir) (hdn : fs.node (p ++ [n]) = some .dir) :
    readdir env fs (dirText p ++ n) = some (insert dot (insert dotdot (fs.entries (p ++ [n])))) := by
  rw [readdir, isDir_name hp hn hd (by simp [hdn]), if_pos hdn]
  rfl

/-! ## Links by any path -/

theorem canPut_of_locate {env : Env} {fs : FS} {text : Bytes} {p : Path} (hloc : locate env fs text = .ok p)
    (hp : fs.node p ≠ some .dir) : fs.CanPut p := by
  unfold locate at hloc
  split at hloc
  · cases hloc
  · obtain ⟨d, n, rfl, hd⟩ := FileTree.parent_of_locate hloc
    exact canPut_of_parent hd hp

section
variable (env : Env) (target path : Bytes)

/-- A new link, and nothing else. -/
def NewLink (fs fs' : FS) : Prop :=
  ∃ p, locate env fs path = .ok p ∧ fs.node p = none ∧ ∀ q, fs'.node q = if q = p then some (.link target) else fs.node q

/-- Something is there, which may also be a directory by the way it is named. -/
def Taken (fs : FS) : Prop :=
  (∃ p, locate env fs path = .ok p ∧ fs.node p ≠ none) ∨ locate env fs path = .error .eexist

theorem symlink_cases (fs : FS) :
    ((symlink env fs target path).1 = none ∧ NewLink env target path fs (symlink env fs target path).2) ∨
    ((symlink env fs target path).1 = some .eexist ∧ Taken env path fs ∧ (symlink env fs target path).2 = fs) ∨
    ∃ e, (symlink env fs target path).1 = some e ∧ e ≠ .eexist ∧ (symlink env fs target path).2 = fs := by
  unfold symlink
  by_cases hne : target = []
  · rw [if_pos hne]
    exact Or.inr (Or.inr ⟨.enoent, rfl, by decide, rfl⟩)
  rw [if_neg hne]
  cases hloc : locate env fs path with
  | error e =>
    by_cases he : e = .eexist
    · subst he
      exact Or.inr (Or.inl ⟨rfl, Or.inr hloc, rfl⟩)
    · exact Or.inr (Or.inr ⟨e, rfl, he, rfl⟩)
  | ok p =>
    dsimp only
    by_cases hcan : fs.CanPut p ∧ fs.node p = none
    · rw [dif_pos hcan]
      by_cases hslash : finalSlash path = []
      · rw [if_pos hslash]
        exact Or.inl ⟨rfl, p, hloc, hcan.2, fun q => rfl⟩
      · rw [if_neg hslash]
        exact Or.inr (Or.inr ⟨.enoent, rfl, by decide, rfl⟩)
    · rw [dif_neg hcan]
      refine Or.inr (Or.inl ⟨rfl, Or.inl ⟨p, hloc, fun hnone => hcan ⟨?_, hnone⟩⟩, rfl⟩)
      exact canPut_of_locate hloc (by simp [hnone])

end

/-! ## Shell commands -/

/-- No byte that the shell does more with than split at. -/
def ShellSafe (text : Bytes) : Prop := ∀ b ∈ text, b ≠ 0 ∧ b ≠ space ∧ b ∉ shellSpecial

instance (text : Bytes) : Decidable (ShellSafe text) := inferInstanceAs (Decidable (∀ b ∈ text, _))

theorem shellSafe_slash : (slash : Byte) ≠ 0 ∧ slash ≠ space ∧ slash ∉ shellSpecial := by decide

theorem Plain.shellSafe {n : Name} (h : Plain n) : ShellSafe n :=
  fun b hb => ⟨(h.2.2.2 b hb).1, (h.2.2.2 b hb).2.2⟩

theorem shellSafe_append {a b : Bytes} (ha : ShellSafe a) (hb : ShellSafe b) : ShellSafe (a ++ b) := by
  intro c hc
  rcases List.mem_append.mp hc with hc | hc
  · exact ha c hc
  · exact hb c hc

theorem shellSafe_dirText {p : Path} (hp : ∀ m ∈ p, Plain m) : ShellSafe (dirText p) := by
  intro b hb
  simp only [dirText, List.mem_cons, List.mem_flatMap, List.mem_append, List.not_mem_nil, or_false] at hb
  rcases hb with rfl | ⟨m, hm, hb | rfl⟩
  · exact shellSafe_slash
  · exact Plain.shellSafe (hp m hm) b hb
  · exact shellSafe_slash

theorem ShellSafe.cStr {text : Bytes} (h : ShellSafe text) : cStr text = text :=
  cStr_eq_self fun h0 => (h 0 h0).1 rfl

theorem ShellSafe.splitOn {text : Bytes} (h : ShellSafe text) : text.splitOn space = [text] :=
  List.splitOn_eq_singleton fun hs => (h space hs).2.1 rfl

theorem dirText_no_dash (p : Path) (rest : Bytes) : (dirText p ++ rest).head? ≠ some (ch '-') := by
  simp [dirText, slash, ch]

theorem shWords_two {cmd a : Bytes} (hcmd : ShellSafe cmd) (hne : cmd ≠ []) (ha : ShellSafe a) (hane : a ≠ [])
    (hdash : a.head? ≠ some (ch '-')) : shWords (cmd ++ [space] ++ a) = some [cmd, a] := by
  have hsplit : (cmd ++ [space] ++ a).splitOn space = [cmd, a] := by
    rw [List.append_assoc, List.singleton_append, List.splitOn_append_cons_self, hcmd.splitOn, ha.splitOn]
    rfl
  have hwords : [cmd, a].filter (· ≠ []) = [cmd, a] := by simp [hne, hane]
  simp only [shWords, hsplit, hwords]
  rw [if_pos]
  refine ⟨?_, by simpa using hdash⟩
  rw [List.all_eq_true]
  intro b hb
  apply decide_eq_true
  simp only [List.mem_append, List.mem_singleton] at hb
  rcases hb with (hb | rfl) | hb
  · exact (hcmd b hb).2.2
  · decide
  · exact (ha b hb).2.2

theorem shWords_three {cmd a b : Bytes} (hcmd : ShellSafe cmd) (hne : cmd ≠ []) (ha : ShellSafe a) (hane : a ≠ [])
    (hb : ShellSafe b) (hbne : b ≠ []) (hda : a.head? ≠ some (ch '-')) (hdb : b.head? ≠ some (ch '-')) :
    shWords (cmd ++ [space] ++ a ++ [space] ++ b) = some [cmd, a, b] := by
  have hsplit : (cmd ++ [space] ++ a ++ [space] ++ b).splitOn space = [cmd, a, b] := by
    rw [show cmd ++ [space] ++ a ++ [space] ++ b = cmd ++ space :: (a ++ space :: b) by simp,
      List.splitOn_append_cons_self, List.splitOn_append_cons_self, hcmd.splitOn, ha.splitOn, hb.splitOn]
    rfl
  have hwords : [cmd, a, b].filter (· ≠ []) = [cmd, a, b] := by simp [hne, hane, hbne]
  simp only [shWords, hsplit, hwords]
  rw [if_pos]
  refine ⟨?_, by simp [hda, hdb]⟩
  rw [List.all_eq_true]
  intro c hc
  apply decide_eq_true
  simp only [List.mem_append, List.mem_singleton] at hc
  rcases hc with (((hc | rfl) | hc) | rfl) | hc
  · exact (hcmd c hc).2.2
  · decide
  · exact (ha c hc).2.2
  · decide
  · exact (hb c hc).2.2

theorem mv_dir (env : Env) {w : World} {p d : Path} {n : Name} (hp : ∀ m ∈ p, Plain m) (hn : Plain n)
    (hd : ∀ m ∈ d, Plain m) (hpd : w.fs.node p = some .dir) (hpn : w.fs.node (p ++ [n]) = some .dir)
    (hdd : w.fs.node d = some .dir) (hnone : w.fs.node (d ++ [n]) = none)
    (h : w.fs.CanMove (p ++ [n]) (d ++ [n])) :
    mv env w (dirText p ++ n) (dirText d) =
      { w with fs := w.fs.move (p ++ [n]) (d ++ [n]) h, fds := moveFds (p ++ [n]) (d ++ [n]) w.fds } := by
  have htarget : mvTarget env w.fs (p ++ [n]) (dirText d) = .ok (d ++ [n]) := by
    simp only [mvTarget, isDir, resolve_dir hd hdd, hdd, if_true, List.getLast?_concat]
  have hpaths : mvPaths env w.fs (dirText p ++ n) (dirText d) = some (p ++ [n], d ++ [n]) := by
    have hne : w.fs.node (p ++ [n]) ≠ none := by simp [hpn]
    have hrep : mvReplaces w.fs (p ++ [n]) (d ++ [n]) := Or.inl hnone
    simp only [mvPaths, locate_name hp hn hpd, if_neg hne, htarget, if_pos hrep]
  simp only [mv, hpaths]
  rw [dif_pos h]

/-! ## What an operation leaves -/

section
variable (tid : Nat) (op : Sys) (w : World)

omit tid op in
theorem shell_leaves (cmd : Bytes) : ∃ fs fds, (shell env w cmd).2 = { w with fs := fs, fds := fds } ∧
    ∀ k, fds k ≠ none → w.fds k ≠ none := by
  have hother : ∃ fs fds, (shell.other env w cmd).2 = { w with fs := fs, fds := fds } ∧
      ∀ k, fds k ≠ none → w.fds k ≠ none := ⟨_, w.fds, rfl, fun _ h => h⟩
  unfold shell
  split
  · split
    · exact ⟨w.fs, w.fds, rfl, fun _ h => h⟩
    · exact hother
  · rename_i c src dst _
    split
    · unfold mv
      cases mvPaths env w.fs src dst with
      | none => exact ⟨w.fs, w.fds, rfl, fun _ h => h⟩
      | some sd =>
        dsimp only
        split
        · refine ⟨_, _, rfl, fun k h => ?_⟩
          simpa [moveFds] using h
        · exact ⟨w.fs, w.fds, rfl, fun _ h => h⟩
    · exact hother
  · exact hother

theorem exec_fresh (h : ∀ k, w.fds k ≠ none → k < w.nextFd) :
    ∀ k, (exec env tid op w).2.fds k ≠ none → k < (exec env tid op w).2.nextFd := by
  intro k
  cases op with
  | openFile path =>
    simp only [exec]
    split
    · exact h k
    · by_cases hk : k = w.nextFd
      · rw [hk]
        exact fun _ => Nat.lt_succ_self _
      · dsimp only
        rw [Function.update_of_ne hk]
        exact fun hne => Nat.lt_succ_of_lt (h k hne)
  | write fd buf =>
    simp only [exec]
    split
    · exact h k
    · rename_i f hf
      by_cases hk : k = fd
      · rw [hk]
        exact fun _ => h fd (by simp [hf])
      · dsimp only
        rw [Function.update_of_ne hk]
        exact h k
  | close fd =>
    by_cases hk : k = fd
    · simp [exec, hk]
    · simp only [exec, Function.update_of_ne hk]
      exact h k
  | remove path =>
    simp only [exec]
    split
    · exact h k
    · exact fun hne => h k (by simpa using hne)
  | shell cmd =>
    obtain ⟨fs, fds, hw, hfds⟩ := shell_leaves env w cmd
    simp only [exec, hw]
    exact fun hne => h k (hfds k hne)
  | query cmd =>
    simp only [exec]
    split <;> exact h k
  | _ => exact h k

variable {op} in
theorem exec_db (h : ∀ cmd, op ≠ .query cmd) : (exec env tid op w).2.db = w.db := by
  cases op with
  | query cmd => exact absurd rfl (h cmd)
  | openFile path | write fd buf | remove path =>
    simp only [exec]
    split <;> rfl
  | shell cmd =>
    obtain ⟨fs, fds, hw, _⟩ := shell_leaves env w cmd
    simp only [exec, hw]
  | _ => rfl

theorem exec_pending {tid' : Nat} (h : tid' ≠ tid) : (exec env tid op w).2.pending tid' = w.pending tid' := by
  cases op with
  | query cmd =>
    simp only [exec]
    split
    · rfl
    · exact Function.update_of_ne h _ _
  | fetch => exact Function.update_of_ne h _ _
  | openFile path | write fd buf | remove path =>
    simp only [exec]
    split <;> rfl
  | shell cmd =>
    obtain ⟨fs, fds, hw, _⟩ := shell_leaves env w cmd
    simp only [exec, hw]
  | _ => rfl

/-! ## The mutex -/

variable {op} in
theorem exec_locked (hl : op ≠ .lock) (hu : op ≠ .unlock) : (exec env tid op w).2.locked = w.locked := by
  cases op with
  | lock => exact absurd rfl hl
  | unlock => exact absurd rfl hu
  | openFile path | write fd buf | remove path | query cmd =>
    simp only [exec]
    split <;> rfl
  | shell cmd =>
    obtain ⟨fs, fds, hw, _⟩ := shell_leaves env w cmd
    simp only [exec, hw]
  | _ => rfl

variable {op w} in
theorem ready_other (h : op ≠ .lock) : ready op w = true := by
  cases op with
  | lock => exact absurd rfl h
  | _ => rfl

end

end NetDisk.Machine
