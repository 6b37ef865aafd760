import NetDisk.Confine

/-!
# `FileSys`, whatever is there

What each function of `FileSys` does on a path with no link on its way, with or without a directory above it.
-/

namespace NetDisk

open Machine

section
variable (env : Env) {fs : FS} {p : Path} {n : Name} (hp : ∀ m ∈ p, Plain m) (hn : Plain n) (hl : NoLinks fs p)
include hp hn hl

theorem locate_off (hd : fs.node p ≠ some .dir) :
    ∃ e, locate env fs (dirText p ++ n) = .error e ∧ e ≠ .eexist := by
  have hne : dirText p ++ n ≠ [] := by simp [dirText]
  rw [locate, if_neg hne, startDir, if_pos (isAbsolute_dirText p n), pathComps_name p n hp hn]
  exact fs.locate_off readPath maxLinks p n hl hd

end

theorem resolve_cases (env : Env) {fs : FS} {p : Path} {n : Name} (hp : ∀ m ∈ p, Plain m) (hn : Plain n)
    (hl : NoLinks fs (p ++ [n])) : resolve env fs (dirText p ++ n) = .ok (p ++ [n]) ∨
      (∃ e, resolve env fs (dirText p ++ n) = .error e) ∧ fs.node (p ++ [n]) = none ∧ ¬ fs.CanPut (p ++ [n]) := by
  by_cases hd : fs.node p = some .dir
  · exact Or.inl (resolve_name hp hn hd (hl _ List.prefix_rfl))
  · refine (resolve_clear env hp hn hl).imp_right fun herr => ⟨herr, fs.none_below hd (by simp), fun hcan => hd ?_⟩
    have hparent := hcan.2.1
    rwa [List.dropLast_concat] at hparent

theorem ensure_off {fs : FS} {p : Path} {n : Name} (hd : fs.node p ≠ some .dir) (m : Node Bytes Bytes) :
    ensure fs (p ++ [n]) m = fs := by
  refine dif_neg fun h => hd ?_
  have hparent := h.2.2.1
  rwa [List.dropLast_concat] at hparent

/-- `remove`, where it can be done. -/
def eraseOld (fs : FS) (p : Path) : FS := if h : fs.node p ≠ none ∧ fs.CanErase p then fs.erase p h.2 else fs

/-- The bytes of a file; nothing for anything else. -/
def bytesAt (fs : FS) (p : Path) : Bytes := (fileAt fs p).getD []

/-- `write`, where it can be done. -/
def writeOver (fs : FS) (p : Path) (buf : Bytes) : FS :=
  if h : fs.CanPut p then fs.put p (.file (overlay (bytesAt fs p) buf)) h else fs

/-- `mv`, where it can be done. -/
def moveOver (fs : FS) (src dst : Path) : FS :=
  if h : (fs.node src ≠ none ∧ mvReplaces fs src dst) ∧ fs.CanMove src dst then fs.move src dst h.2 else fs

theorem mv_clear (env : Env) {w : World} {p d : Path} {n : Name} (hp : ∀ m ∈ p, Plain m) (hn : Plain n)
    (hl : NoLinks w.fs p) (hd : ∀ m ∈ d, Plain m) (hdd : w.fs.node d = some .dir) :
    (mv env w (dirText p ++ n) (dirText d)).fs = moveOver w.fs (p ++ [n]) (d ++ [n]) ∧
      (mv env w (dirText p ++ n) (dirText d)).db = w.db := by
  have htarget : mvTarget env w.fs (p ++ [n]) (dirText d) = .ok (d ++ [n]) := by
    simp only [mvTarget, isDir, resolve_dir hd hdd, hdd, if_true, List.getLast?_concat]
  unfold mv mvPaths moveOver
  by_cases hpd : w.fs.node p = some .dir
  · rw [locate_name hp hn hpd]
    dsimp only
    by_cases hsrc : w.fs.node (p ++ [n]) = none
    · rw [if_pos hsrc, dif_neg fun h => h.1.1 hsrc]
      exact ⟨rfl, rfl⟩
    · rw [if_neg hsrc, htarget]
      dsimp only
      by_cases hrep : mvReplaces w.fs (p ++ [n]) (d ++ [n])
      · rw [if_pos hrep]
        by_cases hcan : w.fs.CanMove (p ++ [n]) (d ++ [n])
        · simp only [dif_pos hcan]
          rw [dif_pos ⟨⟨hsrc, hrep⟩, hcan⟩]
          exact ⟨rfl, trivial⟩
        · simp only [dif_neg hcan]
          rw [dif_neg fun h => hcan h.2]
          exact ⟨rfl, trivial⟩
      · rw [if_neg hrep, dif_neg fun h => hrep h.1.2]
        exact ⟨rfl, rfl⟩
  · obtain ⟨e, hloc, -⟩ := locate_off env hp hn hl hpd
    rw [hloc, dif_neg fun h => h.1.1 (w.fs.none_below hpd (by simp))]
    exact ⟨rfl, rfl⟩

namespace FileSys

variable (env : Env) (tid : Nat) (db : DB) {fs : FS} {p : Path} {n : Name} (hp : ∀ m ∈ p, Plain m) (hn : Plain n)

section
variable (hl : NoLinks fs p)
include hp hn hl

theorem mkdir_clear : Ends env tid (mkdir (dirText p ++ n)) fs db (if fs.node p = some .dir then 0 else -1)
    (ensureDir fs (p ++ [n])) db := by
  by_cases hd : fs.node p = some .dir
  · rw [if_pos hd]
    exact mkdir_spec env tid db hp hn hd
  · obtain ⟨e, hloc, hne⟩ := locate_off env hp hn hl hd
    rw [if_neg hd, ensureDir, ensure_off hd]
    refine Ends.sys_bind (some e) fs ?_ ?_
    · intro w hfs hdb
      simp only [exec, Machine.mkdir, cStr_name hp hn, hfs, hloc]
      exact ⟨trivial, trivial, hdb⟩
    · rw [if_pos ⟨by simp, by simpa using hne⟩]
      exact Ends.pure _

theorem link_clear {target : Bytes} (ht : cStr target = target) (ht0 : target ≠ []) :
    Ends env tid (link target (dirText p ++ n)) fs db (if fs.node p = some .dir then 0 else -1)
      (UploadRpc.ensureLink fs (p ++ [n]) target) db := by
  by_cases hd : fs.node p = some .dir
  · rw [if_pos hd]
    exact UploadRpc.link_ensures env tid db hp hn ht ht0 hd
  · obtain ⟨e, hloc, hne⟩ := locate_off env hp hn hl hd
    rw [if_neg hd, UploadRpc.ensureLink, ensure_off hd]
    refine Ends.sys_bind (some e) fs ?_ ?_
    · intro w hfs hdb
      simp only [exec, Machine.symlink, cStr_name hp hn, ht, if_neg ht0, hfs, hloc]
      exact ⟨trivial, trivial, hdb⟩
    · rw [if_pos ⟨by simp, by simpa using hne⟩]
      exact Ends.pure _

theorem mkdir_slash_clear : Ends env tid (mkdir (dirText (p ++ [n]))) fs db (if fs.node p = some .dir then 0 else -1)
    (ensureDir fs (p ++ [n])) db := by
  have hmkdir := mkdir_clear env tid db hp hn hl
  have hsame : ∀ w, exec env tid (.mkdir (cStr (dirText (p ++ [n])))) w = exec env tid (.mkdir (cStr (dirText p ++ n))) w := by
    intro w
    rw [cStr_dirText (UploadRpc.plain_snoc hp hn), cStr_name hp hn]
    simp only [exec, Machine.mkdir, locate_dirText env w.fs p n hp hn]
  intro w hfs hdb
  have h := hmkdir w hfs hdb
  unfold mkdir at h ⊢
  rw [sys, Prog.lift_bind, Prog.run_call] at h ⊢
  rw [hsame]
  exact h

theorem deleteFile_clear : Ends env tid (deleteFile (dirText p ++ n)) fs db
    (if fs.node (p ++ [n]) ≠ none ∧ fs.CanErase (p ++ [n]) then 0 else -1) (eraseOld fs (p ++ [n])) db := by
  unfold eraseOld
  by_cases hcan : fs.node (p ++ [n]) ≠ none ∧ fs.CanErase (p ++ [n])
  · rw [if_pos hcan, dif_pos hcan]
    have hremove : remove env fs (dirText p ++ n) = (none, some (p ++ [n]), fs.erase (p ++ [n]) hcan.2) := by
      simp only [remove, locate_name hp hn (fs.dir_above p [n] (by simp) hcan.1)]
      rw [if_neg hcan.1, dif_pos hcan.2]
    refine Ends.sys_bind none (fs.erase (p ++ [n]) hcan.2) ?_ (Ends.pure 0)
    intro w hfs hdb
    simp only [exec, cStr_name hp hn, hfs, hremove]
    exact ⟨trivial, trivial, hdb⟩
  · rw [if_neg hcan, dif_neg hcan]
    obtain ⟨e, hremove⟩ : ∃ e, remove env fs (dirText p ++ n) = (some e, none, fs) := by
      unfold remove
      by_cases hd : fs.node p = some .dir
      · rw [locate_name hp hn hd]
        by_cases hnone : fs.node (p ++ [n]) = none
        · exact ⟨_, if_pos hnone⟩
        · dsimp only
          rw [if_neg hnone, dif_neg fun h => hcan ⟨hnone, h⟩]
          exact ⟨_, rfl⟩
      · obtain ⟨e, hloc, -⟩ := locate_off env hp hn hl hd
        rw [hloc]
        exact ⟨e, rfl⟩
    refine Ends.sys_bind (some e) fs ?_ (Ends.pure _)
    intro w hfs hdb
    simp only [exec, cStr_name hp hn, hfs, hremove]
    exact ⟨trivial, trivial, hdb⟩

end

section
variable (hl : NoLinks fs (p ++ [n]))
include hp hn hl

theorem existDir_clear : Ends env tid (existDir (dirText p ++ n)) fs db
    (decide (fs.node (p ++ [n]) = some .dir)) fs db := by
  refine Ends.sys fun w hfs hdb => ⟨?_, hfs, hdb⟩
  simp only [exec, cStr_name hp hn, hfs, isDir]
  rcases resolve_cases env hp hn hl with h | ⟨⟨e, h⟩, hnone, -⟩
  · by_cases hd : fs.node (p ++ [n]) = some .dir <;> simp [h, hd]
  · simp [h, hnone]

theorem existFile_clear : Ends env tid (existFile (dirText p ++ n)) fs db
    (decide (fs.node (p ++ [n]) ≠ none)) fs db := by
  refine Ends.sys fun w hfs hdb => ⟨?_, hfs, hdb⟩
  simp only [exec, cStr_name hp hn, hfs, access]
  rcases resolve_cases env hp hn hl with h | ⟨⟨e, h⟩, hnone, -⟩
  · simp [h]
  · simp [h, hnone]

theorem lsDir_clear : Ends env tid (lsDir (dirText p ++ n)) fs db
    (if fs.node (p ++ [n]) = some .dir then
        (0, (insert dot (insert dotdot (fs.entries (p ++ [n])))).filter fun d => d.head? ≠ some (ch '.'))
      else (-1, ∅)) fs db := by
  by_cases hd : fs.node (p ++ [n]) = some .dir
  · rw [if_pos hd]
    exact lsDir_spec env tid db hp hn (fs.dir_above p [n] (by simp) (by simp [hd])) hd
  · rw [if_neg hd]
    refine Ends.sys_bind none fs ?_ (Ends.pure _)
    intro w hfs hdb
    have hnot : isDir env fs (dirText p ++ n) = none := by
      rcases resolve_cases env hp hn hl with h | ⟨⟨e, h⟩, -⟩ <;> simp [isDir, h, hd]
    simp only [exec, Machine.readdir, cStr_name hp hn, hfs, hnot, Option.map_none]
    exact ⟨trivial, trivial, hdb⟩

theorem md5Sum_clear : Ends env tid (md5Sum (dirText p ++ n)) fs db
    (some (if (fileAt fs (p ++ [n])).isSome then Md5.hexDigest (bytesAt fs (p ++ [n])) else [])) fs db := by
  by_cases hfile : ∃ c, fs.node (p ++ [n]) = some (.file c)
  · obtain ⟨c, hc⟩ := hfile
    simp only [fileAt, bytesAt, hc, Option.isSome_some, if_true, Option.getD_some]
    exact md5Sum_spec env tid db hp hn (fs.dir_above p [n] (by simp) (by simp [hc])) hc
  · have hno : fileAt fs (p ++ [n]) = none := by
      unfold fileAt
      split
      · rename_i c hc
        exact absurd ⟨c, hc⟩ hfile
      · rfl
    have hprint : md5sum env fs (dirText p ++ n) = [] := by
      unfold md5sum
      rcases resolve_cases env hp hn hl with h | ⟨⟨e, h⟩, -⟩
      · rw [h]
        dsimp only
        split
        · rename_i c hc
          exact absurd ⟨c, hc⟩ hfile
        · rfl
      · rw [h]
    rw [hno]
    refine Ends.sys_bind (some []) fs ?_ (Ends.pure _)
    intro w hfs hdb
    simp only [exec, md5Cmd_words hp hn, Machine.shell, if_true, hfs, hprint]
    exact ⟨trivial, trivial, hdb⟩

theorem write_clear (str : Bytes) : Ends env tid (write str (dirText p ++ n)) fs db
    (if fs.CanPut (p ++ [n]) then 0 else -1) (writeOver fs (p ++ [n]) (written str)) db := by
  unfold writeOver
  by_cases hcan : fs.CanPut (p ++ [n])
  · rw [if_pos hcan, dif_pos hcan]
    have hd : fs.node p = some .dir := by
      have hparent := hcan.2.1
      rwa [List.dropLast_concat] at hparent
    cases hnode : fs.node (p ++ [n]) with
    | none =>
      have hspec := write_spec env tid db hp hn str none hd hnode
      simpa [bytesAt, fileAt, hnode] using hspec
    | some m =>
      cases m with
      | dir => exact absurd hnode hcan.2.2
      | link target => exact absurd hnode (hl _ List.prefix_rfl target)
      | file c =>
        have hspec := write_spec env tid db hp hn str (some c) hd hnode
        simpa [bytesAt, fileAt, hnode] using hspec
  · rw [if_neg hcan, dif_neg hcan]
    have hopen : openFile env fs (dirText p ++ n) = none := by
      unfold openFile
      rcases resolve_cases env hp hn hl with h | ⟨⟨e, h⟩, -⟩
      · rw [h]
        dsimp only
        cases hnode : fs.node (p ++ [n]) with
        | none => simp [hcan]
        | some m =>
          cases m with
          | dir => rfl
          | link target => rfl
          | file c =>
            refine absurd ⟨by simp, ?_, by simp [hnode]⟩ hcan
            rw [List.dropLast_concat]
            exact fs.dir_above p [n] (by simp) (by simp [hnode])
      · rw [h]
    refine Ends.sys_bind none fs ?_ (Ends.pure _)
    intro w hfs hdb
    simp only [exec, cStr_name hp hn, hfs, hopen]
    exact ⟨trivial, trivial, hdb⟩

end

end FileSys

end NetDisk
