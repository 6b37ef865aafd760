import NetDisk.Code.FileSys
import NetDisk.MachineSpec

/-!
# What the helpers do

One spec per function of `file_sys.cpp` and `public.cpp`. `Ends` is about the file system and the
tables only: no helper's result depends on the rest of the state it starts in.
-/

namespace NetDisk

open Machine

/-- From every state with `fs` and `db`, the code ends with `a`, `fs'` and `db'`. -/
def Ends (env : Env) (tid : Nat) {α : Type} (c : Code α) (fs : FS) (db : DB) (a : α) (fs' : FS) (db' : DB) :
    Prop :=
  ∀ w : World, w.fs = fs → w.db = db →
    (c.run (exec env tid) w).1 = a ∧ (c.run (exec env tid) w).2.fs = fs' ∧ (c.run (exec env tid) w).2.db = db'

variable {env : Env} {tid : Nat} {fs fs' fs'' : FS} {db db' db'' : DB}

theorem Ends.pure {α : Type} (a : α) : Ends env tid (.pure a : Code α) fs db a fs db :=
  fun _ hfs hdb => ⟨rfl, hfs, hdb⟩

theorem Ends.bind {α β : Type} {c : Code α} {f : α → Code β} {a : α} {b : β}
    (hc : Ends env tid c fs db a fs' db') (hf : Ends env tid (f a) fs' db' b fs'' db'') :
    Ends env tid (c >>= f) fs db b fs'' db'' := by
  intro w hfs hdb
  obtain ⟨h1, h2, h3⟩ := hc w hfs hdb
  rw [Prog.run_bind, h1]
  exact hf _ h2 h3

theorem Ends.sys {op : Sys} {a : op.Res}
    (h : ∀ w : World, w.fs = fs → w.db = db →
      (exec env tid op w).1 = a ∧ (exec env tid op w).2.fs = fs' ∧ (exec env tid op w).2.db = db') :
    Ends env tid (sys op) fs db a fs' db' := h

theorem Ends.sys_bind {op : Sys} {β : Type} {f : op.Res → Code β} {b : β} (a : op.Res) (fs' : FS)
    (h : ∀ w : World, w.fs = fs → w.db = db →
      (exec env tid op w).1 = a ∧ (exec env tid op w).2.fs = fs' ∧ (exec env tid op w).2.db = db)
    (hf : Ends env tid (f a) fs' db b fs'' db'') : Ends env tid (NetDisk.sys op >>= f) fs db b fs'' db'' :=
  Ends.bind (Ends.sys h) hf

namespace FileSys

theorem cStr_single {p : Path} {n : Name} (hp : ∀ m ∈ p, Plain m) (hn : Single n) :
    cStr (dirText p ++ n) = dirText p ++ n := by
  apply cStr_eq_self
  rw [List.mem_append]
  rintro (h | h)
  · exact zero_not_mem_dirText p hp h
  · exact hn.2.2.2.1 h

theorem link_run {σ : Type} {h : Prog.Handler Sys Sys.Res σ} {s s' : σ} {err : Option Errno} {src dst : Bytes}
    (hstep : h (.symlink (cStr src) (cStr dst)) s = (err, s')) :
    (link src dst).run h s = (if err ≠ none ∧ err ≠ some .eexist then -1 else 0, s') := by
  refine (Prog.run_call_of _ hstep).trans ?_
  change (if err ≠ none ∧ err ≠ some .eexist then Prog.pure (-1 : Int) else Prog.pure 0).run h s' = _
  split <;> rfl

theorem cStr_md5Cmd {path : Bytes} (h : (0 : Byte) ∉ path) : cStr (ascii "md5sum " ++ path) = ascii "md5sum " ++ path := by
  apply cStr_eq_self
  rw [List.mem_append]
  rintro (h0 | h0)
  · exact absurd h0 (by decide)
  · exact h h0

theorem md5Cmd_safe {path : Bytes} (hsafe : ShellSafe path) (hne : path ≠ []) (hdash : path.head? ≠ some (ch '-')) :
    shWords (cStr (ascii "md5sum " ++ path)) = some [ascii "md5sum", path] := by
  have hcmd : ShellSafe (ascii "md5sum") := by decide +kernel
  rw [cStr_md5Cmd fun h => (hsafe 0 h).1 rfl]
  exact shWords_two hcmd (by decide) hsafe hne hdash

section
variable (env tid db) {p : Path} {n : Name} (hp : ∀ m ∈ p, Plain m) (hn : Plain n)
include hp hn

theorem cStr_name : cStr (dirText p ++ n) = dirText p ++ n := cStr_single hp hn.single

omit hn in
theorem cStr_dirText : cStr (dirText p) = dirText p := cStr_eq_self (zero_not_mem_dirText p hp)

theorem mkdir_spec (hd : fs.node p = some .dir) :
    Ends env tid (mkdir (dirText p ++ n)) fs db 0 (ensureDir fs (p ++ [n])) db := by
  refine Ends.sys_bind (if fs.node (p ++ [n]) = none then none else some .eexist) (ensureDir fs (p ++ [n])) ?_ ?_
  · intro w hfs hdb
    simp only [exec, cStr_name hp hn, hfs, mkdir_name hp hn hd]
    exact ⟨trivial, trivial, hdb⟩
  · rw [if_neg (by split <;> simp)]
    exact Ends.pure 0

theorem mkdir_missing_spec {m : Name} (hd : fs.node p = some .dir) (hnone : fs.node (p ++ [n]) = none)
    (hm : Plain m) : Ends env tid (mkdir (dirText (p ++ [n]) ++ m)) fs db (-1) fs db := by
  have hpn : ∀ k ∈ p ++ [n], Plain k := by
    intro k hk
    rcases List.mem_append.mp hk with hk | hk
    · exact hp k hk
    · rw [List.mem_singleton.mp hk]; exact hn
  refine Ends.sys_bind (some .enoent) fs ?_ ?_
  · intro w hfs hdb
    simp only [exec, cStr_name hpn hm, hfs, mkdir_missing hp hn hd hnone hm]
    exact ⟨trivial, trivial, hdb⟩
  · rw [if_pos (by simp)]
    exact Ends.pure (-1)

theorem mkdir_dirText_spec (hd : fs.node p = some .dir) :
    Ends env tid (mkdir (dirText (p ++ [n]))) fs db 0 (ensureDir fs (p ++ [n])) db := by
  have hpn : ∀ k ∈ p ++ [n], Plain k := by
    intro k hk
    rcases List.mem_append.mp hk with hk | hk
    · exact hp k hk
    · rw [List.mem_singleton.mp hk]; exact hn
  refine Ends.sys_bind (if fs.node (p ++ [n]) = none then none else some .eexist) (ensureDir fs (p ++ [n])) ?_ ?_
  · intro w hfs hdb
    simp only [exec, cStr_dirText hpn, hfs, mkdir_dirText hp hn hd]
    exact ⟨trivial, trivial, hdb⟩
  · rw [if_neg (by split <;> simp)]
    exact Ends.pure 0

theorem existDir_spec (hd : fs.node p = some .dir)
    (hl : ∀ target, fs.node (p ++ [n]) ≠ some (.link target)) :
    Ends env tid (existDir (dirText p ++ n)) fs db (decide (fs.node (p ++ [n]) = some .dir)) fs db := by
  refine Ends.sys fun w hfs hdb => ?_
  simp only [exec, cStr_name hp hn, hfs, isDir_name hp hn hd hl]
  refine ⟨?_, trivial, hdb⟩
  by_cases h : fs.node (p ++ [n]) = some .dir <;> simp [h]

theorem existFile_spec (hd : fs.node p = some .dir)
    (hl : ∀ target, fs.node (p ++ [n]) ≠ some (.link target)) :
    Ends env tid (existFile (dirText p ++ n)) fs db (decide (fs.node (p ++ [n]) ≠ none)) fs db := by
  refine Ends.sys fun w hfs hdb => ?_
  simp only [exec, cStr_name hp hn, hfs, access_name hp hn hd hl]
  exact ⟨trivial, trivial, hdb⟩

theorem deleteFile_spec {c : Bytes} (hd : fs.node p = some .dir) (hc : fs.node (p ++ [n]) = some (.file c)) :
    Ends env tid (deleteFile (dirText p ++ n)) fs db 0
      (fs.erase (p ++ [n]) (fs.canErase_of_not_dir (by simp [hc]))) db := by
  refine Ends.sys_bind none (fs.erase (p ++ [n]) (fs.canErase_of_not_dir (by simp [hc]))) ?_ (Ends.pure 0)
  intro w hfs hdb
  subst hfs
  simp only [exec, cStr_name hp hn, remove_file hp hn hd hc]
  exact ⟨trivial, trivial, hdb⟩

theorem lsDir_spec (hd : fs.node p = some .dir) (hdn : fs.node (p ++ [n]) = some .dir) :
    Ends env tid (lsDir (dirText p ++ n)) fs db
      (0, (insert dot (insert dotdot (fs.entries (p ++ [n])))).filter fun d => d.head? ≠ some (ch '.')) fs db := by
  refine Ends.sys_bind (some (insert dot (insert dotdot (fs.entries (p ++ [n]))))) fs ?_ (Ends.pure _)
  intro w hfs hdb
  simp only [exec, cStr_name hp hn, hfs, readdir_dir hp hn hd hdn]
  exact ⟨trivial, trivial, hdb⟩

theorem link_spec {target : Bytes} (ht : cStr target = target) (ht0 : target ≠ []) (hd : fs.node p = some .dir)
    (hnone : fs.node (p ++ [n]) = none) :
    Ends env tid (link target (dirText p ++ n)) fs db 0
      (fs.put (p ++ [n]) (.link target) (canPut_of_parent hd (by simp [hnone]))) db := by
  refine Ends.sys_bind none (fs.put (p ++ [n]) (.link target) (canPut_of_parent hd (by simp [hnone])))
    ?_ (Ends.pure 0)
  intro w hfs hdb
  subst hfs
  simp only [exec, cStr_name hp hn, ht, symlink_new hp hn ht0 hd hnone]
  exact ⟨trivial, trivial, hdb⟩

theorem link_old_spec {target : Bytes} (ht : cStr target = target) (ht0 : target ≠ []) (hd : fs.node p = some .dir)
    (hsome : fs.node (p ++ [n]) ≠ none) :
    Ends env tid (link target (dirText p ++ n)) fs db 0 fs db := by
  refine Ends.sys_bind (some .eexist) fs ?_ ?_
  · intro w hfs hdb
    simp only [exec, cStr_name hp hn, ht, hfs, symlink_old hp hn ht0 hd hsome]
    exact ⟨trivial, trivial, hdb⟩
  · rw [if_neg (by simp)]
    exact Ends.pure 0

theorem md5Cmd_words : shWords (cStr (ascii "md5sum " ++ (dirText p ++ n))) =
    some [ascii "md5sum", dirText p ++ n] :=
  md5Cmd_safe (shellSafe_append (shellSafe_dirText hp) (Plain.shellSafe hn)) (by simp [dirText]) (dirText_no_dash p n)

theorem md5Sum_spec {c : Bytes} (hd : fs.node p = some .dir) (hc : fs.node (p ++ [n]) = some (.file c)) :
    Ends env tid (md5Sum (dirText p ++ n)) fs db (some (Md5.hexDigest c)) fs db := by
  refine Ends.sys_bind (some (md5sum env fs (dirText p ++ n))) fs ?_ ?_
  · intro w hfs hdb
    simp only [exec, md5Cmd_words hp hn, Machine.shell, if_true, hfs]
    exact ⟨trivial, trivial, hdb⟩
  · rw [md5sum_file hp hn hd hc]
    have htake : (Md5.hexDigest c ++ ascii "  " ++ (dirText p ++ n) ++ ascii "\n").take 32 = Md5.hexDigest c := by
      rw [List.append_assoc, List.append_assoc, List.take_left' (Md5.length_hexDigest c)]
    simp only [htake]
    exact Ends.pure _

end

/-! ## Writing a file -/

/-- What `write` puts in the file: whole chunks, each from the start of `s`, and the rest. -/
def writtenFrom (s : Bytes) : (fuel len : Nat) → Bytes
  | 0, len => s.take len
  | fuel + 1, len =>
    if len > writeLen then s.take writeLen ++ writtenFrom s fuel (len - writeLen) else s.take len

def written (str : Bytes) : Bytes := writtenFrom (cStr str) (cStr str).length (intLen (cStr str).length)

theorem intLen_eq {n : Nat} (h : n < 2147483648) : intLen n = n := by
  unfold intLen
  rw [Int.bmod_def]
  split <;> omega

theorem intLen_le (n : Nat) : intLen n ≤ n := by
  unfold intLen
  rw [Int.bmod_def]
  split <;> omega

theorem written_eq_self {str : Bytes} (h0 : (0 : Byte) ∉ str) (hlen : str.length ≤ writeLen) :
    written str = str := by
  have hint : intLen str.length = str.length := intLen_eq (by unfold writeLen at hlen; omega)
  rw [written, cStr_eq_self h0, hint]
  unfold writtenFrom
  split
  · simp
  · rw [if_neg (by omega), List.take_length]

theorem overwrite_overlay (old a b : Bytes) : overwrite (overlay old a) a.length b = overlay old (a ++ b) := by
  have htake : (overlay old a).take a.length = a := by rw [overlay, List.take_left]
  have hdrop : (overlay old a).drop (a.length + b.length) = old.drop (a.length + b.length) := by
    rw [overlay, ← List.drop_drop, List.drop_left, List.drop_drop]
  have hpad : a.length - (overlay old a).length = 0 := by simp [overlay]
  rw [overwrite, htake, hpad, hdrop, List.replicate_zero, List.append_nil, overlay, List.length_append]

/-- The state between two chunks: `a` is written, and the offset is behind it. -/
structure Writing (fs : FS) (db : DB) (p : Path) (h : fs.CanPut p) (fd : Nat) (old a : Bytes) (w : World) :
    Prop where
  fs_eq : w.fs = fs.put p (.file (overlay old a)) h
  fd_eq : w.fds fd = some ⟨some p, a.length⟩
  db_eq : w.db = db

section
variable {p : Path} {h : fs.CanPut p} {fd : Nat} {old a : Bytes} {w : World}

theorem writeFile_put (fs : FS) (p : Path) (h : fs.CanPut p) (old a buf : Bytes) :
    writeFile (fs.put p (.file (overlay old a)) h) ⟨some p, a.length⟩ buf =
      fs.put p (.file (overlay old (a ++ buf))) h := by
  have hnode : (fs.put p (.file (overlay old a)) h).node p = some (.file (overlay old a)) := by simp
  have hcan : (fs.put p (.file (overlay old a)) h).CanPut p := by
    have hne : p.dropLast ≠ p := by
      intro he
      have hlen := congrArg List.length he
      have hpos := List.length_pos_iff.mpr h.1
      rw [List.length_dropLast] at hlen
      omega
    exact ⟨h.1, by rw [FileTree.node_put, if_neg hne]; exact h.2.1, by simp⟩
  simp only [writeFile, hnode]
  rw [dif_pos hcan, overwrite_overlay]
  apply FileTree.ext_node
  funext q
  by_cases hq : q = p <;> simp [hq]

variable (env tid) in
theorem Writing.write (hw : Writing fs db p h fd old a w) (buf : Bytes) :
    Writing fs db p h fd old (a ++ buf) (exec env tid (.write fd buf) w).2 := by
  obtain ⟨h1, h2, h3⟩ := hw
  simp only [exec, h2]
  refine ⟨?_, ?_, h3⟩
  · simp only [h1, writeFile_put]
  · simp

variable (env tid) in
theorem Writing.loop (s : Bytes) (fuel len : Nat) (hw : Writing fs db p h fd old a w) :
    ∃ b, b ++ s.take ((writeLoop fd s fuel len).run (exec env tid) w).1 = a ++ writtenFrom s fuel len ∧
      Writing fs db p h fd old b ((writeLoop fd s fuel len).run (exec env tid) w).2 := by
  induction fuel generalizing a w len with
  | zero => exact ⟨a, rfl, hw⟩
  | succ fuel ih =>
    unfold writeLoop writtenFrom
    split
    · have hstep := hw.write env tid (s.take writeLen)
      obtain ⟨b, hb, hlast⟩ := ih (len - writeLen) hstep
      exact ⟨b, by rw [← List.append_assoc]; exact hb, hlast⟩
    · exact ⟨a, rfl, hw⟩

variable (env tid) in
theorem writing_ends (str : Bytes) (hw : Writing fs db p h fd old [] w) :
    let c : Code Int := do
      let len ← writeLoop fd (cStr str) (cStr str).length (intLen (cStr str).length)
      let _ ← sys (.write fd ((cStr str).take len))
      let _ ← sys (.close fd)
      return 0
    (c.run (exec env tid) w).1 = 0 ∧
      (c.run (exec env tid) w).2.fs = fs.put p (.file (overlay old (written str))) h ∧
      (c.run (exec env tid) w).2.db = db := by
  obtain ⟨b, hb, hloop⟩ := hw.loop env tid (cStr str) (cStr str).length (intLen (cStr str).length)
  have hlast := hloop.write env tid ((cStr str).take
    ((writeLoop fd (cStr str) (cStr str).length (intLen (cStr str).length)).run (exec env tid) w).1)
  rw [hb, List.nil_append] at hlast
  simp only [Prog.run_bind]
  exact ⟨rfl, hlast.fs_eq, hlast.db_eq⟩

end

theorem openFile_writing (tid : Nat) {w : World} {p : Path} {path : Bytes} {old : Option Bytes} (hres : resolve env w.fs path = .ok p)
    (hcan : w.fs.CanPut p) (hold : w.fs.node p = old.map .file) : ∃ w',
    exec env tid (.openFile path) w = (some w.nextFd, w') ∧
      Writing w.fs w.db p hcan w.nextFd (old.getD []) [] w' := by
  have hopen : openFile env w.fs path = some (p, w.fs.put p (.file (overlay (old.getD []) [])) hcan) := by
    unfold openFile
    rw [hres]
    cases old with
    | none =>
      have hnone : w.fs.node p = none := hold
      simp only [hnone, dif_pos hcan]
      rfl
    | some c =>
      have hsome : w.fs.node p = some (.file c) := hold
      simp only [hsome]
      -- The file as it is, put over itself.
      refine congrArg some (congrArg (Prod.mk p) (FileTree.ext_node ?_))
      funext q
      by_cases hq : q = p
      · simp [hq, hsome, overlay]
      · simp [hq]
  refine ⟨(exec env tid (.openFile path) w).2, ?_, ?_⟩
  · simp only [exec, hopen]
  · simp only [exec, hopen]
    exact ⟨rfl, by simp, rfl⟩

section
variable (env tid db) {p : Path} {n : Name} (hp : ∀ m ∈ p, Plain m) (hn : Plain n)
include hp hn

theorem write_spec (str : Bytes) (old : Option Bytes) (hd : fs.node p = some .dir)
    (hold : fs.node (p ++ [n]) = old.map .file) :
    Ends env tid (write str (dirText p ++ n)) fs db 0
      (fs.put (p ++ [n]) (.file (overlay (old.getD []) (written str)))
        (canPut_of_parent hd (by cases old <;> simp [hold]))) db := by
  intro w hfs hdb
  subst hfs hdb
  have hcan := canPut_of_parent (n := n) hd (by cases old <;> simp [hold])
  have hres : resolve env w.fs (dirText p ++ n) = .ok (p ++ [n]) :=
    resolve_name hp hn hd fun target => by cases old <;> simp [hold]
  obtain ⟨w', hexec, hw⟩ := openFile_writing tid hres hcan hold
  have hrun := writing_ends env tid str hw
  unfold write
  rw [cStr_name hp hn]
  simp only [sys, Prog.lift_bind, Prog.run_call, hexec]
  exact hrun

end

end FileSys

end NetDisk
