import NetDisk.Printed

/-!
# What `Md5Sum` makes of a file

The exit status of `md5sum` is not looked at, so a file that cannot be read counts as one with a digest; and the path is
printed too, into an array that may be too short for it.
-/

namespace NetDisk

open Machine

namespace Public

/-- Letters, digits, `/`, `_`, `-` and `.` -/
def pathByte (b : Byte) : Bool := isAlnum b ∨ b = slash ∨ b = ch '_' ∨ b = ch '-' ∨ b = ch '.'

/-- What `md5sum` prints of a file, if it can read it. -/
def md5sumLine (content : Option Bytes) (path : Bytes) : Bytes :=
  match content with
  | none => []
  | some content => Md5.hexDigest content ++ ascii "  " ++ path ++ ascii "\n"

/-- `md5sum` can read the files that `readable` has. -/
def RunsMd5sum (readable : Bytes → Option Bytes) (popen : Bytes → Option Pipe) : Prop :=
  ∀ path, (∀ b ∈ path, pathByte b = true) → ∀ fp, popen (ascii "md5sum " ++ path) = some fp →
    fp.output = md5sumLine (readable path) path

/-- No store outside the array, the digest of the file for a success, and no success without a file. -/
def Honest (stack : Stack) (popen : Bytes → Option Pipe) (readable : Bytes → Option Bytes) (path md5 : Bytes) : Prop :=
  ∃ rt md5', md5Sum stack popen path md5 = some (rt, md5') ∧
    (rt = 0 → ∃ content, readable path = some content ∧ md5' = Md5.hexDigest content) ∧
    (readable path = none → rt ≠ 0)

theorem pathByte_ne_zero {path : Bytes} (h : ∀ b ∈ path, pathByte b = true) : (0 : Byte) ∉ path :=
  fun h0 => absurd (h 0 h0) (by decide)

theorem length_md5sumLine (content path : Bytes) : (md5sumLine (some content) path).length = path.length + 35 := by
  have hdigest := Md5.length_hexDigest content
  have hspaces : (ascii "  ").length = 2 := rfl
  have hnewline : (ascii "\n").length = 1 := rfl
  simp only [md5sumLine, List.length_append, hdigest, hspaces, hnewline]
  omega

theorem take_cStr_md5sumLine (old content path : Bytes) :
    (cStr (overlay old (md5sumLine (some content) path))).take 32 = Md5.hexDigest content := by
  have hline : overlay old (md5sumLine (some content) path) = Md5.hexDigest content ++
      (ascii "  " ++ path ++ ascii "\n" ++ old.drop (md5sumLine (some content) path).length) := by
    simp only [overlay, md5sumLine, List.append_assoc]
  rw [hline, BrpcClient.cStr_append (Md5.zero_not_mem_hexDigest content)]
  exact List.take_left' (Md5.length_hexDigest content)

section
variable (stack : Stack) {popen : Bytes → Option Pipe} {readable : Bytes → Option Bytes} {path : Bytes} {fp : Pipe}

theorem md5Sum_fails (h0 : (0 : Byte) ∉ path) (h : popen (ascii "md5sum " ++ path) = none) (md5 : Bytes) :
    md5Sum stack popen path md5 = some (-1, md5) := by
  rw [md5Sum, shellOut_fails stack popen (by rw [FileSys.cStr_md5Cmd h0]; exact h)]
  rfl

theorem md5Sum_fits (h0 : (0 : Byte) ∉ path) (h : popen (ascii "md5sum " ++ path) = some fp)
    (hlen : fp.output.length ≤ shelloutMaxLen) (md5 : Bytes) :
    md5Sum stack popen path md5 = some (0, (cStr (overlay stack.memory fp.output)).take 32) := by
  rw [md5Sum, shellOut_fits stack popen (by rw [FileSys.cStr_md5Cmd h0]; exact h) hlen]
  rfl

theorem md5Sum_over (h0 : (0 : Byte) ∉ path) (h : popen (ascii "md5sum " ++ path) = some fp)
    (hlen : shelloutMaxLen < fp.output.length) (md5 : Bytes) : md5Sum stack popen path md5 = none := by
  rw [md5Sum, shellOut_over stack popen (by rw [FileSys.cStr_md5Cmd h0]; exact h) hlen]
  rfl

/-- The digest is right and a failure is told, exactly if nothing is run at all, or the file can be read and the line
that is printed of it fits. -/
theorem md5Sum_honest_iff (hmd5 : RunsMd5sum readable popen) (hpath : ∀ b ∈ path, pathByte b = true) (md5 : Bytes) :
    Honest stack popen readable path md5 ↔
      popen (ascii "md5sum " ++ path) = none ∨ readable path ≠ none ∧ path.length ≤ 221 := by
  have h0 := pathByte_ne_zero hpath
  cases hfp : popen (ascii "md5sum " ++ path) with
  | none => simp [Honest, md5Sum_fails stack h0 hfp]
  | some fp =>
    have hout := hmd5 path hpath fp hfp
    cases hread : readable path with
    | none =>
      -- Nothing is printed, and the call succeeds.
      rw [hread] at hout
      have hlen : fp.output.length ≤ shelloutMaxLen := by simp [hout, md5sumLine]
      simp [Honest, md5Sum_fits stack h0 hfp hlen, hread]
    | some content =>
      rw [hread] at hout
      have hlen : fp.output.length = path.length + 35 := by rw [hout, length_md5sumLine]
      by_cases hfits : path.length ≤ 221
      · have hrun := md5Sum_fits stack h0 hfp (by unfold shelloutMaxLen; omega) md5
        rw [hout, take_cStr_md5sumLine] at hrun
        simp [Honest, hrun, hread, hfits]
      · have hrun := md5Sum_over stack h0 hfp (by unfold shelloutMaxLen; omega) md5
        simp [Honest, hrun, hfits]

end

/-! ## On the machine -/

/-- The file that a path leads to. -/
def readFile (env : Env) (fs : FS) (path : Bytes) : Option Bytes :=
  match resolve env fs path with
  | .error _ => none
  | .ok p => fileAt fs p

theorem md5sum_eq (env : Env) (fs : FS) (path : Bytes) : md5sum env fs path = md5sumLine (readFile env fs path) path := by
  unfold md5sum readFile fileAt
  cases resolve env fs path with
  | error e => rfl
  | ok p => rcases hnode : fs.node p with _ | (_ | _ | _) <;> simp [md5sumLine, hnode]

theorem shellSafe_path {path : Bytes} (h : ∀ b ∈ path, pathByte b = true) : ShellSafe path := by
  have hall : ∀ n < 256, pathByte (UInt8.ofNat n) = true → UInt8.ofNat n ≠ 0 ∧ UInt8.ofNat n ≠ space ∧
      UInt8.ofNat n ∉ shellSpecial := by decide +kernel
  intro b hb
  have hbyte := hall b.toNat b.toNat_lt
  rw [UInt8.ofNat_toNat] at hbyte
  exact hbyte (h b hb)

def popenOn (env : Env) (w : World) (cmd : Bytes) : Option Pipe := some (Pipe.of (shell env w cmd).1)

theorem md5Sum_agrees {env : Env} {w : World} {path content : Bytes} (tid : Nat) (stack : Stack)
    (hpath : ∀ b ∈ path, pathByte b = true) (hne : path ≠ []) (hdash : path.head? ≠ some (ch '-'))
    (hread : readFile env w.fs path = some content) (hlen : path.length ≤ 221) (md5 : Bytes) :
    md5Sum stack (popenOn env w) path md5 = some (0, Md5.hexDigest content) ∧
      (NetDisk.md5Sum path).run (exec env tid) w = (some (Md5.hexDigest content), w) := by
  have h0 := pathByte_ne_zero hpath
  have hwords := FileSys.md5Cmd_safe (shellSafe_path hpath) hne hdash
  have hshell : shell env w (cStr (ascii "md5sum " ++ path)) = (md5sumLine (some content) path, w) := by
    simp only [shell, hwords, if_true, md5sum_eq, hread]
  constructor
  · have hcmd := FileSys.cStr_md5Cmd h0
    have hfp : popenOn env w (ascii "md5sum " ++ path) = some (Pipe.of (md5sumLine (some content) path)) := by
      rw [← hcmd, popenOn, hshell]
    have hfits : (Pipe.of (md5sumLine (some content) path)).output.length ≤ shelloutMaxLen := by
      rw [Pipe.output_of, length_md5sumLine]
      unfold shelloutMaxLen
      omega
    rw [md5Sum_fits stack h0 hfp hfits, Pipe.output_of, take_cStr_md5sumLine]
  · have hstep : exec env tid (.shell (cStr (ascii "md5sum " ++ path))) w = (some (md5sumLine (some content) path), w) := by
      simp only [exec, hshell]
    have htake : (md5sumLine (some content) path).take 32 = Md5.hexDigest content := by
      rw [md5sumLine, List.append_assoc, List.append_assoc, List.take_left' (Md5.length_hexDigest content)]
    refine (Prog.run_call_of _ hstep).trans ?_
    rw [← htake]
    rfl

/-! ### Two files -/

namespace TwoFiles

/-- A path of 222 bytes. -/
def long : Bytes := ascii "/u/" ++ List.replicate 219 (ch 'a')

def readable (path : Bytes) : Option Bytes := if path = ascii "/u/a" ∨ path = long then some (ascii "abc") else none

def popen (cmd : Bytes) : Option Pipe := some (Pipe.of (md5sumLine (readable (cmd.drop 7)) (cmd.drop 7)))

theorem popen_eq (path : Bytes) : popen (ascii "md5sum " ++ path) = some (Pipe.of (md5sumLine (readable path) path)) := by
  have hdrop : (ascii "md5sum " ++ path).drop 7 = path := List.drop_left' rfl
  rw [popen, hdrop]

theorem runs : RunsMd5sum readable popen := by
  intro path _ fp h
  rw [popen_eq] at h
  obtain rfl := Option.some.inj h
  exact Pipe.output_of _

end TwoFiles

theorem md5Sum_honest_short : Honest (Stack.filled 0) TwoFiles.popen TwoFiles.readable (ascii "/u/a") [] ↔
    TwoFiles.popen (ascii "md5sum " ++ ascii "/u/a") = none ∨
      TwoFiles.readable (ascii "/u/a") ≠ none ∧ (ascii "/u/a").length ≤ 221 :=
  md5Sum_honest_iff (Stack.filled 0) TwoFiles.runs (by decide +kernel) []

/-- A file that is not there has a digest: none at all, or what was in the array. A path that is too long is stored
over the end of the array. -/
theorem md5Sum_not_honest :
    TwoFiles.readable (ascii "/u/b") = none ∧
    md5Sum (Stack.filled 0) TwoFiles.popen (ascii "/u/b") [] = some (0, []) ∧
    md5Sum (Stack.filled (ch 'g')) TwoFiles.popen (ascii "/u/b") [] = some (0, List.replicate 32 (ch 'g')) ∧
    ¬ Honest (Stack.filled 0) TwoFiles.popen TwoFiles.readable (ascii "/u/b") [] ∧
    md5Sum (Stack.filled 0) TwoFiles.popen TwoFiles.long [] = none ∧
    ¬ Honest (Stack.filled 0) TwoFiles.popen TwoFiles.readable TwoFiles.long [] := by
  have hmissing : md5Sum (Stack.filled 0) TwoFiles.popen (ascii "/u/b") [] = some (0, []) := by decide
  have hlong : md5Sum (Stack.filled 0) TwoFiles.popen TwoFiles.long [] = none := by decide +kernel
  refine ⟨by decide, hmissing, by decide, ?_, hlong, ?_⟩
  · rintro ⟨rt, md5', hrun, -, hrt⟩
    rw [hmissing] at hrun
    obtain ⟨rfl, rfl⟩ := Prod.mk.inj (Option.some.inj hrun)
    exact hrt (by decide) rfl
  · rintro ⟨rt, md5', hrun, -⟩
    rw [hlong] at hrun
    cases hrun

end Public

end NetDisk
