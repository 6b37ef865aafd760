import NetDisk.FileSysSpec
import NetDisk.Lib.Shell
import NetDisk.Server

/-!
# The commands the server and the client give to the shell

A path goes into the command as it is. The shell reads it as one word exactly if it needs no quotes.
-/

namespace NetDisk

open Machine UploadRpc

/-- A simple command with these operands, and no options. -/
def Runs (cmd name : Bytes) (paths : List Bytes) : Prop :=
  Shell.words (cStr cmd) = some (name :: paths) ∧ ∀ path ∈ paths, path.head? ≠ some (ch '-')

instance (cmd name : Bytes) (paths : List Bytes) : Decidable (Runs cmd name paths) := inferInstanceAs (Decidable (_ ∧ _))

/-- A part of a path that the shell takes as it stands: no NUL, no blank or newline, no quote or backslash, no operator,
no dollar sign or backquote, and no pattern. -/
structure Unquoted (x : Bytes) : Prop where
  no_zero : (0 : Byte) ∉ x
  literal : Shell.Literal x
  no_pattern : Shell.isPattern (Shell.bare x) = false

/-! ## Texts with a NUL -/

theorem cStr_prefix (s : Bytes) : cStr s <+: s := List.takeWhile_prefix _

theorem words_cStr_iff {ws : List Bytes} (hne : ws ≠ []) :
    Shell.words (cStr (Shell.unwords ws)) = some ws ↔ (0 : Byte) ∉ Shell.unwords ws ∧ ∀ w ∈ ws, Shell.Bare w := by
  constructor
  · intro h
    -- Nothing of the text is missing from the words.
    have htotal := Shell.words_total h
    rw [Shell.length_unwords hne] at htotal
    have hpre := cStr_prefix (Shell.unwords ws)
    have heq : cStr (Shell.unwords ws) = Shell.unwords ws :=
      hpre.eq_of_length (le_antisymm hpre.length_le (by omega))
    have h0 := zero_not_mem_cStr (Shell.unwords ws)
    rw [heq] at h h0
    exact ⟨h0, (Shell.words_unwords_iff ws).mp h⟩
  · rintro ⟨h0, hbare⟩
    rw [cStr_eq_self h0]
    exact (Shell.words_unwords_iff ws).mpr hbare

/-! ## Paths -/

theorem isSpecial_of_safe {b : Byte} (hspace : b ≠ space) (h : b ∉ shellSpecial) : Shell.isSpecial b = false := by
  have hall : ∀ n < 256, UInt8.ofNat n ≠ space → UInt8.ofNat n ∉ shellSpecial →
      Shell.isSpecial (UInt8.ofNat n) = false := by decide +kernel
  have hb := hall b.toNat b.toNat_lt
  rw [UInt8.ofNat_toNat] at hb
  exact hb hspace h

theorem no_wildcard_of_safe {b : Byte} (h : b ∉ shellSpecial) :
    b ≠ Shell.star ∧ b ≠ Shell.question ∧ b ≠ Shell.openBracket := by
  refine ⟨?_, ?_, ?_⟩
  all_goals
    rintro rfl
    exact h (by decide)

theorem isPattern_safe {x : Bytes} (hx : ShellSafe x) (y : Bytes) :
    Shell.isPattern (Shell.bare (x ++ y)) = Shell.isPattern (Shell.bare y) := by
  rw [Shell.bare, List.map_append]
  refine Shell.isPattern_prefix ?_ _
  intro m hm
  obtain ⟨b, hb, rfl⟩ := List.mem_map.mp hm
  exact no_wildcard_of_safe (hx b hb).2.2

theorem isPattern_path (x y : Bytes) :
    Shell.isPattern (Shell.bare (x ++ slash :: y)) = (Shell.isPattern (Shell.bare x) || Shell.isPattern (Shell.bare y)) := by
  rw [Shell.bare, List.map_append, List.map_cons]
  exact Shell.isPattern_slash _ rfl _

theorem Machine.ShellSafe.literal {x : Bytes} (hx : ShellSafe x) : Shell.Literal x :=
  fun b hb => isSpecial_of_safe (hx b hb).2.1 (hx b hb).2.2

theorem Machine.ShellSafe.bare {x : Bytes} (hx : ShellSafe x) (hne : x ≠ []) : Shell.Bare x where
  ne_nil := hne
  literal := hx.literal
  no_comment h := absurd (hx _ (List.mem_of_head? h)).2.2 (by decide)
  no_home h := absurd (hx _ (List.mem_of_head? h)).2.2 (by decide)
  no_pattern := by
    have hpattern := isPattern_safe hx []
    rw [List.append_nil] at hpattern
    exact hpattern

/-! ## `mv` -/

section
variable (fl : Flags) (request : NetDiskRequest)

/-- The directory that is moved. -/
def movedDir : Bytes := usrUploadDir fl request ++ request.fileSign

theorem movedDir_eq : movedDir fl request =
    fl.usrDir ++ (request.usr ++ slash :: (ascii "tmp" ++ slash :: request.fileSign)) := by
  simp only [movedDir, usrUploadDir, List.append_assoc]
  rfl

theorem mvCmd_eq : mvCmd fl request = Shell.unwords [ascii "mv", movedDir fl request, fl.filesDir] := by
  simp only [mvCmd, Shell.unwords, movedDir, List.append_assoc]
  rfl

theorem shellSafe_tmp : ShellSafe (ascii "tmp") := by decide +kernel

theorem bare_movedDir_iff : Shell.Bare (movedDir fl request) ∧ (0 : Byte) ∉ movedDir fl request ↔
    Unquoted request.usr ∧ Unquoted request.fileSign := by
  have husr : ShellSafe fl.usrDir := shellSafe_dirText fl.usr_plain
  have hpattern : Shell.isPattern (Shell.bare (movedDir fl request)) =
      (Shell.isPattern (Shell.bare request.usr) || Shell.isPattern (Shell.bare request.fileSign)) := by
    have htmp : Shell.isPattern (Shell.bare (ascii "tmp")) = false := by decide
    rw [movedDir_eq, isPattern_safe husr, isPattern_path, isPattern_path, htmp, Bool.false_or]
  have hliteral : Shell.Literal (movedDir fl request) ↔ Shell.Literal request.usr ∧ Shell.Literal request.fileSign := by
    have hslash : ∀ x : Bytes, Shell.Literal (slash :: x) ↔ Shell.Literal x := by
      intro x
      have hone : Shell.Literal [slash] := by
        intro b hb
        rw [List.mem_singleton.mp hb]
        decide
      exact (Shell.literal_append (x := [slash])).trans (and_iff_right hone)
    rw [movedDir_eq, Shell.literal_append, Shell.literal_append, hslash, Shell.literal_append, hslash]
    simp only [husr.literal, shellSafe_tmp.literal, true_and]
  have hzero : (0 : Byte) ∉ movedDir fl request ↔ (0 : Byte) ∉ request.usr ∧ (0 : Byte) ∉ request.fileSign := by
    have h1 : (0 : Byte) ∉ fl.usrDir := fun h => (husr 0 h).1 rfl
    have h2 : (0 : Byte) ∉ ascii "tmp" := fun h => (shellSafe_tmp 0 h).1 rfl
    have h3 : (0 : Byte) ≠ slash := by decide
    rw [movedDir_eq]
    simp only [List.mem_append, List.mem_cons, h1, h2, h3, false_or, not_or]
  have hhead : (movedDir fl request).head? = some slash := rfl
  constructor
  · rintro ⟨hbare, h0⟩
    have hno := hpattern ▸ hbare.no_pattern
    rw [Bool.or_eq_false_iff] at hno
    have hlit := hliteral.mp hbare.literal
    have h0' := hzero.mp h0
    exact ⟨⟨h0'.1, hlit.1, hno.1⟩, ⟨h0'.2, hlit.2, hno.2⟩⟩
  · rintro ⟨hu, hsg⟩
    refine ⟨⟨?_, hliteral.mpr ⟨hu.literal, hsg.literal⟩, ?_, ?_, ?_⟩, hzero.mpr ⟨hu.no_zero, hsg.no_zero⟩⟩
    · exact fun h => by simp [h] at hhead
    · rw [hhead]
      decide
    · rw [hhead]
      decide
    · rw [hpattern, hu.no_pattern, hsg.no_pattern]
      rfl

/-- `mv` gets the two paths and nothing else, exactly if `usr` and `file_sign` need no quotes. -/
theorem mv_runs_iff : Runs (mvCmd fl request) (ascii "mv") [movedDir fl request, fl.filesDir] ↔
    Unquoted request.usr ∧ Unquoted request.fileSign := by
  have hfiles : ShellSafe fl.filesDir := shellSafe_dirText fl.files_plain
  have hsafe : ShellSafe (ascii "mv") := by decide +kernel
  have hmv : Shell.Bare (ascii "mv") := hsafe.bare (by decide)
  have hdash : ∀ path ∈ [movedDir fl request, fl.filesDir], path.head? ≠ some (ch '-') := by
    intro path hpath
    have hhead : path.head? = some slash := by
      simp only [List.mem_cons, List.not_mem_nil, or_false] at hpath
      rcases hpath with rfl | rfl <;> rfl
    rw [hhead]
    decide
  have hzero : (0 : Byte) ∉ Shell.unwords [ascii "mv", movedDir fl request, fl.filesDir] ↔
      (0 : Byte) ∉ movedDir fl request := by
    have h1 : (0 : Byte) ∉ ascii "mv" := by decide
    have h2 : (0 : Byte) ∉ fl.filesDir := fun h => (hfiles 0 h).1 rfl
    simp [Shell.unwords, h1, h2]
  rw [← bare_movedDir_iff, Runs, and_iff_left hdash, mvCmd_eq, words_cStr_iff (by simp), hzero]
  simp only [List.mem_cons, List.not_mem_nil, or_false, forall_eq_or_imp, forall_eq, hmv, true_and]
  have hbare : Shell.Bare fl.filesDir := hfiles.bare (by simp [Flags.filesDir, dirText])
  simp only [hbare, and_true]
  exact and_comm

end

/-! ## `md5sum` -/

theorem md5sum_runs_iff (path : Bytes) : Runs (ascii "md5sum " ++ path) (ascii "md5sum") [path] ↔
    path ≠ [] ∧ Unquoted path ∧ path.head? ≠ some (ch '#') ∧ path.head? ≠ some (ch '~') ∧ path.head? ≠ some (ch '-') := by
  have hmd5 : ShellSafe (ascii "md5sum") := by decide +kernel
  have hbare : Shell.Bare (ascii "md5sum") := hmd5.bare (by decide)
  have hcmd : ascii "md5sum " ++ path = Shell.unwords [ascii "md5sum", path] := rfl
  have hzero : (0 : Byte) ∉ Shell.unwords [ascii "md5sum", path] ↔ (0 : Byte) ∉ path := by
    have h1 : (0 : Byte) ∉ ascii "md5sum" := by decide
    simp [Shell.unwords, h1]
  rw [hcmd, Runs, words_cStr_iff (by simp), hzero]
  simp only [List.mem_cons, List.not_mem_nil, or_false, forall_eq_or_imp, forall_eq, hbare, true_and]
  constructor
  · rintro ⟨⟨h0, hpath⟩, hdash⟩
    exact ⟨hpath.ne_nil, ⟨h0, hpath.literal, hpath.no_pattern⟩, hpath.no_comment, hpath.no_home, hdash⟩
  · rintro ⟨hne, hpath, hcomment, hhome, hdash⟩
    exact ⟨⟨hpath.no_zero, hne, hpath.literal, hcomment, hhome, hpath.no_pattern⟩, hdash⟩

/-! ## Both commands -/

/-- What the two commands are read as. -/
theorem commands_run_iff (fl : Flags) (request : NetDiskRequest) (path : Bytes) :
    (Runs (mvCmd fl request) (ascii "mv") [usrUploadDir fl request ++ request.fileSign, fl.filesDir] ↔
      Unquoted request.usr ∧ Unquoted request.fileSign) ∧
    (Runs (ascii "md5sum " ++ path) (ascii "md5sum") [path] ↔ path ≠ [] ∧ Unquoted path ∧
      path.head? ≠ some (ch '#') ∧ path.head? ≠ some (ch '~') ∧ path.head? ≠ some (ch '-')) :=
  ⟨mv_runs_iff fl request, md5sum_runs_iff path⟩

/-! ### Other words -/

namespace Quoting

def request (usr : String) : NetDiskRequest where
  opType := 5
  shard := 1
  partIndex := 0
  partSign := []
  fileName := ascii "n"
  fileSign := ascii "s"
  usr := ascii usr
  body := []

/-- The words of the `mv` of a user. -/
def mvWords (usr : String) : Option (List Bytes) := Shell.words (cStr (mvCmd .short (request usr)))

def md5sumWords (path : String) : Option (List Bytes) := Shell.words (cStr (ascii "md5sum " ++ ascii path))

end Quoting

/-- A blank, an operator, a quote, an expansion or a pattern in `usr`; and paths that are none, a comment or an option. -/
theorem commands_need_quotes :
    Quoting.mvWords "a b" = some [ascii "mv", ascii "/u/a", ascii "b/tmp/s", ascii "/f/"] ∧
    Quoting.mvWords "a;b" = none ∧
    Quoting.mvWords "a''b" = some [ascii "mv", ascii "/u/ab/tmp/s", ascii "/f/"] ∧
    Quoting.mvWords "$a" = none ∧
    Quoting.mvWords "a*" = none ∧
    ¬ Runs (mvCmd .short (Quoting.request "a b")) (ascii "mv") [ascii "/u/a b/tmp/s", ascii "/f/"] ∧
    Quoting.md5sumWords "" = some [ascii "md5sum"] ∧
    Quoting.md5sumWords "#a" = some [ascii "md5sum"] ∧
    Quoting.md5sumWords "-c" = some [ascii "md5sum", ascii "-c"] ∧
    ¬ Runs (ascii "md5sum " ++ ascii "-c") (ascii "md5sum") [ascii "-c"] := by
  decide

/-! ## The commands of the machine -/

theorem words_of_shWords {cmd : Bytes} {ws : List Bytes} (h : shWords cmd = some ws) : Shell.words cmd = some ws := by
  unfold shWords at h
  simp only at h
  split_ifs at h with hsafe
  rw [← Option.some.inj h]
  refine Shell.words_of_spaces fun b hb => ?_
  by_cases hspace : b = space
  · exact Or.inl hspace
  · have hb' : b ∉ shellSpecial := of_decide_eq_true (List.all_eq_true.mp hsafe.1 b hb)
    have hne : ∀ c ∈ [Shell.hash, Shell.tilde], b ≠ c := by
      rintro c hc rfl
      exact hb' ((by decide +kernel : ∀ c ∈ [Shell.hash, Shell.tilde], c ∈ shellSpecial) _ hc)
    exact Or.inr ⟨isSpecial_of_safe hspace hb', hne _ (by simp), hne _ (by simp), no_wildcard_of_safe hb'⟩

end NetDisk
