import NetDisk.Client
import NetDisk.Code.Public
import NetDisk.Server

/-!
# What `ShellOut` reads

The array has room for 256 bytes, and no NUL is put behind what is read. The callers see what the command printed
exactly when it fits and a NUL is behind it already.
-/

namespace NetDisk

open Machine

namespace Public

/-- The standard output of the command. -/
def Pipe.output (fp : Pipe) : Bytes := fp.pieces.flatten

/-! ## The loop -/

theorem readLoop_fits (stack : Stack) (i : Nat) {pieces : List Bytes} (h : i + pieces.flatten.length ≤ shelloutMaxLen) :
    ∃ stack', readLoop stack i pieces = some stack' ∧
      stack'.out = stack.out.take i ++ pieces.flatten ++ stack.out.drop (i + pieces.flatten.length) ∧
      stack'.behind = stack.behind := by
  induction pieces generalizing stack i with
  | nil => exact ⟨stack, rfl, by simp, rfl⟩
  | cons piece pieces ih =>
    rw [List.flatten_cons, List.length_append] at h
    have hpiece : i + piece.length ≤ shelloutMaxLen := by omega
    have hi : (stack.out.take i).length = i := by
      rw [List.length_take, stack.size]
      omega
    obtain ⟨stack', hrun, hout, hbehind⟩ := ih (stack.store i piece hpiece) (i + piece.length) (by omega)
    refine ⟨stack', by rw [readLoop, dif_pos hpiece]; exact hrun, ?_, hbehind⟩
    rw [hout]
    have hleft : (stack.out.take i ++ piece).length = i + piece.length := by rw [List.length_append, hi]
    have htake : (stack.store i piece hpiece).out.take (i + piece.length) = stack.out.take i ++ piece :=
      List.take_left' hleft
    have hdrop : (stack.store i piece hpiece).out.drop (i + piece.length + pieces.flatten.length) =
        stack.out.drop (i + piece.length + pieces.flatten.length) := by
      calc (stack.store i piece hpiece).out.drop (i + piece.length + pieces.flatten.length)
          = ((stack.store i piece hpiece).out.drop (i + piece.length)).drop pieces.flatten.length := List.drop_drop.symm
        _ = (stack.out.drop (i + piece.length)).drop pieces.flatten.length :=
          congrArg (List.drop pieces.flatten.length) (List.drop_left' hleft)
        _ = stack.out.drop (i + piece.length + pieces.flatten.length) := List.drop_drop
    rw [htake, hdrop, List.flatten_cons, List.length_append, List.append_assoc, List.append_assoc, Nat.add_assoc]
    rw [List.append_assoc, List.append_assoc]

theorem readLoop_over (stack : Stack) (i : Nat) {pieces : List Bytes} (hi : i ≤ shelloutMaxLen)
    (h : shelloutMaxLen < i + pieces.flatten.length) : readLoop stack i pieces = none := by
  induction pieces generalizing stack i with
  | nil =>
    rw [List.flatten_nil, List.length_nil] at h
    omega
  | cons piece pieces ih =>
    rw [List.flatten_cons, List.length_append] at h
    rw [readLoop]
    split
    · rename_i hpiece
      exact ih _ _ hpiece (by omega)
    · rfl

/-! ## `ShellOut` -/

namespace Stack

/-- The bytes from `out` on. -/
def memory (stack : Stack) : Bytes := stack.out ++ stack.behind

/-- The text fits, and the byte behind it is a NUL before the call. -/
def Ends (stack : Stack) (text : Bytes) : Prop := text.length ≤ shelloutMaxLen ∧ stack.memory[text.length]? = some 0

instance (stack : Stack) (text : Bytes) : Decidable (stack.Ends text) := inferInstanceAs (Decidable (_ ∧ _))

theorem overlay_memory (stack : Stack) {text : Bytes} (h : text.length ≤ shelloutMaxLen) :
    overlay stack.memory text = text ++ stack.out.drop text.length ++ stack.behind := by
  have hsize := stack.size
  rw [overlay, memory, List.drop_append_of_le_length (by omega), List.append_assoc]

theorem ofCharPtr_overlay (stack : Stack) {text : Bytes} (h : text.length ≤ shelloutMaxLen) :
    BrpcClient.ofCharPtr (overlay stack.memory text) = some (cStr (overlay stack.memory text)) := by
  refine if_pos ?_
  rw [stack.overlay_memory h]
  exact List.mem_append_right _ stack.ends

theorem str_eq_iff (stack : Stack) {text : Bytes} (h0 : (0 : Byte) ∉ text) (h : text.length ≤ shelloutMaxLen) :
    cStr (overlay stack.memory text) = text ↔ stack.memory[text.length]? = some 0 := by
  have hread := stack.ofCharPtr_overlay h
  have hiff : BrpcClient.ofCharPtr (text ++ stack.memory.drop text.length) = some text ↔ _ := BrpcClient.ofCharPtr_eq h0
  rw [List.head?_drop] at hiff
  rw [← hiff, ← overlay, hread, Option.some.injEq]

end Stack

section
variable (stack : Stack) (popen : Bytes → Option Pipe)

theorem shellOut_fails {cmd : Bytes} (h : popen (cStr cmd) = none) (res : Bytes) :
    shellOut stack popen cmd res = some (-1, res) := by
  simp only [shellOut, h]

variable {fp : Pipe}

theorem shellOut_fits {cmd : Bytes} (hfp : popen (cStr cmd) = some fp) (hlen : fp.output.length ≤ shelloutMaxLen)
    (res : Bytes) : shellOut stack popen cmd res = some (0, cStr (overlay stack.memory fp.output)) := by
  obtain ⟨stack', hrun, hout, hbehind⟩ := readLoop_fits stack 0
    (by rw [Nat.zero_add]; exact hlen)
  rw [List.take_zero, List.nil_append, Nat.zero_add] at hout
  simp only [shellOut, hfp, hrun, Option.map_some, Stack.str, hout, hbehind]
  rw [stack.overlay_memory hlen]
  rfl

theorem shellOut_over {cmd : Bytes} (hfp : popen (cStr cmd) = some fp) (hlen : shelloutMaxLen < fp.output.length)
    (res : Bytes) : shellOut stack popen cmd res = none := by
  have hrun := readLoop_over stack 0 (Nat.zero_le _)
    (by rw [Nat.zero_add]; exact hlen)
  simp only [shellOut, hfp, hrun, Option.map_none]

/-- No store outside the array, and for a success exactly what the command printed. -/
def Exact (cmd res : Bytes) : Prop := ∃ rt res', shellOut stack popen cmd res = some (rt, res') ∧
  (rt = 0 → ∃ fp, popen (cStr cmd) = some fp ∧ res' = fp.output)

theorem ends_of_exact {cmd res : Bytes} (hfp : popen (cStr cmd) = some fp) (h0 : (0 : Byte) ∉ fp.output)
    (h : Exact stack popen cmd res) : stack.Ends fp.output := by
  obtain ⟨rt, res', hrun, hres⟩ := h
  by_cases hlen : fp.output.length ≤ shelloutMaxLen
  · rw [shellOut_fits stack popen hfp hlen] at hrun
    obtain ⟨rfl, rfl⟩ := Prod.mk.inj (Option.some.inj hrun)
    obtain ⟨fp', hfp', hout⟩ := hres rfl
    obtain rfl := Option.some.inj (hfp.symm.trans hfp')
    exact ⟨hlen, (stack.str_eq_iff h0 hlen).mp hout⟩
  · rw [shellOut_over stack popen hfp (by omega)] at hrun
    cases hrun

theorem exact_of_ends {cmd : Bytes} (hfp : popen (cStr cmd) = some fp) (h0 : (0 : Byte) ∉ fp.output)
    (h : stack.Ends fp.output) (res : Bytes) : Exact stack popen cmd res := by
  refine ⟨0, _, shellOut_fits stack popen hfp h.1 res, fun _ => ⟨fp, hfp, ?_⟩⟩
  exact (stack.str_eq_iff h0 h.1).mpr h.2

/-- The callers get what was printed, exactly if it fits and the byte behind it is a NUL already. -/
theorem shellOut_exact_iff (cmd res : Bytes) (h0 : ∀ fp, popen (cStr cmd) = some fp → (0 : Byte) ∉ fp.output) :
    Exact stack popen cmd res ↔ ∀ fp, popen (cStr cmd) = some fp → stack.Ends fp.output := by
  constructor
  · exact fun h fp hfp => ends_of_exact stack popen hfp (h0 fp hfp) h
  · intro h
    cases hfp : popen (cStr cmd) with
    | none => exact ⟨-1, res, shellOut_fails stack popen hfp res, fun h => absurd h (by decide)⟩
    | some fp => exact exact_of_ends stack popen hfp (h0 fp hfp) (h fp hfp) res

end

/-! ### Two stacks -/

/-- What `fread` gives of an output when it comes at once. -/
def tens : (fuel : Nat) → Bytes → List Bytes
  | 0, _ => []
  | fuel + 1, text => if text = [] then [] else text.take 10 :: tens fuel (text.drop 10)

theorem tens_sized (fuel : Nat) (text : Bytes) : ∀ piece ∈ tens fuel text, 0 < piece.length ∧ piece.length ≤ 10 := by
  induction fuel generalizing text with
  | zero => simp [tens]
  | succ fuel ih =>
    intro piece hpiece
    unfold tens at hpiece
    split at hpiece
    · cases hpiece
    · rename_i hne
      have hpos := List.length_pos_of_ne_nil hne
      rcases List.mem_cons.mp hpiece with rfl | hpiece
      · rw [List.length_take]
        omega
      · exact ih _ piece hpiece

theorem tens_flatten (fuel : Nat) (text : Bytes) (h : text.length ≤ fuel) : (tens fuel text).flatten = text := by
  induction fuel generalizing text with
  | zero =>
    rw [List.length_eq_zero_iff.mp (by omega : text.length = 0)]
    rfl
  | succ fuel ih =>
    unfold tens
    split
    · rename_i hnil
      exact hnil.symm
    · rw [List.flatten_cons, ih _ (by rw [List.length_drop]; omega), List.take_append_drop]

def Pipe.of (text : Bytes) : Pipe := ⟨tens text.length text, tens_sized _ _⟩

@[simp] theorem Pipe.output_of (text : Bytes) : (Pipe.of text).output = text := tens_flatten _ _ le_rfl

namespace Stack

/-- `b` all over the array. -/
def filled (b : Byte) : Stack where
  out := List.replicate shelloutMaxLen b
  behind := [0]
  size := List.length_replicate
  ends := List.mem_singleton.mpr rfl

end Stack

/-- A command that prints so many letters. -/
def letters (n : Nat) : Bytes → Option Pipe := fun _ => some (Pipe.of (List.replicate n (ch 'x')))

theorem zero_not_mem_letters (n : Nat) {fp : Pipe} {cmd : Bytes} (h : letters n cmd = some fp) :
    (0 : Byte) ∉ fp.output := by
  obtain rfl := Option.some.inj h
  rw [Pipe.output_of, List.mem_replicate]
  exact fun h => absurd h.2 (by decide)

theorem shellOut_exact_zeros : Exact (Stack.filled 0) (letters 25) (ascii "ls") [] ↔
    ∀ fp, letters 25 (cStr (ascii "ls")) = some fp → (Stack.filled 0).Ends fp.output :=
  shellOut_exact_iff (Stack.filled 0) (letters 25) (ascii "ls") [] fun _ h => zero_not_mem_letters 25 h

/-- Nothing is printed, or a short text, and the old bytes come behind it; and a text that is too long. -/
theorem shellOut_not_exact :
    shellOut (Stack.filled (ch 'g')) (letters 0) (ascii "mv a b") [] =
      some (0, List.replicate shelloutMaxLen (ch 'g')) ∧
    ¬ Exact (Stack.filled (ch 'g')) (letters 0) (ascii "mv a b") [] ∧
    ¬ Exact (Stack.filled (ch 'g')) (letters 25) (ascii "ls") [] ∧
    shellOut (Stack.filled 0) (letters 257) (ascii "ls") [] = none ∧
    ¬ Exact (Stack.filled 0) (letters 257) (ascii "ls") [] := by
  have hno : ∀ (b : Byte) (n : Nat) (cmd : Bytes), ¬ (Stack.filled b).Ends (Pipe.of (List.replicate n (ch 'x'))).output →
      ¬ Exact (Stack.filled b) (letters n) cmd [] :=
    fun b n cmd hends h => hends (ends_of_exact _ _ rfl (zero_not_mem_letters n (rfl : letters n cmd = _)) h)
  refine ⟨by decide +kernel, hno _ 0 _ ?_, hno _ 25 _ ?_, by decide +kernel, hno _ 257 _ ?_⟩
  all_goals
    rw [Pipe.output_of]
    decide +kernel

end Public

end NetDisk
