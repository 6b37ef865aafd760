import NetDisk.Code.Md5

/-!
# `md5` is the digest

`transform` changes one variable after another, where the words of `Md5.mix` change places. `update` keeps what is left
of the text behind its whole blocks in the buffer, so pieces count as the text they make together.
-/

namespace NetDisk

namespace MD5

/-! ## One block -/

theorem decode_eq {block : Bytes} (h : block.length % 4 = 0) (i : Nat) : decode block i = (Md5.decode block).getD i 0 := by
  induction block using Md5.decode.induct generalizing i with
  | case1 a b c d rest ih =>
    cases i with
    | zero => rfl
    | succ i =>
      have hrest := ih (by simp only [List.length_cons] at h; omega) i
      unfold Md5.decode
      rw [List.getD_cons_succ, ← hrest]
      simp only [decode, Nat.mul_add, List.getD_cons_succ]
  | case2 block hshort =>
    have hnil : block = [] := by
      rcases block with _ | ⟨a, _ | ⟨b, _ | ⟨c, _ | ⟨d, rest⟩⟩⟩⟩
      · rfl
      · simp at h
      · simp at h
      · simp at h
      · exact absurd rfl (hshort a b c d rest)
    subst hnil
    simp [decode, Md5.decode]

/-- The words change places. -/
def turned (w : Md5.State) : Md5.State := ⟨w.d, w.a, w.b, w.c⟩

section
variable (f : UInt32 → UInt32 → UInt32 → UInt32) (x : List UInt32) (w : Md5.State) (t : Md5.Step)

theorem mix_turned : Md5.mix f x w t = turned (step f .a .b .c .d (x.getD t.1 0) t.2.1 t.2.2 w) := rfl

theorem mix_turned_once :
    Md5.mix f x (turned w) t = turned (turned (step f .d .a .b .c (x.getD t.1 0) t.2.1 t.2.2 w)) := rfl

theorem mix_turned_twice :
    Md5.mix f x (turned (turned w)) t = turned (turned (turned (step f .c .d .a .b (x.getD t.1 0) t.2.1 t.2.2 w))) := rfl

theorem mix_turned_thrice :
    Md5.mix f x (turned (turned (turned w))) t = step f .b .c .d .a (x.getD t.1 0) t.2.1 t.2.2 w := rfl

theorem mix_four (t1 t2 t3 t4 : Md5.Step) : Md5.mix f x (Md5.mix f x (Md5.mix f x (Md5.mix f x w t1) t2) t3) t4 =
    (w |> step f .a .b .c .d (x.getD t1.1 0) t1.2.1 t1.2.2 |> step f .d .a .b .c (x.getD t2.1 0) t2.2.1 t2.2.2
      |> step f .c .d .a .b (x.getD t3.1 0) t3.2.1 t3.2.2 |> step f .b .c .d .a (x.getD t4.1 0) t4.2.1 t4.2.2) := by
  rw [mix_turned f x w t1, mix_turned_once, mix_turned_twice, mix_turned_thrice]

end

section
variable {x : Nat → UInt32} {words : List UInt32} (hx : ∀ i, x i = words.getD i 0) (w : Md5.State)
include hx

theorem round1_eq : round1 x w = Md5.round1.foldl (Md5.mix Md5.F words) w := by
  simp only [Md5.round1, List.foldl_cons, List.foldl_nil, mix_four, round1, hx]
  rfl

theorem round2_eq : round2 x w = Md5.round2.foldl (Md5.mix Md5.G words) w := by
  simp only [Md5.round2, List.foldl_cons, List.foldl_nil, mix_four, round2, hx]
  rfl

theorem round3_eq : round3 x w = Md5.round3.foldl (Md5.mix Md5.H words) w := by
  simp only [Md5.round3, List.foldl_cons, List.foldl_nil, mix_four, round3, hx]
  rfl

theorem round4_eq : round4 x w = Md5.round4.foldl (Md5.mix Md5.I words) w := by
  simp only [Md5.round4, List.foldl_cons, List.foldl_nil, mix_four, round4, hx]
  rfl

end

/-- The code mixes a block as the digest does. -/
theorem transform_eq (state : Md5.State) {block : Bytes} (h : block.length = blocksize) :
    transform state block = Md5.transform state block := by
  have hx : ∀ i, decode block i = (Md5.decode block).getD i 0 := decode_eq (by rw [h]; rfl)
  unfold transform Md5.transform
  dsimp only
  rw [round1_eq hx, round2_eq hx, round3_eq hx, round4_eq hx]

theorem encode_eq (words : List UInt32) : encode words = words.flatMap Md5.encodeWord := by
  have hbyte : ∀ w : UInt32, (w &&& 0xff).toUInt8 = w.toUInt8 := by
    intro w
    apply UInt8.toNat_inj.mp
    rw [UInt32.toNat_toUInt8, UInt32.toNat_toUInt8, UInt32.toNat_and]
    exact (congrArg (· % 256) (Nat.and_two_pow_sub_one_eq_mod w.toNat 8)).trans (Nat.mod_mod _ _)
  unfold encode Md5.encodeWord
  simp only [hbyte]

theorem encode_state (s : Md5.State) : encode [s.a, s.b, s.c, s.d] = Md5.encode s := by
  rw [encode_eq, Md5.encode]
  simp only [List.flatMap_cons, List.flatMap_nil, List.append_nil, List.append_assoc]

/-! ## Text in pieces -/

/-- The object has taken in `msg`. -/
structure Absorbed (msg : Bytes) (c : MD5) : Prop where
  lo : c.countLo = UInt32.ofNat (8 * msg.length)
  hi : c.countHi = UInt32.ofNat (8 * msg.length / 2 ^ 32)
  state : c.state = Md5.process Md5.init (msg.length / 64) msg
  buffer : c.buffer.length = 64
  rest : c.buffer.take (msg.length % 64) = msg.drop (64 * (msg.length / 64))
  running : c.finalized = false

variable {c : MD5} {msg text : Bytes}

theorem init_absorbed : Absorbed [] init := ⟨rfl, rfl, rfl, rfl, rfl, rfl⟩

theorem Absorbed.index (h : Absorbed msg c) : c.countLo.toNat / 8 % blocksize = msg.length % 64 := by
  rw [h.lo, UInt32.toNat_ofNat']
  unfold blocksize
  omega

theorem count_add (m n : Nat) (hn : n < 2 ^ 32) :
    UInt32.ofNat (8 * m) + UInt32.ofNat n <<< 3 = UInt32.ofNat (8 * (m + n)) ∧
    (if UInt32.ofNat (8 * m) + UInt32.ofNat n <<< 3 < UInt32.ofNat n <<< 3 then UInt32.ofNat (8 * m / 2 ^ 32) + 1
      else UInt32.ofNat (8 * m / 2 ^ 32)) + UInt32.ofNat n >>> 29 = UInt32.ofNat (8 * (m + n) / 2 ^ 32) := by
  have hbits : (UInt32.ofNat n <<< 3).toNat = 8 * n % 2 ^ 32 := by
    rw [UInt32.toNat_shiftLeft, UInt32.toNat_ofNat', Nat.mod_eq_of_lt hn, Nat.shiftLeft_eq]
    change n * 2 ^ 3 % 2 ^ 32 = _
    omega
  have hhigh : (UInt32.ofNat n >>> 29).toNat = n / 2 ^ 29 := by
    rw [UInt32.toNat_shiftRight, UInt32.toNat_ofNat', Nat.mod_eq_of_lt hn, Nat.shiftRight_eq_div_pow]
    rfl
  have hlow : UInt32.ofNat (8 * m) + UInt32.ofNat n <<< 3 = UInt32.ofNat (8 * (m + n)) := by
    apply UInt32.toNat_inj.mp
    rw [UInt32.toNat_add, hbits, UInt32.toNat_ofNat', UInt32.toNat_ofNat']
    omega
  refine ⟨hlow, ?_⟩
  apply UInt32.toNat_inj.mp
  rw [UInt32.toNat_add, hhigh, UInt32.toNat_ofNat']
  -- The low word overflows exactly when the sum is below what was added.
  split
  · rename_i hlt
    rw [UInt32.lt_iff_toNat_lt, UInt32.toNat_add, hbits, UInt32.toNat_ofNat'] at hlt
    rw [UInt32.toNat_add, UInt32.toNat_ofNat']
    change ((8 * m / 2 ^ 32 % 2 ^ 32 + 1) % 2 ^ 32 + _) % 2 ^ 32 = _
    omega
  · rename_i hle
    rw [UInt32.lt_iff_toNat_lt, UInt32.toNat_add, hbits, UInt32.toNat_ofNat'] at hle
    rw [UInt32.toNat_ofNat']
    omega

theorem transformBlocks_spec {input : Bytes} {fuel k i : Nat} (hi : msg.length + i = 64 * k) (hle : i ≤ input.length)
    (hfuel : input.length ≤ i + fuel) :
    (transformBlocks input fuel (Md5.process Md5.init k (msg ++ input)) i).1 =
      Md5.process Md5.init ((msg.length + input.length) / 64) (msg ++ input) ∧
    msg.length + (transformBlocks input fuel (Md5.process Md5.init k (msg ++ input)) i).2 =
      64 * ((msg.length + input.length) / 64) := by
  induction fuel generalizing k i with
  | zero =>
    have hk : (msg.length + input.length) / 64 = k := by omega
    unfold transformBlocks
    rw [hk]
    exact ⟨rfl, hi⟩
  | succ fuel ih =>
    unfold transformBlocks blocksize
    split
    · have hblock : input.drop i = (msg ++ input).drop (64 * k) := by
        rw [← hi, List.drop_length_add_append]
      rw [transform_eq _ (by rw [blocksize, List.length_take, List.length_drop]; omega), hblock, ← Md5.process_succ]
      exact ih (by omega) (by omega) (by omega)
    · have hk : (msg.length + input.length) / 64 = k := by omega
      rw [hk]
      exact ⟨rfl, hi⟩

theorem length_memcpy {dst src : Bytes} {index : Nat} (h : index + src.length ≤ dst.length) :
    (memcpy dst index src).length = dst.length := by
  simp only [memcpy, List.length_append, List.length_take, List.length_drop]
  omega

theorem take_memcpy {dst src : Bytes} {index : Nat} (h : index ≤ dst.length) :
    (memcpy dst index src).take (index + src.length) = dst.take index ++ src := by
  rw [memcpy, List.take_left' (by simp; omega)]

/-- More text is absorbed after what was. -/
theorem update_absorbed (h : Absorbed msg c) (text : Bytes) (hlen : text.length < 2 ^ 32) :
    Absorbed (msg ++ text) (c.update text) := by
  have hlength : (UInt32.ofNat text.length).toNat = text.length := by
    rw [UInt32.toNat_ofNat', Nat.mod_eq_of_lt hlen]
  obtain ⟨hlo, hhi⟩ := count_add msg.length text.length hlen
  have hindex := h.index
  obtain ⟨hclo, hchi, hstate, hbuffer, hrest, hrun⟩ := h
  rw [← hclo, ← hchi] at hhi
  rw [← hclo] at hlo
  unfold update
  simp only [hlength, List.take_length, hindex]
  have hwhole := Nat.div_add_mod msg.length 64
  split
  · rename_i hfirst
    unfold blocksize at hfirst ⊢
    -- The buffer and the first of the text make the next block.
    have hblock : memcpy c.buffer (msg.length % 64) (text.take (64 - msg.length % 64)) =
        ((msg ++ text).drop (64 * (msg.length / 64))).take 64 := by
      have hdrop : (msg.drop (64 * (msg.length / 64))).length = msg.length % 64 := by
        rw [List.length_drop]
        omega
      have hpast : c.buffer.drop (msg.length % 64 + (text.take (64 - msg.length % 64)).length) = [] :=
        List.drop_eq_nil_of_le (by rw [List.length_take]; omega)
      have hall : (msg.drop (64 * (msg.length / 64))).take 64 = msg.drop (64 * (msg.length / 64)) :=
        List.take_of_length_le (by omega)
      rw [memcpy, hrest, hpast, List.append_nil, List.drop_append_of_le_length (by omega), List.take_append, hdrop, hall]
    have hbuffer1 : (memcpy c.buffer (msg.length % 64) (text.take (64 - msg.length % 64))).length = 64 :=
      (length_memcpy (by rw [List.length_take]; omega)).trans hbuffer
    have hstart : transform c.state (memcpy c.buffer (msg.length % 64) (text.take (64 - msg.length % 64))) =
        Md5.process Md5.init (msg.length / 64 + 1) (msg ++ text) := by
      rw [transform_eq _ hbuffer1, hblock, hstate, Md5.process_succ, Md5.process_append _ (by omega)]
    rw [hstart]
    obtain ⟨hend, hlast⟩ := @transformBlocks_spec msg text text.length (msg.length / 64 + 1)
      (64 - msg.length % 64) (by omega) (by omega) (by omega)
    generalize transformBlocks text text.length (Md5.process Md5.init (msg.length / 64 + 1) (msg ++ text))
      (64 - msg.length % 64) = r at hend hlast ⊢
    have hleft : (text.drop r.2).length = (msg ++ text).length % 64 := by
      rw [List.length_drop, List.length_append]
      omega
    refine ⟨by simpa using hlo, by simpa using hhi, ?_, ?_, ?_, hrun⟩
    · rw [List.length_append]
      exact hend
    · exact (length_memcpy (by omega)).trans hbuffer1
    · have htake := @take_memcpy (memcpy c.buffer (msg.length % 64) (text.take (64 - msg.length % 64)))
        (text.drop r.2) 0 (Nat.zero_le _)
      rw [Nat.zero_add, List.take_zero, List.nil_append, hleft] at htake
      dsimp only
      rw [htake, List.length_append, ← hlast, List.drop_length_add_append]
  · rename_i hshort
    unfold blocksize at hshort
    have hdiv : (msg ++ text).length / 64 = msg.length / 64 := by
      rw [List.length_append]
      omega
    have hmod : (msg ++ text).length % 64 = msg.length % 64 + text.length := by
      rw [List.length_append]
      omega
    refine ⟨by simpa using hlo, by simpa using hhi, ?_, ?_, ?_, hrun⟩
    · rw [hdiv, Md5.process_append _ (by omega)]
      exact hstate
    · exact (length_memcpy (by omega)).trans hbuffer
    · rw [hmod, hdiv]
      dsimp only
      rw [take_memcpy (by omega), hrest, List.drop_append_of_le_length (by omega)]

theorem finalize_digest (h : Absorbed msg c) : (c.finalize).finalized = true ∧ (c.finalize).digest = Md5.digest msg := by
  have hindex := h.index
  have hpad : padding.take (if msg.length % 64 < 56 then 56 - msg.length % 64 else 120 - msg.length % 64) =
      Md5.padding msg.length := by
    have hlen : (if msg.length % 64 < 56 then 56 - msg.length % 64 else 120 - msg.length % 64) =
        (119 - msg.length % 64) % 64 + 1 := by
      split <;> omega
    rw [hlen, padding, List.take_succ_cons, List.take_replicate, Nat.min_eq_left (by omega)]
    rfl
  have hcount : encode [c.countLo, c.countHi] = Md5.lengthBytes (8 * msg.length) := by
    rw [encode_eq, h.lo, h.hi]
    rfl
  have hpaddinglen : (Md5.padding msg.length).length < 2 ^ 32 := by
    simp only [Md5.padding, List.length_cons, List.length_replicate]
    omega
  have hpadded := update_absorbed (update_absorbed h (Md5.padding msg.length) hpaddinglen)
    (Md5.lengthBytes (8 * msg.length)) (by simp [Md5.lengthBytes, Md5.encodeWord])
  have hnot : ¬ c.finalized = true := by simp [h.running]
  unfold finalize
  rw [if_neg hnot]
  dsimp only
  rw [hindex, hpad, hcount, hpadded.state, encode_state]
  exact ⟨rfl, rfl⟩

/-! ## Any order of calls -/

/-- A call of a member function of the object. -/
inductive Call where
  | update (text : Bytes)
  | finalize
deriving DecidableEq

def call (c : MD5) : Call → MD5
  | .update text => c.update text
  | .finalize => c.finalize

def after (c : MD5) (calls : List Call) : MD5 := calls.foldl call c

/-- The text that comes before `finalize` is called. -/
def taken : List Call → Bytes
  | [] => []
  | .update text :: calls => text ++ taken calls
  | .finalize :: _ => []

/-- The object is finished, and gives this digest. -/
def Finished (digest : Bytes) (c : MD5) : Prop := c.finalized = true ∧ c.digest = digest

theorem Finished.after {digest : Bytes} (h : Finished digest c) (calls : List Call) : Finished digest (c.after calls) := by
  induction calls generalizing c with
  | nil => exact h
  | cons call calls ih =>
    refine ih ?_
    cases call with
    | update text =>
      unfold MD5.call update
      dsimp only
      split <;> exact h
    | finalize =>
      rw [MD5.call, finalize, if_pos h.1]
      exact h

theorem Absorbed.after (h : Absorbed msg c) (calls : List Call)
    (hlen : ∀ text, .update text ∈ calls → text.length + blocksize < 2 ^ 32) :
    if .finalize ∈ calls then Finished (Md5.digest (msg ++ taken calls)) (c.after calls)
    else Absorbed (msg ++ taken calls) (c.after calls) := by
  induction calls generalizing msg c with
  | nil =>
    rw [if_neg (by simp), taken, List.append_nil]
    exact h
  | cons call calls ih =>
    cases call with
    | update text =>
      have hone := hlen text List.mem_cons_self
      have hrest := ih (update_absorbed h text (by omega)) fun text ht => hlen text (List.mem_cons_of_mem _ ht)
      rw [List.append_assoc] at hrest
      simp only [List.mem_cons, reduceCtorEq, false_or]
      exact hrest
    | finalize =>
      have hfinal : Finished (Md5.digest msg) c.finalize := finalize_digest h
      rw [if_pos List.mem_cons_self, taken, List.append_nil]
      exact hfinal.after calls

/-- However the text is cut into pieces, and whatever is called after the first `finalize`: the object gives the digest of
the text that it was given before, and nothing as long as it is not finished. -/
theorem hexdigest_after (calls : List Call) (hlen : ∀ text, .update text ∈ calls → text.length + blocksize < 2 ^ 32) :
    (init.after calls).hexdigest = if .finalize ∈ calls then Md5.hexDigest (taken calls) else [] := by
  have hend := init_absorbed.after calls hlen
  unfold hexdigest
  by_cases hmem : .finalize ∈ calls
  · rw [if_pos hmem] at hend ⊢
    rw [if_pos hend.1, hend.2, List.nil_append, Md5.hexDigest]
  · rw [if_neg hmem] at hend ⊢
    rw [if_neg (by simp [hend.running])]

theorem hexdigest_after_pieces :
    (init.after [.update [1, 2], .update [], .update [3], .finalize, .update [4], .finalize]).hexdigest =
      Md5.hexDigest [1, 2, 3] :=
  hexdigest_after _ (by simp [blocksize])

end MD5

theorem md5_eq (str : Bytes) (h : str.length < 2 ^ 32) : md5 str = Md5.hexDigest str := by
  have habsorbed := MD5.update_absorbed MD5.init_absorbed str h
  rw [List.nil_append] at habsorbed
  obtain ⟨hfinal, hdigest⟩ := MD5.finalize_digest habsorbed
  rw [md5, MD5.hexdigest, if_pos hfinal, hdigest, Md5.hexDigest]

end NetDisk
