import Mathlib.Algebra.Group.Nat.Defs
import Mathlib.Data.List.Basic

/-!
# MD5

The digest of a message: pad it to whole blocks of 64 bytes, and mix in one block after another.
-/

namespace Md5

/-- The four words that the blocks are mixed into. -/
structure State where
  a : UInt32
  b : UInt32
  c : UInt32
  d : UInt32
deriving DecidableEq

def init : State := ⟨0x67452301, 0xefcdab89, 0x98badcfe, 0x10325476⟩

/-! ## One block -/

def F (x y z : UInt32) : UInt32 := x &&& y ||| ~~~x &&& z
def G (x y z : UInt32) : UInt32 := x &&& z ||| y &&& ~~~z
def H (x y z : UInt32) : UInt32 := x ^^^ y ^^^ z
def I (x y z : UInt32) : UInt32 := y ^^^ (x ||| ~~~z)

def rotateLeft (x n : UInt32) : UInt32 := x <<< n ||| x >>> (32 - n)

/-- One step of a round: the word of the block it takes, its shift and its constant. -/
abbrev Step := Nat × UInt32 × UInt32

/-- The new word takes the place of `a`, and the four words change places for the next step. -/
def mix (f : UInt32 → UInt32 → UInt32 → UInt32) (x : List UInt32) (s : State) (t : Step) : State :=
  ⟨s.d, rotateLeft (s.a + f s.b s.c s.d + x.getD t.1 0 + t.2.2) t.2.1 + s.b, s.b, s.c⟩

def round1 : List Step :=
  [(0, 7, 0xd76aa478), (1, 12, 0xe8c7b756), (2, 17, 0x242070db), (3, 22, 0xc1bdceee),
   (4, 7, 0xf57c0faf), (5, 12, 0x4787c62a), (6, 17, 0xa8304613), (7, 22, 0xfd469501),
   (8, 7, 0x698098d8), (9, 12, 0x8b44f7af), (10, 17, 0xffff5bb1), (11, 22, 0x895cd7be),
   (12, 7, 0x6b901122), (13, 12, 0xfd987193), (14, 17, 0xa679438e), (15, 22, 0x49b40821)]

def round2 : List Step :=
  [(1, 5, 0xf61e2562), (6, 9, 0xc040b340), (11, 14, 0x265e5a51), (0, 20, 0xe9b6c7aa),
   (5, 5, 0xd62f105d), (10, 9, 0x2441453), (15, 14, 0xd8a1e681), (4, 20, 0xe7d3fbc8),
   (9, 5, 0x21e1cde6), (14, 9, 0xc33707d6), (3, 14, 0xf4d50d87), (8, 20, 0x455a14ed),
   (13, 5, 0xa9e3e905), (2, 9, 0xfcefa3f8), (7, 14, 0x676f02d9), (12, 20, 0x8d2a4c8a)]

def round3 : List Step :=
  [(5, 4, 0xfffa3942), (8, 11, 0x8771f681), (11, 16, 0x6d9d6122), (14, 23, 0xfde5380c),
   (1, 4, 0xa4beea44), (4, 11, 0x4bdecfa9), (7, 16, 0xf6bb4b60), (10, 23, 0xbebfbc70),
   (13, 4, 0x289b7ec6), (0, 11, 0xeaa127fa), (3, 16, 0xd4ef3085), (6, 23, 0x4881d05),
   (9, 4, 0xd9d4d039), (12, 11, 0xe6db99e5), (15, 16, 0x1fa27cf8), (2, 23, 0xc4ac5665)]

def round4 : List Step :=
  [(0, 6, 0xf4292244), (7, 10, 0x432aff97), (14, 15, 0xab9423a7), (5, 21, 0xfc93a039),
   (12, 6, 0x655b59c3), (3, 10, 0x8f0ccc92), (10, 15, 0xffeff47d), (1, 21, 0x85845dd1),
   (8, 6, 0x6fa87e4f), (15, 10, 0xfe2ce6e0), (6, 15, 0xa3014314), (13, 21, 0x4e0811a1),
   (4, 6, 0xf7537e82), (11, 10, 0xbd3af235), (2, 15, 0x2ad7d2bb), (9, 21, 0xeb86d391)]

/-- Bytes to words, low byte first. -/
def decode : List UInt8 → List UInt32
  | a :: b :: c :: d :: rest =>
    (a.toUInt32 ||| b.toUInt32 <<< 8 ||| c.toUInt32 <<< 16 ||| d.toUInt32 <<< 24) :: decode rest
  | _ => []

def transform (s : State) (block : List UInt8) : State :=
  let x := decode block
  let t := round4.foldl (mix I x) (round3.foldl (mix H x) (round2.foldl (mix G x) (round1.foldl (mix F x) s)))
  ⟨s.a + t.a, s.b + t.b, s.c + t.c, s.d + t.d⟩

/-! ## A whole message -/

/-- `f` on `n` blocks, one after another. -/
def blocks {σ : Type} (f : σ → List UInt8 → σ) : σ → Nat → List UInt8 → σ
  | s, 0, _ => s
  | s, n + 1, msg => blocks f (f s (msg.take 64)) n (msg.drop 64)

def process (s : State) (n : Nat) (msg : List UInt8) : State := blocks transform s n msg

/-- Words to bytes, low byte first. -/
def encodeWord (w : UInt32) : List UInt8 :=
  [w.toUInt8, (w >>> 8).toUInt8, (w >>> 16).toUInt8, (w >>> 24).toUInt8]

def encode (s : State) : List UInt8 :=
  encodeWord s.a ++ encodeWord s.b ++ encodeWord s.c ++ encodeWord s.d

/-- The bit length of the message in 64 bits, low byte first. -/
def lengthBytes (bits : Nat) : List UInt8 :=
  encodeWord (UInt32.ofNat bits) ++ encodeWord (UInt32.ofNat (bits / 2 ^ 32))

/-- A one bit, and zeros up to 56 bytes over whole blocks. -/
def padding (length : Nat) : List UInt8 :=
  0x80 :: List.replicate ((119 - length % 64) % 64) 0

def padded (msg : List UInt8) : List UInt8 :=
  msg ++ padding msg.length ++ lengthBytes (8 * msg.length)

/-- The digest in 16 bytes. -/
def digest (msg : List UInt8) : List UInt8 :=
  encode (process init ((padded msg).length / 64) (padded msg))

def hexDigit (n : UInt8) : UInt8 := if n < 10 then 48 + n else 87 + n

/-- The digest in 32 lower-case hexadecimal digits. -/
def hexDigest (msg : List UInt8) : List UInt8 :=
  (digest msg).flatMap fun b => [hexDigit (b / 16), hexDigit (b % 16)]

/-! ## Block by block -/

section
variable {σ : Type} {f : σ → List UInt8 → σ} {s : σ} {n : Nat} {msg : List UInt8}

theorem blocks_append (rest : List UInt8) (h : 64 * n ≤ msg.length) : blocks f s n (msg ++ rest) = blocks f s n msg := by
  induction n generalizing s msg with
  | zero => rfl
  | succ n ih =>
    unfold blocks
    rw [List.take_append_of_le_length (by omega), List.drop_append_of_le_length (by omega)]
    exact ih (by rw [List.length_drop]; omega)

theorem blocks_succ : blocks f s (n + 1) msg = f (blocks f s n msg) ((msg.drop (64 * n)).take 64) := by
  induction n generalizing s msg with
  | zero => rfl
  | succ n ih =>
    rw [blocks, ih, blocks, List.drop_drop]
    congr 3
    omega

end

theorem process_append {s : State} {n : Nat} {msg : List UInt8} (rest : List UInt8) (h : 64 * n ≤ msg.length) :
    process s n (msg ++ rest) = process s n msg := blocks_append rest h

theorem process_succ {s : State} {n : Nat} {msg : List UInt8} :
    process s (n + 1) msg = transform (process s n msg) ((msg.drop (64 * n)).take 64) := blocks_succ

theorem length_digest (msg : List UInt8) : (digest msg).length = 16 := by
  simp [digest, encode, encodeWord]

theorem length_hexDigest (msg : List UInt8) : (hexDigest msg).length = 32 := by
  have h : ∀ l : List UInt8, (l.flatMap fun b => [hexDigit (b / 16), hexDigit (b % 16)]).length = 2 * l.length := by
    intro l
    induction l with
    | nil => rfl
    | cons b l ih => simp only [List.flatMap_cons, List.length_append, ih, List.length_cons, List.length_nil]; omega
  rw [hexDigest, h, length_digest]

theorem zero_not_mem_hexDigest (msg : List UInt8) : (0 : UInt8) ∉ hexDigest msg := by
  have hdigit : ∀ n : Fin 256, hexDigit (UInt8.ofNat n.val / 16) ≠ 0 ∧ hexDigit (UInt8.ofNat n.val % 16) ≠ 0 := by
    decide +kernel
  intro h
  obtain ⟨b, -, hb⟩ := List.mem_flatMap.mp h
  have hne := hdigit ⟨b.toNat, b.toNat_lt⟩
  rw [UInt8.ofNat_toNat] at hne
  simp only [List.mem_cons, List.not_mem_nil, or_false] at hb
  rcases hb with hb | hb
  · exact hne.1 hb.symm
  · exact hne.2 hb.symm

-- The digest of the empty message, d41d8cd98f00b204e9800998ecf8427e.
example : digest [] = [0xd4, 0x1d, 0x8c, 0xd9, 0x8f, 0x00, 0xb2, 0x04, 0xe9, 0x80, 0x09, 0x98, 0xec, 0xf8,
    0x42, 0x7e] := by decide +kernel

end Md5
