import NetDisk.Lib.Md5
import NetDisk.Text

/-! # `md5.cpp` -/

namespace NetDisk

structure MD5 where
  finalized : Bool
  /-- The bytes that did not fit in the last block are at the start. -/
  buffer : Bytes
  /-- The number of bits, low word and high word. -/
  countLo : UInt32
  countHi : UInt32
  state : Md5.State
  digest : Bytes

namespace MD5

/-- `blocksize` -/
def blocksize : Nat := 64

/-! ## One block -/

def S11 : UInt32 := 7
def S12 : UInt32 := 12
def S13 : UInt32 := 17
def S14 : UInt32 := 22
def S21 : UInt32 := 5
def S22 : UInt32 := 9
def S23 : UInt32 := 14
def S24 : UInt32 := 20
def S31 : UInt32 := 4
def S32 : UInt32 := 11
def S33 : UInt32 := 16
def S34 : UInt32 := 23
def S41 : UInt32 := 6
def S42 : UInt32 := 10
def S43 : UInt32 := 15
def S44 : UInt32 := 21

def F (x y z : UInt32) : UInt32 := x &&& y ||| ~~~x &&& z
def G (x y z : UInt32) : UInt32 := x &&& z ||| y &&& ~~~z
def H (x y z : UInt32) : UInt32 := x ^^^ y ^^^ z
def I (x y z : UInt32) : UInt32 := y ^^^ (x ||| ~~~z)

def rotateLeft (x n : UInt32) : UInt32 := x <<< n ||| x >>> (32 - n)

/-- The variables of `transform`. -/
inductive Var where
  | a | b | c | d

def Var.get (w : Md5.State) : Var → UInt32
  | .a => w.a
  | .b => w.b
  | .c => w.c
  | .d => w.d

def Var.set (w : Md5.State) (v : UInt32) : Var → Md5.State
  | .a => { w with a := v }
  | .b => { w with b := v }
  | .c => { w with c := v }
  | .d => { w with d := v }

/-- `a = rotate_left(a + f(b, c, d) + x + ac, s) + b`, where the variables `p q r t` are passed as `a b c d`. -/
def step (f : UInt32 → UInt32 → UInt32 → UInt32) (p q r t : Var) (x s ac : UInt32) (w : Md5.State) : Md5.State :=
  p.set w (rotateLeft (p.get w + f (q.get w) (r.get w) (t.get w) + x + ac) s + q.get w)

def FF (p q r t : Var) (x s ac : UInt32) : Md5.State → Md5.State := step F p q r t x s ac
def GG (p q r t : Var) (x s ac : UInt32) : Md5.State → Md5.State := step G p q r t x s ac
def HH (p q r t : Var) (x s ac : UInt32) : Md5.State → Md5.State := step H p q r t x s ac
def II (p q r t : Var) (x s ac : UInt32) : Md5.State → Md5.State := step I p q r t x s ac

/-- `output[i]` -/
def decode (input : Bytes) (i : Nat) : UInt32 :=
  let j := 4 * i
  (input.getD j 0).toUInt32 ||| (input.getD (j + 1) 0).toUInt32 <<< 8 ||| (input.getD (j + 2) 0).toUInt32 <<< 16 |||
    (input.getD (j + 3) 0).toUInt32 <<< 24

def encode (input : List UInt32) : Bytes :=
  input.flatMap fun (w : UInt32) => [(w &&& 0xff).toUInt8, (w >>> 8 &&& 0xff).toUInt8, (w >>> 16 &&& 0xff).toUInt8,
    (w >>> 24 &&& 0xff).toUInt8]

/-- `Round 1` -/
def round1 (x : Nat → UInt32) (w : Md5.State) : Md5.State :=
  w
  |> FF .a .b .c .d (x 0) S11 0xd76aa478
  |> FF .d .a .b .c (x 1) S12 0xe8c7b756
  |> FF .c .d .a .b (x 2) S13 0x242070db
  |> FF .b .c .d .a (x 3) S14 0xc1bdceee
  |> FF .a .b .c .d (x 4) S11 0xf57c0faf
  |> FF .d .a .b .c (x 5) S12 0x4787c62a
  |> FF .c .d .a .b (x 6) S13 0xa8304613
  |> FF .b .c .d .a (x 7) S14 0xfd469501
  |> FF .a .b .c .d (x 8) S11 0x698098d8
  |> FF .d .a .b .c (x 9) S12 0x8b44f7af
  |> FF .c .d .a .b (x 10) S13 0xffff5bb1
  |> FF .b .c .d .a (x 11) S14 0x895cd7be
  |> FF .a .b .c .d (x 12) S11 0x6b901122
  |> FF .d .a .b .c (x 13) S12 0xfd987193
  |> FF .c .d .a .b (x 14) S13 0xa679438e
  |> FF .b .c .d .a (x 15) S14 0x49b40821

/-- `Round 2` -/
def round2 (x : Nat → UInt32) (w : Md5.State) : Md5.State :=
  w
  |> GG .a .b .c .d (x 1) S21 0xf61e2562
  |> GG .d .a .b .c (x 6) S22 0xc040b340
  |> GG .c .d .a .b (x 11) S23 0x265e5a51
  |> GG .b .c .d .a (x 0) S24 0xe9b6c7aa
  |> GG .a .b .c .d (x 5) S21 0xd62f105d
  |> GG .d .a .b .c (x 10) S22 0x2441453
  |> GG .c .d .a .b (x 15) S23 0xd8a1e681
  |> GG .b .c .d .a (x 4) S24 0xe7d3fbc8
  |> GG .a .b .c .d (x 9) S21 0x21e1cde6
  |> GG .d .a .b .c (x 14) S22 0xc33707d6
  |> GG .c .d .a .b (x 3) S23 0xf4d50d87
  |> GG .b .c .d .a (x 8) S24 0x455a14ed
  |> GG .a .b .c .d (x 13) S21 0xa9e3e905
  |> GG .d .a .b .c (x 2) S22 0xfcefa3f8
  |> GG .c .d .a .b (x 7) S23 0x676f02d9
  |> GG .b .c .d .a (x 12) S24 0x8d2a4c8a

/-- `Round 3` -/
def round3 (x : Nat → UInt32) (w : Md5.State) : Md5.State :=
  w
  |> HH .a .b .c .d (x 5) S31 0xfffa3942
  |> HH .d .a .b .c (x 8) S32 0x8771f681
  |> HH .c .d .a .b (x 11) S33 0x6d9d6122
  |> HH .b .c .d .a (x 14) S34 0xfde5380c
  |> HH .a .b .c .d (x 1) S31 0xa4beea44
  |> HH .d .a .b .c (x 4) S32 0x4bdecfa9
  |> HH .c .d .a .b (x 7) S33 0xf6bb4b60
  |> HH .b .c .d .a (x 10) S34 0xbebfbc70
  |> HH .a .b .c .d (x 13) S31 0x289b7ec6
  |> HH .d .a .b .c (x 0) S32 0xeaa127fa
  |> HH .c .d .a .b (x 3) S33 0xd4ef3085
  |> HH .b .c .d .a (x 6) S34 0x4881d05
  |> HH .a .b .c .d (x 9) S31 0xd9d4d039
  |> HH .d .a .b .c (x 12) S32 0xe6db99e5
  |> HH .c .d .a .b (x 15) S33 0x1fa27cf8
  |> HH .b .c .d .a (x 2) S34 0xc4ac5665

/-- `Round 4` -/
def round4 (x : Nat → UInt32) (w : Md5.State) : Md5.State :=
  w
  |> II .a .b .c .d (x 0) S41 0xf4292244
  |> II .d .a .b .c (x 7) S42 0x432aff97
  |> II .c .d .a .b (x 14) S43 0xab9423a7
  |> II .b .c .d .a (x 5) S44 0xfc93a039
  |> II .a .b .c .d (x 12) S41 0x655b59c3
  |> II .d .a .b .c (x 3) S42 0x8f0ccc92
  |> II .c .d .a .b (x 10) S43 0xffeff47d
  |> II .b .c .d .a (x 1) S44 0x85845dd1
  |> II .a .b .c .d (x 8) S41 0x6fa87e4f
  |> II .d .a .b .c (x 15) S42 0xfe2ce6e0
  |> II .c .d .a .b (x 6) S43 0xa3014314
  |> II .b .c .d .a (x 13) S44 0x4e0811a1
  |> II .a .b .c .d (x 4) S41 0xf7537e82
  |> II .d .a .b .c (x 11) S42 0xbd3af235
  |> II .c .d .a .b (x 2) S43 0x2ad7d2bb
  |> II .b .c .d .a (x 9) S44 0xeb86d391

def transform (state : Md5.State) (block : Bytes) : Md5.State :=
  let x := decode block
  let w := state |> round1 x |> round2 x |> round3 x |> round4 x
  ⟨state.a + w.a, state.b + w.b, state.c + w.c, state.d + w.d⟩

/-! ## Text in pieces -/

/-- The bytes of `src` from `index` on. -/
def memcpy (dst : Bytes) (index : Nat) (src : Bytes) : Bytes :=
  dst.take index ++ src ++ dst.drop (index + src.length)

/-- What `init` does not set is never read before it is written. -/
def init : MD5 :=
  ⟨false, List.replicate blocksize 0, 0, 0, ⟨0x67452301, 0xefcdab89, 0x98badcfe, 0x10325476⟩, []⟩

/-- The loop over the whole blocks of `input` from `i` on. Ends with the state and `i`. -/
def transformBlocks (input : Bytes) : (fuel : Nat) → Md5.State → (i : Nat) → Md5.State × Nat
  | 0, state, i => (state, i)
  | fuel + 1, state, i =>
    if i + blocksize ≤ input.length then
      transformBlocks input fuel (transform state ((input.drop i).take blocksize)) (i + blocksize)
    else (state, i)

/-- The length is a 32-bit number. -/
def update (c : MD5) (text : Bytes) : MD5 :=
  let length := UInt32.ofNat text.length
  let input := text.take length.toNat
  let index := c.countLo.toNat / 8 % blocksize
  let bits := length <<< 3
  let lo := c.countLo + bits
  let hi := (if lo < bits then c.countHi + 1 else c.countHi) + length >>> 29
  let firstpart := blocksize - index
  if firstpart ≤ input.length then
    let buffer := memcpy c.buffer index (input.take firstpart)
    -- A round of the loop takes more than one byte, so as many rounds as bytes are enough.
    let r := transformBlocks input input.length (transform c.state buffer) firstpart
    { c with buffer := memcpy buffer 0 (input.drop r.2), countLo := lo, countHi := hi, state := r.1 }
  else
    { c with buffer := memcpy c.buffer index input, countLo := lo, countHi := hi }

def padding : Bytes := 0x80 :: List.replicate 63 0

def finalize (c : MD5) : MD5 :=
  if c.finalized = true then c
  else
    let bits := encode [c.countLo, c.countHi]
    let index := c.countLo.toNat / 8 % blocksize
    let padLen := if index < 56 then 56 - index else 120 - index
    let c := (c.update (padding.take padLen)).update bits
    { c with
      digest := encode [c.state.a, c.state.b, c.state.c, c.state.d]
      buffer := List.replicate blocksize 0
      countLo := 0
      countHi := 0
      finalized := true }

def hexdigest (c : MD5) : Bytes :=
  if c.finalized = true then c.digest.flatMap fun b => [Md5.hexDigit (b / 16), Md5.hexDigit (b % 16)]
  else []

end MD5

def md5 (str : Bytes) : Bytes := ((MD5.init.update str).finalize).hexdigest

end NetDisk
