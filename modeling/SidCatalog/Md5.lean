import SidCatalog.Text.Utf8

/-! The MD5 message digest. A `Hasher` takes its input byte by byte and compresses whenever a block of
64 bytes is full, so feeding it in pieces or at once makes no difference. -/

namespace SidCatalog.Md5

structure State where
  a : UInt32 := 0x67452301
  b : UInt32 := 0xefcdab89
  c : UInt32 := 0x98badcfe
  d : UInt32 := 0x10325476
deriving DecidableEq, Repr

/-- The whole parts of 2 ^ 32 times the absolute sine of 1, 2, …, 64. -/
def sines : Vector UInt32 64 :=
  #v[0xd76aa478, 0xe8c7b756, 0x242070db, 0xc1bdceee, 0xf57c0faf, 0x4787c62a,
    0xa8304613, 0xfd469501, 0x698098d8, 0x8b44f7af, 0xffff5bb1, 0x895cd7be,
    0x6b901122, 0xfd987193, 0xa679438e, 0x49b40821, 0xf61e2562, 0xc040b340,
    0x265e5a51, 0xe9b6c7aa, 0xd62f105d, 0x02441453, 0xd8a1e681, 0xe7d3fbc8,
    0x21e1cde6, 0xc33707d6, 0xf4d50d87, 0x455a14ed, 0xa9e3e905, 0xfcefa3f8,
    0x676f02d9, 0x8d2a4c8a, 0xfffa3942, 0x8771f681, 0x6d9d6122, 0xfde5380c,
    0xa4beea44, 0x4bdecfa9, 0xf6bb4b60, 0xbebfbc70, 0x289b7ec6, 0xeaa127fa,
    0xd4ef3085, 0x04881d05, 0xd9d4d039, 0xe6db99e5, 0x1fa27cf8, 0xc4ac5665,
    0xf4292244, 0x432aff97, 0xab9423a7, 0xfc93a039, 0x655b59c3, 0x8f0ccc92,
    0xffeff47d, 0x85845dd1, 0x6fa87e4f, 0xfe2ce6e0, 0xa3014314, 0x4e0811a1,
    0xf7537e82, 0xbd3af235, 0x2ad7d2bb, 0xeb86d391]

/-- How far each step rotates: four amounts for each of the four rounds of sixteen steps. -/
def rotations : Vector UInt32 16 :=
  #v[7, 12, 17, 22, 5, 9, 14, 20, 4, 11, 16, 23, 6, 10, 15, 21]

def rotation (i : Fin 64) : UInt32 := rotations[Fin.ofNat 16 (i.val / 16 * 4 + i.val % 4)]

def wordIndex (i : Fin 64) : Fin 16 :=
  Fin.ofNat 16 <|
    match i.val / 16 with
    | 0 => i.val
    | 1 => 5 * i.val + 1
    | 2 => 3 * i.val + 5
    | _ => 7 * i.val

def mix (round : Nat) (b c d : UInt32) : UInt32 :=
  match round with
  | 0 => (b &&& c) ||| (~~~b &&& d)
  | 1 => (d &&& b) ||| (~~~d &&& c)
  | 2 => b ^^^ c ^^^ d
  | _ => c ^^^ (b ||| ~~~d)

def rotateLeft (x amount : UInt32) : UInt32 := (x <<< amount) ||| (x >>> (32 - amount))

def step (words : Vector UInt32 16) (s : State) (i : Fin 64) : State where
  a := s.d
  b := s.b + rotateLeft (s.a + mix (i.val / 16) s.b s.c s.d + sines[i] + words[wordIndex i]) (rotation i)
  c := s.b
  d := s.c

def littleEndian (b₀ b₁ b₂ b₃ : UInt8) : UInt32 :=
  b₀.toUInt32 ||| (b₁.toUInt32 <<< 8) ||| (b₂.toUInt32 <<< 16) ||| (b₃.toUInt32 <<< 24)

def blockWords (block : Array UInt8) : Vector UInt32 16 :=
  Vector.ofFn fun i =>
    let byte (k : Nat) := block.getD (4 * i.val + k) 0
    littleEndian (byte 0) (byte 1) (byte 2) (byte 3)

def compress (s : State) (block : Array UInt8) : State :=
  let t := (List.finRange 64).foldl (step (blockWords block)) s
  { a := s.a + t.a, b := s.b + t.b, c := s.c + t.c, d := s.d + t.d }

def wordBytes (w : UInt32) : Bytes :=
  [w.toUInt8, (w >>> 8).toUInt8, (w >>> 16).toUInt8, (w >>> 24).toUInt8]

def State.bytes (s : State) : Bytes :=
  wordBytes s.a ++ wordBytes s.b ++ wordBytes s.c ++ wordBytes s.d

theorem State.length_bytes (s : State) : s.bytes.length = 16 := rfl

structure Hasher where
  state : State := {}
  block : Array UInt8 := #[]
  size : Nat := 0

namespace Hasher

def push (h : Hasher) (b : UInt8) : Hasher :=
  let block := h.block.push b
  if block.size = 64 then { state := compress h.state block, block := #[], size := h.size + 1 }
  else { h with block, size := h.size + 1 }

def update (h : Hasher) (bs : Bytes) : Hasher := bs.foldl push h

@[simp] theorem update_nil (h : Hasher) : h.update [] = h := rfl

@[simp] theorem update_append (h : Hasher) (bs cs : Bytes) :
    h.update (bs ++ cs) = (h.update bs).update cs :=
  List.foldl_append

def lengthBytes (size : Nat) : Bytes :=
  (List.range 8).map fun i => UInt8.ofNat ((8 * size) >>> (8 * i))

/-- One set bit and zeros up to 56 bytes modulo 64, then the length. -/
def padding (size : Nat) : Bytes :=
  0x80 :: (List.replicate ((119 - size % 64) % 64) 0 ++ lengthBytes size)

def finish (h : Hasher) : State := (h.update (padding h.size)).state

end Hasher

end SidCatalog.Md5
