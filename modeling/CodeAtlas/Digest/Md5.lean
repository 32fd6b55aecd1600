import CodeAtlas.Digest.Hex

set_option autoImplicit false

/-! # The MD5 digest

Sixty-four steps over each block of sixteen little-endian words. Node identities are built from
this digest; nothing else about it is used than that it is a function of the key text.
-/

namespace CodeAtlas.Digest

structure Md5State where
  a : UInt32
  b : UInt32
  c : UInt32
  d : UInt32

/-- The constant added at each step: the fractional bits of the sines of 1, 2, … 64. -/
def md5Constants : List UInt32 := [
  0xd76aa478, 0xe8c7b756, 0x242070db, 0xc1bdceee,
  0xf57c0faf, 0x4787c62a, 0xa8304613, 0xfd469501,
  0x698098d8, 0x8b44f7af, 0xffff5bb1, 0x895cd7be,
  0x6b901122, 0xfd987193, 0xa679438e, 0x49b40821,
  0xf61e2562, 0xc040b340, 0x265e5a51, 0xe9b6c7aa,
  0xd62f105d, 0x02441453, 0xd8a1e681, 0xe7d3fbc8,
  0x21e1cde6, 0xc33707d6, 0xf4d50d87, 0x455a14ed,
  0xa9e3e905, 0xfcefa3f8, 0x676f02d9, 0x8d2a4c8a,
  0xfffa3942, 0x8771f681, 0x6d9d6122, 0xfde5380c,
  0xa4beea44, 0x4bdecfa9, 0xf6bb4b60, 0xbebfbc70,
  0x289b7ec6, 0xeaa127fa, 0xd4ef3085, 0x04881d05,
  0xd9d4d039, 0xe6db99e5, 0x1fa27cf8, 0xc4ac5665,
  0xf4292244, 0x432aff97, 0xab9423a7, 0xfc93a039,
  0x655b59c3, 0x8f0ccc92, 0xffeff47d, 0x85845dd1,
  0x6fa87e4f, 0xfe2ce6e0, 0xa3014314, 0x4e0811a1,
  0xf7537e82, 0xbd3af235, 0x2ad7d2bb, 0xeb86d391]

def md5Shifts : List UInt32 := [
  7, 12, 17, 22, 7, 12, 17, 22, 7, 12, 17, 22, 7, 12, 17, 22,
  5, 9, 14, 20, 5, 9, 14, 20, 5, 9, 14, 20, 5, 9, 14, 20,
  4, 11, 16, 23, 4, 11, 16, 23, 4, 11, 16, 23, 4, 11, 16, 23,
  6, 10, 15, 21, 6, 10, 15, 21, 6, 10, 15, 21, 6, 10, 15, 21]

def rotateLeft (x n : UInt32) : UInt32 := (x <<< n) ||| (x >>> (32 - n))

/-- Four bytes as a word, least significant byte first. -/
def wordOfBytes (b0 b1 b2 b3 : UInt8) : UInt32 :=
  b0.toUInt32 ||| (b1.toUInt32 <<< 8) ||| (b2.toUInt32 <<< 16) ||| (b3.toUInt32 <<< 24)

def bytesOfWord (w : UInt32) : Bytes :=
  [w.toUInt8, (w >>> 8).toUInt8, (w >>> 16).toUInt8, (w >>> 24).toUInt8]

/-- The words of a sequence of bytes; a remainder of less than four bytes is left off. -/
def wordsOfBytes : Bytes → List UInt32
  | b0 :: b1 :: b2 :: b3 :: rest => wordOfBytes b0 b1 b2 b3 :: wordsOfBytes rest
  | _ => []

/-- The message followed by the bit 1, zeros, and its length in bits as eight bytes, so that the
whole is a number of blocks. -/
def md5Pad (message : Bytes) : Bytes :=
  let n := message.length
  let zeros := (119 - n % 64) % 64
  let bits := 8 * n
  let lengthBytes : Bytes := (List.range 8).map fun i => UInt8.ofNat (bits >>> (8 * i) % 256)
  message ++ [0x80] ++ List.replicate zeros 0 ++ lengthBytes

/-- The mixing function of step `i` and the number of the word that it takes. -/
def md5Mix (i : Nat) (s : Md5State) : UInt32 × Nat :=
  if i < 16 then ((s.b &&& s.c) ||| ((~~~s.b) &&& s.d), i)
  else if i < 32 then ((s.d &&& s.b) ||| ((~~~s.d) &&& s.c), (5 * i + 1) % 16)
  else if i < 48 then (s.b ^^^ s.c ^^^ s.d, (3 * i + 5) % 16)
  else (s.c ^^^ (s.b ||| ~~~s.d), 7 * i % 16)

def md5Step (block : List UInt32) (s : Md5State) (step : Nat × UInt32 × UInt32) : Md5State :=
  let (mixed, word) := md5Mix step.1 s
  let sum := mixed + s.a + step.2.1 + block.getD word 0
  { a := s.d, b := s.b + rotateLeft sum step.2.2, c := s.b, d := s.c }

/-- All sixty-four steps, with the number, constant and shift of each. -/
def md5Steps : List (Nat × UInt32 × UInt32) :=
  (List.range 64).zip (md5Constants.zip md5Shifts)

def md5Block (s : Md5State) (block : List UInt32) : Md5State :=
  let t := md5Steps.foldl (md5Step block) s
  { a := s.a + t.a, b := s.b + t.b, c := s.c + t.c, d := s.d + t.d }

def md5Blocks : Nat → Md5State → List UInt32 → Md5State
  | 0, s, _ => s
  | n + 1, s, words => md5Blocks n (md5Block s (words.take 16)) (words.drop 16)

def md5 (message : Bytes) : Bytes :=
  let words := wordsOfBytes (md5Pad message)
  let s := md5Blocks (words.length / 16)
    { a := 0x67452301, b := 0xefcdab89, c := 0x98badcfe, d := 0x10325476 } words
  bytesOfWord s.a ++ bytesOfWord s.b ++ bytesOfWord s.c ++ bytesOfWord s.d

/-- The digest of a text's UTF-8 bytes in hexadecimal. -/
def md5Hex (t : Text) : Text := hex (md5 (Utf8.encode t))

end CodeAtlas.Digest
