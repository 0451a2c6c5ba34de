/-!
# Digests

A message is padded to blocks of 64 bytes, which are read as words of 32 bits in either byte order. Each block is mixed
into the words of a state.
-/

namespace SmallScript.Text.Digest

/-- The bytes of a number, least first. -/
def littleBytes : Nat → Nat → List UInt8
  | 0, _ => []
  | n + 1, x => UInt8.ofNat x :: littleBytes n (x / 256)

/-- A message followed by a one bit, zeros and its length in bits in eight bytes. -/
def padded (message : List UInt8) (lengthBytes : List UInt8) : List UInt8 :=
  let zeros := (119 - message.length % 64) % 64
  message ++ 0x80 :: List.replicate zeros 0 ++ lengthBytes

def bigWord (a b c d : UInt8) : UInt32 :=
  a.toUInt32 <<< 24 ||| b.toUInt32 <<< 16 ||| c.toUInt32 <<< 8 ||| d.toUInt32

def wordsOf (word : UInt8 → UInt8 → UInt8 → UInt8 → UInt32) : List UInt8 → List UInt32
  | a :: b :: c :: d :: rest => word a b c d :: wordsOf word rest
  | _ => []

def rotl (x : UInt32) (n : UInt32) : UInt32 := x <<< n ||| x >>> (32 - n)

def rotr (x : UInt32) (n : UInt32) : UInt32 := x >>> n ||| x <<< (32 - n)

/-- Splits words into blocks of sixteen. The first argument bounds the number of blocks. -/
def blocks : Nat → List UInt32 → List (List UInt32)
  | 0, _ => []
  | _ + 1, [] => []
  | n + 1, ws => ws.take 16 :: blocks n (ws.drop 16)

def allBlocks (ws : List UInt32) : List (List UInt32) := blocks ws.length ws

def byteText (b : UInt8) : List Char :=
  let digit (n : Nat) : Char := "0123456789abcdef".toList.getD n '0'
  [digit (b.toNat / 16), digit (b.toNat % 16)]

/-- Hexadecimal text of words, each word's highest byte first. -/
def bigText (ws : List UInt32) : String :=
  String.ofList (ws.flatMap fun w => (littleBytes 4 w.toNat).reverse.flatMap byteText)

/-- Hexadecimal text of words, each word's lowest byte first. -/
def littleText (ws : List UInt32) : String :=
  String.ofList (ws.flatMap fun w => (littleBytes 4 w.toNat).flatMap byteText)

/-! ## SHA-1: five words, each block extended to 80 words, in 80 rounds -/

def sha1Schedule (block : List UInt32) : Array UInt32 :=
  (List.range 64).foldl (fun w i =>
    let i := i + 16
    w.push (rotl (w.getD (i - 3) 0 ^^^ w.getD (i - 8) 0 ^^^ w.getD (i - 14) 0 ^^^ w.getD (i - 16) 0) 1))
    block.toArray

def sha1Mix (i : Nat) (b c d : UInt32) : UInt32 × UInt32 :=
  if i < 20 then ((b &&& c) ||| (~~~b &&& d), 0x5a827999)
  else if i < 40 then (b ^^^ c ^^^ d, 0x6ed9eba1)
  else if i < 60 then ((b &&& c) ||| (b &&& d) ||| (c &&& d), 0x8f1bbcdc)
  else (b ^^^ c ^^^ d, 0xca62c1d6)

structure Sha1State where
  a : UInt32
  b : UInt32
  c : UInt32
  d : UInt32
  e : UInt32

def sha1Round (schedule : Array UInt32) (s : Sha1State) (i : Nat) : Sha1State :=
  let (f, k) := sha1Mix i s.b s.c s.d
  ⟨rotl s.a 5 + f + s.e + k + schedule.getD i 0, s.a, rotl s.b 30, s.c, s.d⟩

def sha1Block (s : Sha1State) (block : List UInt32) : Sha1State :=
  let t := (List.range 80).foldl (sha1Round (sha1Schedule block)) s
  ⟨s.a + t.a, s.b + t.b, s.c + t.c, s.d + t.d, s.e + t.e⟩

def sha1 (message : List UInt8) : String :=
  let words := wordsOf bigWord (padded message (littleBytes 8 (8 * message.length)).reverse)
  let s := (allBlocks words).foldl sha1Block
    ⟨0x67452301, 0xefcdab89, 0x98badcfe, 0x10325476, 0xc3d2e1f0⟩
  bigText [s.a, s.b, s.c, s.d, s.e]

/-! ## MD5: four words, in 64 rounds -/

def md5Shifts : List UInt32 :=
  [[7, 12, 17, 22], [5, 9, 14, 20], [4, 11, 16, 23], [6, 10, 15, 21]].flatMap fun s => s ++ s ++ s ++ s

def md5Table : List UInt32 := [
  0xd76aa478,0xe8c7b756,0x242070db, 0xc1bdceee, 0xf57c0faf, 0x4787c62a, 0xa8304613,0xfd469501,
  0x698098d8,0x8b44f7af, 0xffff5bb1,0x895cd7be, 0x6b901122,0xfd987193,0xa679438e, 0x49b40821,
  0xf61e2562,0xc040b340,0x265e5a51,0xe9b6c7aa, 0xd62f105d, 0x02441453,0xd8a1e681,0xe7d3fbc8,
  0x21e1cde6,0xc33707d6,0xf4d50d87,0x455a14ed, 0xa9e3e905,0xfcefa3f8,0x676f02d9,0x8d2a4c8a,
  0xfffa3942,0x8771f681,0x6d9d6122,0xfde5380c, 0xa4beea44,0x4bdecfa9,0xf6bb4b60,0xbebfbc70,
  0x289b7ec6,0xeaa127fa, 0xd4ef3085,0x04881d05,0xd9d4d039,0xe6db99e5,0x1fa27cf8,0xc4ac5665,
  0xf4292244,0x432aff97,0xab9423a7,0xfc93a039,0x655b59c3,0x8f0ccc92,0xffeff47d, 0x85845dd1,
  0x6fa87e4f, 0xfe2ce6e0, 0xa3014314, 0x4e0811a1, 0xf7537e82, 0xbd3af235, 0x2ad7d2bb, 0xeb86d391]

/-- The mixing function of a round and the word of the block that it takes. -/
def md5Mix (i : Nat) (b c d : UInt32) : UInt32 × Nat :=
  if i < 16 then ((b &&& c) ||| (~~~b &&& d), i)
  else if i < 32 then ((d &&& b) ||| (~~~d &&& c), (5 * i + 1) % 16)
  else if i < 48 then (b ^^^ c ^^^ d, (3 * i + 5) % 16)
  else (c ^^^ (b ||| ~~~d), (7 * i) % 16)

structure Md5State where
  a : UInt32
  b : UInt32
  c : UInt32
  d : UInt32

def md5Round (block : Array UInt32) (s : Md5State) (i : Nat) (shift constant : UInt32) : Md5State :=
  let (f, g) := md5Mix i s.b s.c s.d
  let f := f + s.a + constant + block.getD g 0
  ⟨s.d, s.b + rotl f shift, s.b, s.c⟩

def md5Block (s : Md5State) (block : List UInt32) : Md5State :=
  let words := block.toArray
  let t := ((List.range 64).zip (md5Shifts.zip md5Table)).foldl
    (fun t r => md5Round words t r.1 r.2.1 r.2.2) s
  ⟨s.a + t.a, s.b + t.b, s.c + t.c, s.d + t.d⟩

def md5 (message : List UInt8) : String :=
  let bytes := padded message (littleBytes 8 (8 * message.length))
  let words := wordsOf (fun a b c d => bigWord d c b a) bytes
  let s := (allBlocks words).foldl md5Block ⟨0x67452301, 0xefcdab89, 0x98badcfe, 0x10325476⟩
  littleText [s.a, s.b, s.c, s.d]

/-! ## SHA-256: eight words, each block extended to 64 words, in 64 rounds -/

def sha256Table : Array UInt32 := #[
  0x428a2f98,0x71374491,0xb5c0fbcf, 0xe9b5dba5,0x3956c25b, 0x59f111f1,0x923f82a4,0xab1c5ed5,
  0xd807aa98,0x12835b01,0x243185be, 0x550c7dc3,0x72be5d74,0x80deb1fe, 0x9bdc06a7,0xc19bf174,
  0xe49b69c1,0xefbe4786,0x0fc19dc6,0x240ca1cc, 0x2de92c6f, 0x4a7484aa, 0x5cb0a9dc, 0x76f988da,
  0x983e5152,0xa831c66d, 0xb00327c8,0xbf597fc7,0xc6e00bf3,0xd5a79147,0x06ca6351,0x14292967,
  0x27b70a85,0x2e1b2138,0x4d2c6dfc, 0x53380d13,0x650a7354,0x766a0abb, 0x81c2c92e, 0x92722c85,
  0xa2bfe8a1,0xa81a664b, 0xc24b8b70,0xc76c51a3,0xd192e819,0xd6990624,0xf40e3585,0x106aa070,
  0x19a4c116,0x1e376c08,0x2748774c, 0x34b0bcb5,0x391c0cb3,0x4ed8aa4a, 0x5b9cca4f, 0x682e6ff3,
  0x748f82ee, 0x78a5636f, 0x84c87814, 0x8cc70208, 0x90befffa, 0xa4506ceb, 0xbef9a3f7, 0xc67178f2]

def sha256Schedule (block : List UInt32) : Array UInt32 :=
  (List.range 48).foldl (fun w i =>
    let i := i + 16
    let x := w.getD (i - 15) 0
    let y := w.getD (i - 2) 0
    let s0 := rotr x 7 ^^^ rotr x 18 ^^^ x >>> 3
    let s1 := rotr y 17 ^^^ rotr y 19 ^^^ y >>> 10
    w.push (w.getD (i - 16) 0 + s0 + w.getD (i - 7) 0 + s1)) block.toArray

structure Sha256State where
  a : UInt32
  b : UInt32
  c : UInt32
  d : UInt32
  e : UInt32
  f : UInt32
  g : UInt32
  h : UInt32

def sha256Round (schedule : Array UInt32) (s : Sha256State) (i : Nat) : Sha256State :=
  let s1 := rotr s.e 6 ^^^ rotr s.e 11 ^^^ rotr s.e 25
  let ch := (s.e &&& s.f) ^^^ (~~~s.e &&& s.g)
  let t1 := s.h + s1 + ch + sha256Table.getD i 0 + schedule.getD i 0
  let s0 := rotr s.a 2 ^^^ rotr s.a 13 ^^^ rotr s.a 22
  let maj := (s.a &&& s.b) ^^^ (s.a &&& s.c) ^^^ (s.b &&& s.c)
  ⟨t1 + s0 + maj, s.a, s.b, s.c, s.d + t1, s.e, s.f, s.g⟩

def sha256Block (s : Sha256State) (block : List UInt32) : Sha256State :=
  let t := (List.range 64).foldl (sha256Round (sha256Schedule block)) s
  ⟨s.a + t.a, s.b + t.b, s.c + t.c, s.d + t.d, s.e + t.e, s.f + t.f, s.g + t.g, s.h + t.h⟩

def sha256 (message : List UInt8) : String :=
  let words := wordsOf bigWord (padded message (littleBytes 8 (8 * message.length)).reverse)
  let s := (allBlocks words).foldl sha256Block
    ⟨0x6a09e667, 0xbb67ae85, 0x3c6ef372, 0xa54ff53a, 0x510e527f, 0x9b05688c, 0x1f83d9ab, 0x5be0cd19⟩
  bigText [s.a, s.b, s.c, s.d, s.e, s.f, s.g, s.h]

end SmallScript.Text.Digest
