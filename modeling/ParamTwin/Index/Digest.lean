/-!
# XXH3 digests of 64 bits

The hash XXH3 with seed zero and its default secret, over all lengths of input. Words are read with
the least significant byte first, and arithmetic wraps at 64 bits.
-/

namespace ParamTwin.Digest

/-- The default secret. -/
def secret : ByteArray := ⟨#[
  0xb8, 0xfe, 0x6c, 0x39, 0x23, 0xa4, 0x4b, 0xbe, 0x7c, 0x01, 0x81, 0x2c, 0xf7, 0x21, 0xad, 0x1c,
  0xde, 0xd4, 0x6d, 0xe9, 0x83, 0x90, 0x97, 0xdb, 0x72, 0x40, 0xa4, 0xa4, 0xb7, 0xb3, 0x67, 0x1f,
  0xcb, 0x79, 0xe6, 0x4e, 0xcc, 0xc0, 0xe5, 0x78, 0x82, 0x5a, 0xd0, 0x7d, 0xcc, 0xff, 0x72, 0x21,
  0xb8, 0x08, 0x46, 0x74, 0xf7, 0x43, 0x24, 0x8e, 0xe0, 0x35, 0x90, 0xe6, 0x81, 0x3a, 0x26, 0x4c,
  0x3c, 0x28, 0x52, 0xbb, 0x91, 0xc3, 0x00, 0xcb, 0x88, 0xd0, 0x65, 0x8b, 0x1b, 0x53, 0x2e, 0xa3,
  0x71, 0x64, 0x48, 0x97, 0xa2, 0x0d, 0xf9, 0x4e, 0x38, 0x19, 0xef, 0x46, 0xa9, 0xde, 0xac, 0xd8,
  0xa8, 0xfa, 0x76, 0x3f, 0xe3, 0x9c, 0x34, 0x3f, 0xf9, 0xdc, 0xbb, 0xc7, 0xc7, 0x0b, 0x4f, 0x1d,
  0x8a, 0x51, 0xe0, 0x4b, 0xcd, 0xb4, 0x59, 0x31, 0xc8, 0x9f, 0x7e, 0xc9, 0xd9, 0x78, 0x73, 0x64,
  0xea, 0xc5, 0xac, 0x83, 0x34, 0xd3, 0xeb, 0xc3, 0xc5, 0x81, 0xa0, 0xff, 0xfa, 0x13, 0x63, 0xeb,
  0x17, 0x0d, 0xdd, 0x51, 0xb7, 0xf0, 0xda, 0x49, 0xd3, 0x16, 0x55, 0x26, 0x29, 0xd4, 0x68, 0x9e,
  0x2b, 0x16, 0xbe, 0x58, 0x7d, 0x47, 0xa1, 0xfc, 0x8f, 0xf8, 0xb8, 0xd1, 0x7a, 0xd0, 0x31, 0xce,
  0x45, 0xcb, 0x3a, 0x8f, 0x95, 0x16, 0x04, 0x28, 0xaf, 0xd7, 0xfb, 0xca, 0xbb, 0x4b, 0x40, 0x7e]⟩

def prime32₁ : UInt64 := 0x9E3779B1
def prime32₂ : UInt64 := 0x85EBCA77
def prime32₃ : UInt64 := 0xC2B2AE3D
def prime64₁ : UInt64 := 0x9E3779B185EBCA87
def prime64₂ : UInt64 := 0xC2B2AE3D27D4EB4F
def prime64₃ : UInt64 := 0x165667B19E3779F9
def prime64₄ : UInt64 := 0x85EBCA77C2B2AE63
def prime64₅ : UInt64 := 0x27D4EB2F165667C5
def mixPrime : UInt64 := 0x165667919E3779F9
def shortPrime : UInt64 := 0x9FB21C651E98DF25

/-! ## Words -/

/-- The byte at an index, zero past the end. -/
def byteAt (b : ByteArray) (i : Nat) : UInt64 :=
  match b.data[i]? with
  | some x => x.toUInt64
  | none => 0

/-- The word of four bytes from an index. -/
def word32 (b : ByteArray) (i : Nat) : UInt64 :=
  byteAt b i ||| byteAt b (i + 1) <<< 8 ||| byteAt b (i + 2) <<< 16 ||| byteAt b (i + 3) <<< 24

/-- The word of eight bytes from an index. -/
def word64 (b : ByteArray) (i : Nat) : UInt64 :=
  word32 b i ||| word32 b (i + 4) <<< 32

/-- The word turned to the left by `k` bits, `0 < k < 64`. -/
def rotateLeft (x : UInt64) (k : UInt64) : UInt64 :=
  x <<< k ||| x >>> (64 - k)

/-- The bytes of a word in reverse order. -/
def swapBytes (x : UInt64) : UInt64 :=
  let x := (x &&& 0x00FF00FF00FF00FF) <<< 8 ||| (x >>> 8) &&& 0x00FF00FF00FF00FF
  let x := (x &&& 0x0000FFFF0000FFFF) <<< 16 ||| (x >>> 16) &&& 0x0000FFFF0000FFFF
  x <<< 32 ||| x >>> 32

/-- The exclusive or of the two halves of the full product. -/
def foldProduct (a b : UInt64) : UInt64 :=
  let p := a.toNat * b.toNat
  UInt64.ofNat (p % Nat.pow 2 64) ^^^ UInt64.ofNat (p / Nat.pow 2 64)

/-- The final mixing of most results. -/
def avalanche (h : UInt64) : UInt64 :=
  let h := (h ^^^ h >>> 37) * mixPrime
  h ^^^ h >>> 32

/-- The final mixing of short inputs. -/
def avalancheShort (h : UInt64) : UInt64 :=
  let h := (h ^^^ h >>> 33) * prime64₂
  let h := (h ^^^ h >>> 29) * prime64₃
  h ^^^ h >>> 32

/-! ## Up to sixteen bytes -/

/-- The digest of one to three bytes. -/
def upTo3 (b : ByteArray) : UInt64 :=
  let n := b.size
  let combined := byteAt b 0 <<< 16 ||| byteAt b (n / 2) <<< 24 ||| byteAt b (n - 1) |||
    UInt64.ofNat n <<< 8
  avalancheShort (combined ^^^ (word32 secret 0 ^^^ word32 secret 4))

/-- The digest of four to eight bytes. -/
def upTo8 (b : ByteArray) : UInt64 :=
  let n := b.size
  let first := word32 b 0
  let last := word32 b (n - 4)
  let h := (last + first <<< 32) ^^^ (word64 secret 8 ^^^ word64 secret 16)
  let h := (h ^^^ rotateLeft h 49 ^^^ rotateLeft h 24) * shortPrime
  let h := (h ^^^ (h >>> 35) + UInt64.ofNat n) * shortPrime
  h ^^^ h >>> 28

/-- The digest of nine to sixteen bytes. -/
def upTo16 (b : ByteArray) : UInt64 :=
  let n := b.size
  let low := word64 b 0 ^^^ (word64 secret 24 ^^^ word64 secret 32)
  let high := word64 b (n - 8) ^^^ (word64 secret 40 ^^^ word64 secret 48)
  avalanche (UInt64.ofNat n + swapBytes low + high + foldProduct low high)

/-! ## Up to 240 bytes -/

/-- The mix of sixteen bytes of input with sixteen of the secret. -/
def mix16 (b : ByteArray) (i j : Nat) : UInt64 :=
  foldProduct (word64 b i ^^^ word64 secret j) (word64 b (i + 8) ^^^ word64 secret (j + 8))

/-- The digest of 17 to 128 bytes: pairs of blocks from both ends. -/
def upTo128 (b : ByteArray) : UInt64 :=
  let n := b.size
  let rounds := (n - 1) / 32 + 1
  let h := (List.range rounds).foldl
    (fun h i => h + mix16 b (16 * i) (32 * i) + mix16 b (n - 16 * (i + 1)) (32 * i + 16))
    (UInt64.ofNat n * prime64₁)
  avalanche h

/-- The digest of 129 to 240 bytes. -/
def upTo240 (b : ByteArray) : UInt64 :=
  let n := b.size
  let h := (List.range 8).foldl (fun h i => h + mix16 b (16 * i) (16 * i))
    (UInt64.ofNat n * prime64₁)
  let h := avalanche h
  let h := (List.range (n / 16 - 8)).foldl
    (fun h i => h + mix16 b (16 * (i + 8)) (16 * i + 3)) h
  avalanche (h + mix16 b (n - 16) (136 - 17))

/-! ## Long inputs -/

/-- The eight lanes before the first stripe. -/
def initialLanes : List UInt64 :=
  [prime32₃, prime64₁, prime64₂, prime64₃, prime64₄, prime32₂, prime64₅, prime32₁]

/-- The lanes after 64 bytes from index `i`, with the secret from index `j`. -/
def accumulate (b : ByteArray) (i j : Nat) (lanes : List UInt64) : List UInt64 :=
  let value (k : Nat) := word64 b (i + 8 * k)
  lanes.zipIdx.map fun (lane, k) =>
    let keyed := value k ^^^ word64 secret (j + 8 * k)
    let other := value (if k % 2 = 0 then k + 1 else k - 1)
    let low : UInt64 := keyed &&& 0xFFFFFFFF
    lane + other + low * (keyed >>> 32)

/-- The lanes after a full block. -/
def scramble (lanes : List UInt64) : List UInt64 :=
  lanes.zipIdx.map fun (lane, k) =>
    (lane ^^^ lane >>> 47 ^^^ word64 secret (192 - 64 + 8 * k)) * prime32₁

/-- The stripes of a block. -/
def stripesPerBlock : Nat := (192 - 64) / 8

/-- The lanes after `count` stripes from index `i`. -/
def accumulateStripes (b : ByteArray) (i count : Nat) (lanes : List UInt64) : List UInt64 :=
  (List.range count).foldl (fun lanes s => accumulate b (i + 64 * s) (8 * s) lanes) lanes

/-- The lanes merged in pairs with the secret from index `j`. -/
def merge (lanes : List UInt64) (j : Nat) (start : UInt64) : UInt64 :=
  let lane (k : Nat) := lanes.getD k 0
  let h := (List.range 4).foldl (fun h i =>
    h + foldProduct (lane (2 * i) ^^^ word64 secret (j + 16 * i))
      (lane (2 * i + 1) ^^^ word64 secret (j + 16 * i + 8))) start
  avalanche h

/-- The digest of more than 240 bytes. -/
def long (b : ByteArray) : UInt64 :=
  let n := b.size
  let block := 64 * stripesPerBlock
  let blocks := (n - 1) / block
  let lanes := (List.range blocks).foldl
    (fun lanes i => scramble (accumulateStripes b (block * i) stripesPerBlock lanes)) initialLanes
  let stripes := (n - 1 - block * blocks) / 64
  let lanes := accumulateStripes b (block * blocks) stripes lanes
  let lanes := accumulate b (n - 64) (192 - 64 - 7) lanes
  merge lanes 11 (UInt64.ofNat n * prime64₁)

/-- The digest of a sequence of bytes. -/
def xxh3 (b : ByteArray) : UInt64 :=
  let n := b.size
  if n = 0 then avalancheShort (word64 secret 56 ^^^ word64 secret 64)
  else if n ≤ 3 then upTo3 b
  else if n ≤ 8 then upTo8 b
  else if n ≤ 16 then upTo16 b
  else if n ≤ 128 then upTo128 b
  else if n ≤ 240 then upTo240 b
  else long b

/-- A word as sixteen hexadecimal digits in lower case. -/
def hex (x : UInt64) : String :=
  String.ofList ((List.range 16).map fun i => Nat.digitChar (x.toNat / Nat.pow 16 (15 - i) % 16))

end ParamTwin.Digest
