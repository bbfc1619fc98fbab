import BlobDepot.Encoding.Value
import BlobDepot.Record

/-!
# Digests
-/

/-!
## SHA-256

The digest that names an object. A message is padded to whole blocks of 64 bytes, and each block is
mixed into a state of eight words.
-/

namespace BlobDepot.Digest.Sha256

structure State where
  a : UInt32
  b : UInt32
  c : UInt32
  d : UInt32
  e : UInt32
  f : UInt32
  g : UInt32
  h : UInt32
  deriving DecidableEq

def State.initial : State :=
  ⟨0x6a09e667, 0xbb67ae85, 0x3c6ef372, 0xa54ff53a, 0x510e527f, 0x9b05688c, 0x1f83d9ab, 0x5be0cd19⟩

def roundConstants : List UInt32 :=
  [0x428a2f98, 0x71374491, 0xb5c0fbcf, 0xe9b5dba5, 0x3956c25b, 0x59f111f1, 0x923f82a4, 0xab1c5ed5,
    0xd807aa98, 0x12835b01, 0x243185be, 0x550c7dc3, 0x72be5d74, 0x80deb1fe, 0x9bdc06a7, 0xc19bf174,
    0xe49b69c1, 0xefbe4786, 0x0fc19dc6, 0x240ca1cc, 0x2de92c6f, 0x4a7484aa, 0x5cb0a9dc, 0x76f988da,
    0x983e5152, 0xa831c66d, 0xb00327c8, 0xbf597fc7, 0xc6e00bf3, 0xd5a79147, 0x06ca6351, 0x14292967,
    0x27b70a85, 0x2e1b2138, 0x4d2c6dfc, 0x53380d13, 0x650a7354, 0x766a0abb, 0x81c2c92e, 0x92722c85,
    0xa2bfe8a1, 0xa81a664b, 0xc24b8b70, 0xc76c51a3, 0xd192e819, 0xd6990624, 0xf40e3585, 0x106aa070,
    0x19a4c116, 0x1e376c08, 0x2748774c, 0x34b0bcb5, 0x391c0cb3, 0x4ed8aa4a, 0x5b9cca4f, 0x682e6ff3,
    0x748f82ee, 0x78a5636f, 0x84c87814, 0x8cc70208, 0x90befffa, 0xa4506ceb, 0xbef9a3f7, 0xc67178f2]

def rotate (x : UInt32) (n : UInt32) : UInt32 :=
  (x >>> n) ||| (x <<< (32 - n))

/-! ### Blocks -/

def byteAt (data : ByteArray) (i : Nat) : UInt8 :=
  if h : i < data.size then data[i] else 0

/-- Four bytes as a number, the first one weighing most. -/
def wordAt (data : ByteArray) (i : Nat) : UInt32 :=
  ((byteAt data i).toUInt32 <<< 24) ||| ((byteAt data (i + 1)).toUInt32 <<< 16) |||
    ((byteAt data (i + 2)).toUInt32 <<< 8) ||| (byteAt data (i + 3)).toUInt32

def blockWords (data : ByteArray) (start : Nat) : Nat → Array UInt32 → Array UInt32
  | 0, w => w
  | n + 1, w => blockWords data (start + 4) n (w.push (wordAt data start))

/-- The word that follows the first `t` words of the schedule. -/
def nextWord (w : Array UInt32) (t : Nat) : UInt32 :=
  let x := w.getD (t - 15) 0
  let y := w.getD (t - 2) 0
  let small0 := rotate x 7 ^^^ rotate x 18 ^^^ (x >>> 3)
  let small1 := rotate y 17 ^^^ rotate y 19 ^^^ (y >>> 10)
  w.getD (t - 16) 0 + small0 + w.getD (t - 7) 0 + small1

def extend (t : Nat) : Nat → Array UInt32 → Array UInt32
  | 0, w => w
  | n + 1, w => extend (t + 1) n (w.push (nextWord w t))

def State.round (s : State) (k w : UInt32) : State :=
  let big1 := rotate s.e 6 ^^^ rotate s.e 11 ^^^ rotate s.e 25
  let choice := (s.e &&& s.f) ^^^ (~~~s.e &&& s.g)
  let t1 := s.h + big1 + choice + k + w
  let big0 := rotate s.a 2 ^^^ rotate s.a 13 ^^^ rotate s.a 22
  let majority := (s.a &&& s.b) ^^^ (s.a &&& s.c) ^^^ (s.b &&& s.c)
  ⟨t1 + big0 + majority, s.a, s.b, s.c, s.d + t1, s.e, s.f, s.g⟩

def rounds (w : Array UInt32) : List UInt32 → Nat → State → State
  | [], _, s => s
  | k :: ks, t, s => rounds w ks (t + 1) (s.round k (w.getD t 0))

def State.add (s t : State) : State :=
  ⟨s.a + t.a, s.b + t.b, s.c + t.c, s.d + t.d, s.e + t.e, s.f + t.f, s.g + t.g, s.h + t.h⟩

def compress (s : State) (data : ByteArray) (start : Nat) : State :=
  let w := extend 16 48 (blockWords data start 16 (Array.emptyWithCapacity 64))
  s.add (rounds w roundConstants 0 s)

def absorb (data : ByteArray) (start : Nat) : Nat → State → State
  | 0, s => s
  | n + 1, s => absorb data (start + 64) n (compress s data start)

/-! ### Messages -/

/-- The `width` lowest bytes of a number, the highest of them first. -/
def bigEndian (n : Nat) : Nat → List UInt8
  | 0 => []
  | width + 1 => UInt8.ofNat (n / Nat.pow 256 width) :: bigEndian n width

/-- A one bit, zeros, and the number of bits in eight bytes complete the last block. -/
def padding (size : Nat) : List UInt8 :=
  128 :: (List.replicate ((119 - size % 64) % 64) 0 ++ bigEndian (8 * size) 8)

def pad (data : ByteArray) : ByteArray :=
  (padding data.size).foldl ByteArray.push data

def State.bytes (s : State) : List UInt8 :=
  [s.a, s.b, s.c, s.d, s.e, s.f, s.g, s.h].flatMap fun w => bigEndian w.toNat 4

theorem State.length_bytes (s : State) : s.bytes.length = 32 := by
  simp [State.bytes, bigEndian]

def hash (data : ByteArray) : State :=
  let padded := pad data
  absorb padded 0 (padded.size / 64) .initial

end BlobDepot.Digest.Sha256

namespace BlobDepot

def Oid.ofContent (data : ByteArray) : Oid :=
  let s := Digest.Sha256.hash data
  ⟨s.bytes, s.length_bytes⟩

end BlobDepot

/-!
## BLAKE2b

The unkeyed hash with digests of one to 64 bytes. Blocks of 128 bytes are mixed into a state of
eight words.
-/

namespace BlobDepot.Digest.Blake2b

def initial : Array UInt64 :=
  #[0x6a09e667f3bcc908, 0xbb67ae8584caa73b, 0x3c6ef372fe94f82b, 0xa54ff53a5f1d36f1,
    0x510e527fade682d1, 0x9b05688c2b3e6c1f, 0x1f83d9abfb41bd6b, 0x5be0cd19137e2179]

/-- The order in which each of the twelve rounds takes the words of a block. -/
def wordOrders : List (Array Nat) :=
  let orders : List (Array Nat) :=
    [#[0, 1, 2, 3, 4, 5, 6, 7, 8, 9, 10, 11, 12, 13, 14, 15],
      #[14, 10, 4, 8, 9, 15, 13, 6, 1, 12, 0, 2, 11, 7, 5, 3],
      #[11, 8, 12, 0, 5, 2, 15, 13, 10, 14, 3, 6, 7, 1, 9, 4],
      #[7, 9, 3, 1, 13, 12, 11, 14, 2, 6, 5, 10, 4, 0, 15, 8],
      #[9, 0, 5, 7, 2, 4, 10, 15, 14, 1, 11, 12, 6, 8, 3, 13],
      #[2, 12, 6, 10, 0, 11, 8, 3, 4, 13, 7, 5, 15, 14, 1, 9],
      #[12, 5, 1, 15, 14, 13, 4, 10, 0, 7, 6, 3, 9, 2, 8, 11],
      #[13, 11, 7, 14, 12, 1, 3, 9, 5, 0, 15, 4, 8, 6, 2, 10],
      #[6, 15, 14, 9, 11, 3, 0, 8, 12, 2, 13, 7, 1, 4, 10, 5],
      #[10, 2, 8, 4, 7, 6, 1, 5, 15, 11, 9, 14, 3, 12, 13, 0]]
  orders ++ orders.take 2

/-- The columns and then the diagonals of the four by four words. -/
def lines : List (Nat × Nat × Nat × Nat) :=
  [(0, 4, 8, 12), (1, 5, 9, 13), (2, 6, 10, 14), (3, 7, 11, 15),
    (0, 5, 10, 15), (1, 6, 11, 12), (2, 7, 8, 13), (3, 4, 9, 14)]

def rotate (x : UInt64) (n : UInt64) : UInt64 :=
  (x >>> n) ||| (x <<< (64 - n))

/-! ### Mixing -/

def mix (v : Array UInt64) (line : Nat × Nat × Nat × Nat) (x y : UInt64) : Array UInt64 :=
  let (i, j, k, l) := line
  let a := v.getD i 0 + v.getD j 0 + x
  let d := rotate (v.getD l 0 ^^^ a) 32
  let c := v.getD k 0 + d
  let b := rotate (v.getD j 0 ^^^ c) 24
  let a := a + b + y
  let d := rotate (d ^^^ a) 16
  let c := c + d
  let b := rotate (b ^^^ c) 63
  (((v.setIfInBounds i a).setIfInBounds j b).setIfInBounds k c).setIfInBounds l d

def round (block : Array UInt64) (v : Array UInt64) (order : Array Nat) : Array UInt64 :=
  lines.zipIdx.foldl (fun v p =>
    mix v p.1 (block.getD (order.getD (2 * p.2) 0) 0) (block.getD (order.getD (2 * p.2 + 1) 0) 0)) v

/-- Mixes one block into the state; `count` bytes of the message have been taken with it. -/
def compress (h block : Array UInt64) (count : Nat) (last : Bool) : Array UInt64 :=
  let v := h ++ initial
  let v := v.setIfInBounds 12 (v.getD 12 0 ^^^ UInt64.ofNat count)
  let v := v.setIfInBounds 13 (v.getD 13 0 ^^^ UInt64.ofNat (count / (Word.maxNat64 + 1)))
  let v := if last then v.setIfInBounds 14 (~~~v.getD 14 0) else v
  let v := wordOrders.foldl (round block) v
  h.mapIdx fun i x => x ^^^ v.getD i 0 ^^^ v.getD (i + 8) 0

/-! ### Messages -/

/-- Up to eight bytes as a number, the first one weighing least. -/
def wordOf : List UInt8 → UInt64
  | [] => 0
  | b :: r => b.toUInt64 ||| (wordOf r <<< 8)

/-- The first `n` words of a list of bytes, which zeros complete. -/
def wordsOf : Nat → List UInt8 → List UInt64
  | 0, _ => []
  | n + 1, l => wordOf (l.take 8) :: wordsOf n (l.drop 8)

/-- The `width` lowest bytes of a number, the lowest of them first. -/
def littleEndian (n : Nat) : Nat → List UInt8
  | 0 => []
  | width + 1 => UInt8.ofNat n :: littleEndian (n / 256) width

def absorb (h : Array UInt64) (count : Nat) (l : List UInt8) : Array UInt64 :=
  let block := (wordsOf 16 l).toArray
  if long : 128 < l.length then
    absorb (compress h block (count + 128) false) (count + 128) (l.drop 128)
  else compress h block (count + l.length) true
termination_by l.length
decreasing_by rw [List.length_drop]; omega

/-- The digest of `size` bytes. -/
def hash (size : Nat) (l : List UInt8) : List UInt8 :=
  let h := initial.modify 0 (· ^^^ 0x01010000 ^^^ UInt64.ofNat size)
  ((absorb h 0 l).toList.flatMap fun w => littleEndian w.toNat 8).take size

end BlobDepot.Digest.Blake2b
