import BlobDepot.Digest

/-!
# Argon2

The memory-hard function behind password hashes. A memory of blocks of 128 words is filled, each
block from its predecessor and from an earlier one that the contents or the position select.
-/

namespace BlobDepot.Password.Argon2

open BlobDepot.Digest.Blake2b (littleEndian wordsOf)

/-- How earlier blocks are selected: by contents, by position, or by position in the first half of
the first pass and by contents after it. -/
inductive Variant where
  | d
  | i
  | id
  deriving DecidableEq

def Variant.number : Variant → Nat
  | d => 0
  | i => 1
  | id => 2

/-- Later passes write over the memory, or mix into it. -/
inductive Version where
  | overwriting
  | mixing
  deriving DecidableEq

def Version.number : Version → Nat
  | overwriting => 16
  | mixing => 19

structure Cost where
  /-- In blocks of 1024 bytes. -/
  memory : Nat
  passes : Nat
  lanes : Nat
  deriving DecidableEq

/-! ## Blocks -/

structure Row where
  w0 : UInt64
  w1 : UInt64
  w2 : UInt64
  w3 : UInt64
  w4 : UInt64
  w5 : UInt64
  w6 : UInt64
  w7 : UInt64
  w8 : UInt64
  w9 : UInt64
  w10 : UInt64
  w11 : UInt64
  w12 : UInt64
  w13 : UInt64
  w14 : UInt64
  w15 : UInt64

structure Block where
  r0 : Row
  r1 : Row
  r2 : Row
  r3 : Row
  r4 : Row
  r5 : Row
  r6 : Row
  r7 : Row

namespace Row

def ofFn (f : Nat → UInt64) : Row :=
  ⟨f 0, f 1, f 2, f 3, f 4, f 5, f 6, f 7, f 8, f 9, f 10, f 11, f 12, f 13, f 14, f 15⟩

def words (x : Row) : List UInt64 :=
  [x.w0, x.w1, x.w2, x.w3, x.w4, x.w5, x.w6, x.w7,
    x.w8, x.w9, x.w10, x.w11, x.w12, x.w13, x.w14, x.w15]

def xor (x y : Row) : Row :=
  ⟨x.w0 ^^^ y.w0, x.w1 ^^^ y.w1, x.w2 ^^^ y.w2, x.w3 ^^^ y.w3,
    x.w4 ^^^ y.w4, x.w5 ^^^ y.w5, x.w6 ^^^ y.w6, x.w7 ^^^ y.w7,
    x.w8 ^^^ y.w8, x.w9 ^^^ y.w9, x.w10 ^^^ y.w10, x.w11 ^^^ y.w11,
    x.w12 ^^^ y.w12, x.w13 ^^^ y.w13, x.w14 ^^^ y.w14, x.w15 ^^^ y.w15⟩

/-- A sum to which the product of the low halves adds twice. -/
@[inline] def blend (x y : UInt64) : UInt64 :=
  x + y + 2 * ((x &&& 0xffffffff) * (y &&& 0xffffffff))

@[inline] def rotate (x n : UInt64) : UInt64 :=
  (x >>> n) ||| (x <<< (64 - n))

/-- Mixes four words and hands them on. -/
@[inline] def mix {α : Type} (a b c d : UInt64) (next : UInt64 → UInt64 → UInt64 → UInt64 → α) : α :=
  let a := blend a b
  let d := rotate (d ^^^ a) 32
  let c := blend c d
  let b := rotate (b ^^^ c) 24
  let a := blend a b
  let d := rotate (d ^^^ a) 16
  let c := blend c d
  let b := rotate (b ^^^ c) 63
  next a b c d

/-- Mixes the columns and then the diagonals of a row taken as four by four words. -/
def permute (x : Row) : Row :=
  mix x.w0 x.w4 x.w8 x.w12 fun a0 a4 a8 a12 =>
  mix x.w1 x.w5 x.w9 x.w13 fun a1 a5 a9 a13 =>
  mix x.w2 x.w6 x.w10 x.w14 fun a2 a6 a10 a14 =>
  mix x.w3 x.w7 x.w11 x.w15 fun a3 a7 a11 a15 =>
  mix a0 a5 a10 a15 fun a0 a5 a10 a15 =>
  mix a1 a6 a11 a12 fun a1 a6 a11 a12 =>
  mix a2 a7 a8 a13 fun a2 a7 a8 a13 =>
  mix a3 a4 a9 a14 fun a3 a4 a9 a14 =>
  ⟨a0, a1, a2, a3, a4, a5, a6, a7, a8, a9, a10, a11, a12, a13, a14, a15⟩

end Row

namespace Block

def ofFn (f : Nat → UInt64) : Block :=
  let row (k : Nat) := Row.ofFn fun i => f (16 * k + i)
  ⟨row 0, row 1, row 2, row 3, row 4, row 5, row 6, row 7⟩

def rows (x : Block) : List Row :=
  [x.r0, x.r1, x.r2, x.r3, x.r4, x.r5, x.r6, x.r7]

def words (x : Block) : List UInt64 :=
  x.rows.flatMap Row.words

def zero : Block :=
  ofFn fun _ => 0

instance : Inhabited Block := ⟨zero⟩

def xor (x y : Block) : Block :=
  ⟨x.r0.xor y.r0, x.r1.xor y.r1, x.r2.xor y.r2, x.r3.xor y.r3,
    x.r4.xor y.r4, x.r5.xor y.r5, x.r6.xor y.r6, x.r7.xor y.r7⟩

/-- Pairs of words change places as in a square of eight by eight. -/
def transpose (x : Block) : Block :=
  ⟨⟨x.r0.w0, x.r0.w1, x.r1.w0, x.r1.w1, x.r2.w0, x.r2.w1, x.r3.w0, x.r3.w1,
      x.r4.w0, x.r4.w1, x.r5.w0, x.r5.w1, x.r6.w0, x.r6.w1, x.r7.w0, x.r7.w1⟩,
    ⟨x.r0.w2, x.r0.w3, x.r1.w2, x.r1.w3, x.r2.w2, x.r2.w3, x.r3.w2, x.r3.w3,
      x.r4.w2, x.r4.w3, x.r5.w2, x.r5.w3, x.r6.w2, x.r6.w3, x.r7.w2, x.r7.w3⟩,
    ⟨x.r0.w4, x.r0.w5, x.r1.w4, x.r1.w5, x.r2.w4, x.r2.w5, x.r3.w4, x.r3.w5,
      x.r4.w4, x.r4.w5, x.r5.w4, x.r5.w5, x.r6.w4, x.r6.w5, x.r7.w4, x.r7.w5⟩,
    ⟨x.r0.w6, x.r0.w7, x.r1.w6, x.r1.w7, x.r2.w6, x.r2.w7, x.r3.w6, x.r3.w7,
      x.r4.w6, x.r4.w7, x.r5.w6, x.r5.w7, x.r6.w6, x.r6.w7, x.r7.w6, x.r7.w7⟩,
    ⟨x.r0.w8, x.r0.w9, x.r1.w8, x.r1.w9, x.r2.w8, x.r2.w9, x.r3.w8, x.r3.w9,
      x.r4.w8, x.r4.w9, x.r5.w8, x.r5.w9, x.r6.w8, x.r6.w9, x.r7.w8, x.r7.w9⟩,
    ⟨x.r0.w10, x.r0.w11, x.r1.w10, x.r1.w11, x.r2.w10, x.r2.w11, x.r3.w10, x.r3.w11,
      x.r4.w10, x.r4.w11, x.r5.w10, x.r5.w11, x.r6.w10, x.r6.w11, x.r7.w10, x.r7.w11⟩,
    ⟨x.r0.w12, x.r0.w13, x.r1.w12, x.r1.w13, x.r2.w12, x.r2.w13, x.r3.w12, x.r3.w13,
      x.r4.w12, x.r4.w13, x.r5.w12, x.r5.w13, x.r6.w12, x.r6.w13, x.r7.w12, x.r7.w13⟩,
    ⟨x.r0.w14, x.r0.w15, x.r1.w14, x.r1.w15, x.r2.w14, x.r2.w15, x.r3.w14, x.r3.w15,
      x.r4.w14, x.r4.w15, x.r5.w14, x.r5.w15, x.r6.w14, x.r6.w15, x.r7.w14, x.r7.w15⟩⟩

def permuteRows (x : Block) : Block :=
  ⟨x.r0.permute, x.r1.permute, x.r2.permute, x.r3.permute,
    x.r4.permute, x.r5.permute, x.r6.permute, x.r7.permute⟩

def compress (x y : Block) : Block :=
  let r := x.xor y
  r.permuteRows.transpose.permuteRows.transpose.xor r

def ofBytes (l : List UInt8) : Block :=
  let words := (wordsOf 128 l).toArray
  ofFn fun i => words.getD i 0

def bytes (x : Block) : List UInt8 :=
  x.words.flatMap fun w => littleEndian w.toNat 8

end Block

/-! ## Digests of any length -/

/-- The first halves of `n` digests in a chain, and its last one. -/
def chain : Nat → List UInt8 → List UInt8 × List UInt8
  | 0, v => ([], v)
  | n + 1, v =>
    let (taken, last) := chain n (Digest.Blake2b.hash 64 v)
    (v.take 32 ++ taken, last)

def longHash (size : Nat) (l : List UInt8) : List UInt8 :=
  let l := littleEndian size 4 ++ l
  if size ≤ 64 then Digest.Blake2b.hash size l
  else
    let n := (size + 31) / 32 - 2
    let (taken, last) := chain (n - 1) (Digest.Blake2b.hash 64 l)
    taken ++ last.take 32 ++ Digest.Blake2b.hash (size - 32 * n) last

/-! ## The memory -/

structure Setting where
  variant : Variant
  version : Version
  cost : Cost

namespace Setting

/-- A lane is filled in four segments. -/
def segment (s : Setting) : Nat :=
  s.cost.memory / (4 * s.cost.lanes)

def lane (s : Setting) : Nat :=
  4 * s.segment

def blocks (s : Setting) : Nat :=
  s.cost.lanes * s.lane

end Setting

/-- A segment of a lane in a pass. -/
structure Place where
  pass : Nat
  slice : Nat
  lane : Nat

namespace Place

def byPosition (s : Setting) (p : Place) : Bool :=
  match s.variant with
  | .d => false
  | .i => true
  | .id => p.pass = 0 && p.slice < 2

/-- The words that select the blocks at the positions from `128 * (counter - 1)` on. -/
def addresses (s : Setting) (p : Place) (counter : Nat) : Array UInt64 :=
  let input := Block.ofFn fun i =>
    UInt64.ofNat <|
      match i with
      | 0 => p.pass
      | 1 => p.lane
      | 2 => p.slice
      | 3 => s.blocks
      | 4 => s.cost.passes
      | 5 => s.variant.number
      | 6 => counter
      | _ => 0
  (Block.compress .zero (Block.compress .zero input)).words.toArray

/-- The block that the word `selector` selects for the position `i` of a segment. -/
def reference (s : Setting) (p : Place) (i : Nat) (selector : UInt64) : Nat :=
  let first := p.pass = 0
  let lane :=
    if first ∧ p.slice = 0 then p.lane
    else (selector >>> 32).toNat % s.cost.lanes
  let finished := if first then p.slice * s.segment else s.lane - s.segment
  let area :=
    if lane = p.lane then finished + i - 1
    else if i = 0 then finished - 1
    else finished
  let low := selector &&& 0xffffffff
  let distance := ((UInt64.ofNat area * ((low * low) >>> 32)) >>> 32).toNat
  let start := if first ∨ p.slice = 3 then 0 else (p.slice + 1) * s.segment
  lane * s.lane + (start + (area - 1 - distance)) % s.lane

/-- Fills `n` blocks of a segment from the position `i` on. -/
def fill (s : Setting) (p : Place) : Nat → Nat → Array UInt64 → Array Block → Array Block
  | 0, _, _, memory => memory
  | n + 1, i, selectors, memory =>
    let selectors :=
      if p.byPosition s ∧ i % 128 = 0 then p.addresses s (i / 128 + 1) else selectors
    let here := p.lane * s.lane + p.slice * s.segment + i
    let before := if p.slice = 0 ∧ i = 0 then here + s.lane - 1 else here - 1
    let previous := memory.getD before .zero
    let selector := if p.byPosition s then selectors.getD (i % 128) 0 else previous.r0.w0
    let next := previous.compress (memory.getD (p.reference s i selector) .zero)
    let next :=
      if s.version = .mixing ∧ p.pass ≠ 0 then next.xor (memory.getD here .zero) else next
    fill s p n (i + 1) selectors (memory.setIfInBounds here next)

/-- The first two blocks of a lane are given. -/
def fillSegment (s : Setting) (memory : Array Block) (p : Place) : Array Block :=
  if p.pass = 0 ∧ p.slice = 0 then
    p.fill s (s.segment - 2) 2 (if p.byPosition s then p.addresses s 1 else #[]) memory
  else p.fill s s.segment 0 #[] memory

end Place

/-- All segments in the order in which they are filled. -/
def places (c : Cost) : List Place :=
  (List.range c.passes).flatMap fun pass =>
    (List.range 4).flatMap fun slice =>
      (List.range c.lanes).map fun lane => ⟨pass, slice, lane⟩

/-! ## The function -/

structure Input where
  password : List UInt8
  salt : List UInt8
  secret : List UInt8
  data : List UInt8

def counted (l : List UInt8) : List UInt8 :=
  littleEndian l.length 4 ++ l

def seed (s : Setting) (x : Input) (size : Nat) : List UInt8 :=
  Digest.Blake2b.hash 64 <|
    [s.cost.lanes, size, s.cost.memory, s.cost.passes, s.version.number, s.variant.number].flatMap
      (littleEndian · 4) ++
    counted x.password ++ counted x.salt ++ counted x.secret ++ counted x.data

def firstBlocks (s : Setting) (seed : List UInt8) : Array Block :=
  (List.range s.cost.lanes).foldl (fun memory lane =>
    [0, 1].foldl (fun memory i =>
      memory.setIfInBounds (lane * s.lane + i)
        (.ofBytes (longHash 1024 (seed ++ littleEndian i 4 ++ littleEndian lane 4)))) memory)
    (Array.replicate s.blocks .zero)

/-- The hash of `size` bytes. -/
def derive (s : Setting) (x : Input) (size : Nat) : List UInt8 :=
  let memory := (places s.cost).foldl (Place.fillSegment s) (firstBlocks s (seed s x size))
  let last := (List.range s.cost.lanes).foldl (fun (b : Block) lane =>
    b.xor (memory.getD (lane * s.lane + s.lane - 1) .zero)) .zero
  longHash size last.bytes

end BlobDepot.Password.Argon2
