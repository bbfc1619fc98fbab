/-!
# Texts

Letter case, blanks, the parts of a text, and numbers in decimal; the bytes of a text, and texts that stand for bytes.
-/

/-!
## Letter case

Case matters only for the letters of ASCII: all other characters are their own lower case.
-/

namespace BlobDepot.Text

/-- Only the letters `A` to `Z` change. -/
def lower (s : String) : String :=
  String.ofList (s.toList.map Char.toLower)

/-- The two texts differ at most in the case of ASCII letters. -/
def sameLetters (a b : String) : Bool :=
  lower a == lower b

/-!
## Blank characters

The white space of Unicode, and texts with the white space around them removed.
-/

/-- The characters with the property `White_Space`. -/
def isBlank (c : Char) : Bool :=
  let n := c.toNat
  (9 ≤ n && n ≤ 13) || n = 32 || n = 0x85 || n = 0xa0 || n = 0x1680 || (0x2000 ≤ n && n ≤ 0x200a) ||
    n = 0x2028 || n = 0x2029 || n = 0x202f || n = 0x205f || n = 0x3000

def trimChars (l : List Char) : List Char :=
  ((l.dropWhile isBlank).reverse.dropWhile isBlank).reverse

def trim (s : String) : String :=
  String.ofList (trimChars s.toList)

/-!
## Parts of texts

Texts are cut at a separator, which belongs to no part.
-/

/-- The parts between the separators: one more than there are separators. -/
def splitList {α : Type} [DecidableEq α] (sep : α) : List α → List (List α)
  | [] => [[]]
  | c :: r =>
    if c = sep then
      [] :: splitList sep r
    else
      match splitList sep r with
      | [] => [[c]]
      | p :: ps => (c :: p) :: ps

def split (sep : Char) (s : String) : List String :=
  (splitList sep s.toList).map String.ofList

/-- The parts before and after the first separator. -/
def cutFirst? {α : Type} [DecidableEq α] (sep : α) : List α → Option (List α × List α)
  | [] => none
  | c :: r =>
    if c = sep then some ([], r)
    else (cutFirst? sep r).map fun p => (c :: p.1, p.2)

def splitFirst? (sep : Char) (s : String) : Option (String × String) :=
  (cutFirst? sep s.toList).map fun p => (String.ofList p.1, String.ofList p.2)

/-- The list `needle` stands somewhere in the other one. -/
def occursIn (needle : List Char) : List Char → Bool
  | [] => needle.isEmpty
  | c :: r => needle.isPrefixOf (c :: r) || occursIn needle r

/-! ## Decimal numbers -/

/-- The digits of a number, after a minus sign if it is negative. -/
def decimal : Int → String
  | .ofNat n => String.ofList (Nat.toDigits 10 n)
  | .negSucc n => String.ofList ('-' :: Nat.toDigits 10 (n + 1))

def digitValue? (c : Char) : Option Nat :=
  if '0' ≤ c ∧ c ≤ '9' then some (c.toNat - 48) else none

/-- The number that a list of digits stands for, and no number if one of them is no digit. -/
def natOfDigits? (l : List Char) : Option Nat :=
  l.foldlM (fun n c => (digitValue? c).map (10 * n + ·)) 0

end BlobDepot.Text

/-!
## UTF-8

Texts of byte lists. Bytes that are no text are refused, or read with a replacement character in
the place of each part that fits nowhere.
-/

namespace BlobDepot.Text.Utf8

def encode (s : String) : List UInt8 :=
  s.toUTF8.data.toList

/-- The text whose bytes these are. -/
def ofBytes? (b : ByteArray) : Option String :=
  if h : b.IsValidUTF8 then some (String.ofByteArray b h) else none

def decode? (l : List UInt8) : Option String :=
  ofBytes? ⟨l.toArray⟩

/-- The number of bytes that follow the first byte of a sequence, and the bounds of the second. -/
def lead? (b : UInt8) : Option (Nat × UInt8 × UInt8) :=
  if b < 0x80 then some (0, 0, 0)
  else if b < 0xc2 then none
  else if b < 0xe0 then some (1, 0x80, 0xbf)
  else if b = 0xe0 then some (2, 0xa0, 0xbf)
  else if b = 0xed then some (2, 0x80, 0x9f)
  else if b < 0xf0 then some (2, 0x80, 0xbf)
  else if b = 0xf0 then some (3, 0x90, 0xbf)
  else if b < 0xf4 then some (3, 0x80, 0xbf)
  else if b = 0xf4 then some (3, 0x80, 0x8f)
  else none

/-- Takes up to `n` continuation bytes, the first of them between the bounds. -/
def continuation : Nat → UInt8 → UInt8 → List UInt8 → List UInt8 × List UInt8
  | 0, _, _, l => ([], l)
  | _, _, _, [] => ([], [])
  | n + 1, lo, hi, b :: r =>
    if lo ≤ b ∧ b ≤ hi then
      let (taken, rest) := continuation n 0x80 0xbf r
      (b :: taken, rest)
    else ([], b :: r)

theorem continuation_length (n : Nat) (lo hi : UInt8) (l : List UInt8) :
    (continuation n lo hi l).2.length ≤ l.length := by
  induction n generalizing lo hi l with
  | zero => simp [continuation]
  | succ n ih =>
    cases l with
    | nil => simp [continuation]
    | cons b r =>
      unfold continuation
      split
      · exact Nat.le_succ_of_le (ih _ _ _)
      · simp

/-- Each maximal part of a sequence that breaks off becomes one replacement character. -/
def decodeLossy (l : List UInt8) : List Char :=
  match l with
  | [] => []
  | b :: r =>
    match lead? b with
    | none => '\ufffd' :: decodeLossy r
    | some (n, lo, hi) =>
      let part := continuation n lo hi r
      match decode? (b :: part.1) with
      | some s => s.toList ++ decodeLossy part.2
      | none => '\ufffd' :: decodeLossy part.2
termination_by l.length
decreasing_by
  · exact Nat.lt_succ_self _
  · exact Nat.lt_succ_of_le (continuation_length n lo hi r)
  · exact Nat.lt_succ_of_le (continuation_length n lo hi r)

end BlobDepot.Text.Utf8

/-!
## Hexadecimal text

Two digits a byte, written in lower case and read in either case.
-/

namespace BlobDepot.Text.Hex

def digit (n : Nat) : Char :=
  if n < 10 then Char.ofNat (48 + n) else Char.ofNat (87 + n)

def encode : List UInt8 → List Char
  | [] => []
  | b :: r => digit (b.toNat / 16) :: digit (b.toNat % 16) :: encode r

/-- The number of a digit, given as an ASCII byte. -/
def value? (b : UInt8) : Option Nat :=
  let n := b.toNat
  if 48 ≤ n ∧ n ≤ 57 then some (n - 48)
  else if 97 ≤ n ∧ n ≤ 102 then some (n - 87)
  else if 65 ≤ n ∧ n ≤ 70 then some (n - 55)
  else none

structure BadDigit where
  byte : UInt8
  position : Nat
  deriving DecidableEq, Repr

def valueAt (b : UInt8) (position : Nat) : Except BadDigit Nat :=
  match value? b with
  | some n => .ok n
  | none => .error ⟨b, position⟩

/-- Reads pairs of digits; `start` is the place of the first. A digit left over is dropped. -/
def decodeFrom (start : Nat) : List UInt8 → Except BadDigit (List UInt8)
  | a :: b :: r => do
    let high ← valueAt a start
    let low ← valueAt b (start + 1)
    let rest ← decodeFrom (start + 2) r
    pure (UInt8.ofNat (16 * high + low) :: rest)
  | _ => pure []

def decode (l : List UInt8) : Except BadDigit (List UInt8) :=
  decodeFrom 0 l

/-- The digits of a number, at least `width` of them. -/
def ofNat (width n : Nat) : List Char :=
  let ds := Nat.toDigits 16 n
  List.replicate (width - ds.length) '0' ++ ds

end BlobDepot.Text.Hex

/-!
## Base64

Four digits stand for three bytes. A reader accepts only what a writer produces: the unused bits of
the last digit are zero, and padding, where it is asked for, completes the last group of four.
-/

namespace BlobDepot.Text.Base64

/-- The two alphabets differ in their last two digits. -/
inductive Alphabet where
  | standard
  | urlSafe
  deriving DecidableEq, Repr

def Alphabet.digit (a : Alphabet) (n : Nat) : Char :=
  if n < 26 then Char.ofNat (65 + n)
  else if n < 52 then Char.ofNat (71 + n)
  else if n < 62 then Char.ofNat (n - 4)
  else
    match a with
    | .standard => if n = 62 then '+' else '/'
    | .urlSafe => if n = 62 then '-' else '_'

def Alphabet.value? (a : Alphabet) (c : Char) : Option Nat :=
  let n := c.toNat
  if 65 ≤ n ∧ n ≤ 90 then some (n - 65)
  else if 97 ≤ n ∧ n ≤ 122 then some (n - 71)
  else if 48 ≤ n ∧ n ≤ 57 then some (n + 4)
  else if c = a.digit 62 then some 62
  else if c = a.digit 63 then some 63
  else none

/-! ### Digits as numbers -/

def digitsOf : List UInt8 → List Nat
  | [] => []
  | [a] => [a.toNat / 4, a.toNat % 4 * 16]
  | [a, b] => [a.toNat / 4, a.toNat % 4 * 16 + b.toNat / 16, b.toNat % 16 * 4]
  | a :: b :: c :: r =>
    a.toNat / 4 :: (a.toNat % 4 * 16 + b.toNat / 16) :: (b.toNat % 16 * 4 + c.toNat / 64) ::
      c.toNat % 64 :: digitsOf r

def bytesOf? : List Nat → Option (List UInt8)
  | [] => some []
  | [_] => none
  | [a, b] => if b % 16 = 0 then some [UInt8.ofNat (a * 4 + b / 16)] else none
  | [a, b, c] =>
    if c % 4 = 0 then
      some [UInt8.ofNat (a * 4 + b / 16), UInt8.ofNat (b % 16 * 16 + c / 4)]
    else none
  | a :: b :: c :: d :: r => do
    let rest ← bytesOf? r
    pure (UInt8.ofNat (a * 4 + b / 16) :: UInt8.ofNat (b % 16 * 16 + c / 4) ::
      UInt8.ofNat (c % 4 * 64 + d) :: rest)

/-! ### Texts -/

def encode (a : Alphabet) (l : List UInt8) : List Char :=
  (digitsOf l).map a.digit

def decode? (a : Alphabet) (s : List Char) : Option (List UInt8) := do
  bytesOf? (← s.mapM a.value?)

/-- The number of `=` that complete `n` digits to groups of four. -/
def padding (n : Nat) : Nat :=
  (4 - n % 4) % 4

def encodePadded (a : Alphabet) (l : List UInt8) : List Char :=
  let ds := encode a l
  ds ++ List.replicate (padding ds.length) '='

def decodePadded? (a : Alphabet) (s : List Char) : Option (List UInt8) :=
  let body := s.takeWhile (· != '=')
  if s.dropWhile (· != '=') = List.replicate (padding body.length) '=' then
    decode? a body
  else none

end BlobDepot.Text.Base64

/-!
## Percent encoding

Path segments and query fields. A percent sign that no two hexadecimal digits follow stands for
itself.
-/

namespace BlobDepot.Text.Percent

def decode : List UInt8 → List UInt8
  | [] => []
  | 37 :: a :: b :: r =>
    match Hex.value? a, Hex.value? b with
    | some high, some low => UInt8.ofNat (16 * high + low) :: decode r
    | _, _ => 37 :: decode (a :: b :: r)
  | c :: r => c :: decode r

/-- The text that a path segment stands for, if it is one. -/
def decodeSegment? (segment : String) : Option String :=
  Utf8.decode? (decode (Utf8.encode segment))

/-! ### Query fields -/

/-- A plus sign in a query field is a blank. -/
def decodeField (l : List UInt8) : String :=
  String.ofList (Utf8.decodeLossy (decode (l.map fun b => if b = 43 then 32 else b)))

/-- The fields of a query, each with its value. A field without `=` has the empty value. -/
def queryFields (query : String) : List (String × String) :=
  ((splitList 38 (Utf8.encode query)).filter (!·.isEmpty)).map fun part =>
    let (name, value) := (cutFirst? 61 part).getD (part, [])
    (decodeField name, decodeField value)

end BlobDepot.Text.Percent
