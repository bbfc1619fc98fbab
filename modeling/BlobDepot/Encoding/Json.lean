import BlobDepot.Encoding.Decode
import BlobDepot.Encoding.Value
import BlobDepot.Text.Basic

/-!
# JSON
-/

/-!
## Reading JSON

A text is a list of bytes. Reading goes on behind a fault that matters only to those who use the
value, and ends at any other.
-/

namespace BlobDepot.Json

abbrev Bytes :=
  List UInt8

def isBlank (b : UInt8) : Bool :=
  b = 32 || b = 10 || b = 13 || b = 9

def skipBlanks (s : Bytes) : Bytes :=
  s.dropWhile isBlank

/-! ### Texts -/

/-- What a text in quotation marks holds, the first fault that matters if it is used, and what comes
after it; or its faults, in use and passed over. -/
abbrev Scanned :=
  Except (Fault × Fault) (Bytes × Option Fault × Bytes)

def codeUnit? (a b c d : UInt8) : Option Nat := do
  let a ← Text.Hex.value? a
  let b ← Text.Hex.value? b
  let c ← Text.Hex.value? c
  let d ← Text.Hex.value? d
  pure (((a * 16 + b) * 16 + c) * 16 + d)

/-- The byte that a letter stands for behind a backslash. -/
def escaped? (b : UInt8) : Option UInt8 :=
  if b = 34 || b = 92 || b = 47 then some b
  else if b = 98 then some 8
  else if b = 102 then some 12
  else if b = 110 then some 10
  else if b = 114 then some 13
  else if b = 116 then some 9
  else none

def isHighSurrogate (n : Nat) : Bool :=
  0xd800 ≤ n && n < 0xdc00

def isLowSurrogate (n : Nat) : Bool :=
  0xdc00 ≤ n && n < 0xe000

/-- The character of a pair of surrogates. -/
def joinSurrogates (high low : Nat) : Nat :=
  0x10000 + (high - 0xd800) * 0x400 + (low - 0xdc00)

def pushChar (acc : Bytes) (n : Nat) : Bytes :=
  (Text.Utf8.encode (String.ofList [Char.ofNat n])).reverse ++ acc

/-- What has been read of a text. -/
structure Scan where
  /-- The last byte stands first. -/
  bytes : Bytes
  fault : Option Fault
  /-- The first half of a pair of surrogates, whose second half must follow. -/
  half : Option Nat

namespace Scan

/-- The fault if the text breaks here. -/
def faultOr (s : Scan) (f : Fault) : Fault :=
  s.fault.getD f

/-- A half that stands alone is a fault. -/
def settle (s : Scan) : Scan :=
  match s.half with
  | some _ => { s with fault := some (s.faultOr .malformed), half := none }
  | none => s

def push (s : Scan) (b : UInt8) : Scan :=
  { s.settle with bytes := b :: s.bytes }

def pushUnit (s : Scan) (n : Nat) : Scan :=
  match s.half with
  | some high =>
    if isLowSurrogate n then ⟨pushChar s.bytes (joinSurrogates high n), s.fault, none⟩
    else s.settle
  | none =>
    if isHighSurrogate n then { s with half := some n }
    else if isLowSurrogate n then { s with fault := some (s.faultOr .malformed) }
    else { s with bytes := pushChar s.bytes n }

end Scan

/-- Reads up to a quotation mark. -/
def scanText (s : Scan) : Bytes → Scanned
  | [] => .error (s.faultOr .cutShort, .cutShort)
  | b :: r =>
    if b = 34 then .ok (s.bytes.reverse, s.settle.fault, r)
    else if b = 92 then
      match r with
      | [] => .error (s.faultOr .cutShort, .cutShort)
      | e :: r =>
        if e = 117 then
          match r with
          | a :: b :: c :: d :: r =>
            match codeUnit? a b c d with
            | none => .error (s.faultOr .malformed, .malformed)
            | some n => scanText (s.pushUnit n) r
          | _ => .error (s.faultOr .cutShort, .cutShort)
        else
          match escaped? e with
          | some x => scanText (s.push x) r
          | none => .error (s.faultOr .malformed, .malformed)
    else if b < 32 then .error (s.faultOr .malformed, .malformed)
    else scanText (s.push b) r

def readText (s : Bytes) : Except (Fault × Option Fault) String × Option Bytes :=
  match scanText ⟨[], none, none⟩ s with
  | .error (f, skipped) => (.error (f, some skipped), none)
  | .ok (_, some f, rest) => (.error (f, none), some rest)
  | .ok (bytes, none, rest) =>
    match Text.Utf8.decode? bytes with
    | some text => (.ok text, some rest)
    | none => (.error (.malformed, none), some rest)

/-! ### Numbers -/

def isDigit (b : UInt8) : Bool :=
  48 ≤ b && b ≤ 57

def natOf (digits : Bytes) : Nat :=
  digits.foldl (fun n b => 10 * n + (b.toNat - 48)) 0

def wholeNumber (negative : Bool) (n : Nat) : Option Int :=
  if negative then
    if 0 < n ∧ Word.minInt64 ≤ -n then some (-n) else none
  else if n ≤ Word.maxNat64 then some n
  else none

/-- The parts of a number, and what comes after it; or its fault in use. -/
structure Numeral where
  negative : Bool
  whole : Bytes
  fraction : Option Bytes
  power : Option Int
  rest : Bytes

def Numeral.tree (n : Numeral) : Tree :=
  let digits := n.whole ++ n.fraction.getD []
  let power := n.power.getD 0 - (n.fraction.getD []).length
  let large := if FloatRange.exceeds (natOf digits) power then Tree.refused .malformed none true else .float
  if n.fraction.isNone && n.power.isNone then
    match wholeNumber n.negative (natOf n.whole) with
    | some k => .int k
    | none => large
  else large

def someDigits (s : Bytes) : Except Fault (Bytes × Bytes) :=
  let digits := s.takeWhile isDigit
  let rest := s.dropWhile isDigit
  if digits.isEmpty then .error (if rest.isEmpty then .cutShort else .malformed)
  else .ok (digits, rest)

def readFraction : Bytes → Except Fault (Option Bytes × Bytes)
  | 46 :: r => do
    let (digits, rest) ← someDigits r
    pure (some digits, rest)
  | s => .ok (none, s)

def readPower (s : Bytes) : Except Fault (Option Int × Bytes) :=
  match s with
  | b :: r =>
    if b = 101 || b = 69 then do
      let negative := r.head? = some 45
      let r := if negative || r.head? = some 43 then r.drop 1 else r
      let (digits, rest) ← someDigits r
      let n : Int := natOf digits
      pure (some (if negative then -n else n), rest)
    else .ok (none, s)
  | [] => .ok (none, s)

def readNumeral (s : Bytes) : Except Fault Numeral := do
  let negative := s.head? = some 45
  let (whole, rest) ← someDigits (if negative then s.drop 1 else s)
  if whole.head? = some 48 ∧ 1 < whole.length then throw .malformed
  let (fraction, rest) ← readFraction rest
  let (power, rest) ← readPower rest
  pure ⟨negative, whole, fraction, power, rest⟩

/-- A number that is not well formed is malformed to those who pass it over, wherever it ends. -/
def readNumber (s : Bytes) : Tree × Option Bytes :=
  match readNumeral s with
  | .ok n => (n.tree, some n.rest)
  | .error f => (.refused f (some .malformed) true, none)

/-! ### Values -/

def readWord (t : Tree) : Bytes → Bytes → Tree × Option Bytes
  | [], s => (t, some s)
  | _ :: _, [] => (.refused .cutShort (some .cutShort) true, none)
  | b :: word, c :: s =>
    if b = c then readWord t word s else (.refused .malformed (some .malformed) true, none)

mutual

/-- Reads one value. The fuel bounds the values that are begun. -/
def readValue : Nat → Bytes → Tree × Option Bytes
  | 0, _ => (.refused .cutShort (some .cutShort) false, none)
  | fuel + 1, s =>
    match skipBlanks s with
    | [] => (.refused .cutShort (some .cutShort) false, none)
    | b :: r =>
      if b = 34 then
        match readText r with
        | (.ok text, rest) => (.text text, rest)
        | (.error (f, skipped), rest) => (.refused f skipped false, rest)
      else if b = 91 then
        let (items, stop, rest) :=
          match skipBlanks r with
          | [] => ([], some .cutShort, none)
          | 93 :: r => ([], none, some r)
          | r => readItems fuel r
        (.list items stop (some .malformed), rest)
      else if b = 123 then
        let (fields, stop, rest) :=
          match skipBlanks r with
          | [] => ([], some .cutShort, none)
          | 125 :: r => ([], none, some r)
          | r => readFields fuel r
        (.record fields stop, rest)
      else if b = 45 || isDigit b then readNumber (b :: r)
      else if b = 110 then readWord .null [117, 108, 108] r
      else if b = 116 then readWord (.bool true) [114, 117, 101] r
      else if b = 102 then readWord (.bool false) [97, 108, 115, 101] r
      else (.refused .malformed (some .malformed) true, none)

def readItems : Nat → Bytes → List Tree × Option Fault × Option Bytes
  | 0, _ => ([], some .cutShort, none)
  | fuel + 1, s =>
    match readValue fuel s with
    | (t, none) => ([t], some .malformed, none)
    | (t, some rest) =>
      match skipBlanks rest with
      | [] => ([t], some .cutShort, none)
      | b :: r =>
        if b = 44 then
          let (items, stop, rest) := readItems fuel r
          (t :: items, stop, rest)
        else if b = 93 then ([t], none, some r)
        else ([t], some .malformed, none)

def readFields : Nat → Bytes → List (Label × Tree) × Option Fault × Option Bytes
  | 0, _ => ([], some .cutShort, none)
  | fuel + 1, s =>
    match skipBlanks s with
    | [] => ([(.refused .cutShort (some .cutShort), .null)], some .malformed, none)
    | b :: r =>
      if b = 34 then
        match readText r with
        | (.error (f, skipped), none) => ([(.refused f skipped, .null)], some .malformed, none)
        | (.ok _, none) => ([], some .malformed, none)
        | (name, some rest) =>
          let label :=
            match name with
            | .ok name => Label.text name
            | .error (f, skipped) => .refused f skipped
          match skipBlanks rest with
          | [] => ([(label, .refused .cutShort (some .cutShort) false)], some .malformed, none)
          | b :: r =>
            if b = 58 then
              match readValue fuel r with
              | (t, none) => ([(label, t)], some .malformed, none)
              | (t, some rest) =>
                match skipBlanks rest with
                | [] => ([(label, t)], some .cutShort, none)
                | b :: r =>
                  if b = 44 then
                    let (fields, stop, rest) := readFields fuel r
                    ((label, t) :: fields, stop, rest)
                  else if b = 125 then ([(label, t)], none, some r)
                  else ([(label, t)], some .malformed, none)
            else
              ([(label, .refused .malformed (some .malformed) false)], some .malformed, none)
      else ([(.refused .malformed (some .malformed), .null)], some .malformed, none)

end

/-- Reads the first value of a text. Each value takes a byte at least, so the length of the text is
fuel enough. -/
def read (s : Bytes) : Tree × Option Bytes :=
  readValue (2 * s.length + 2) s

/-- Decodes the first value and ignores what follows it. -/
def decodeFirst {α : Type} (decode : Decoder α) (s : Bytes) : Except DecodeError α :=
  decode (read s).1

/-- Decodes a text that holds one value and nothing else. -/
def decode {α : Type} (decode : Decoder α) (s : Bytes) : Except DecodeError α := do
  let (t, rest) := read s
  let x ← decode t
  match rest with
  | some rest => if (skipBlanks rest).isEmpty then pure x else throw .malformed
  | none => throw .malformed

/-!
## Writing JSON

Values are written on one line without blanks, or with each item and field on a line of its own.
-/

/-- The text of a character between quotation marks. Only what must be escaped is. -/
def escape (c : Char) : List Char :=
  if c = '"' then ['\\', '"']
  else if c = '\\' then ['\\', '\\']
  else if c = '\n' then ['\\', 'n']
  else if c = '\r' then ['\\', 'r']
  else if c = '\t' then ['\\', 't']
  else if c.toNat = 8 then ['\\', 'b']
  else if c.toNat = 12 then ['\\', 'f']
  else if c.toNat < 32 then '\\' :: 'u' :: Text.Hex.ofNat 4 c.toNat
  else [c]

def quoted (s : String) : List Char :=
  '"' :: s.toList.flatMap escape ++ ['"']

/-- What stands in front of an item or field, behind the name of a field, and in front of the end.
It depends on the depth of nesting. -/
structure Layout where
  before : Nat → List Char
  colon : List Char
  last : Nat → List Char

namespace Layout

def oneLine : Layout :=
  ⟨fun _ => [], [':'], fun _ => []⟩

def newLine (depth : Nat) : List Char :=
  '\n' :: List.replicate (2 * depth) ' '

/-- Two blanks for each level. -/
def indented : Layout :=
  ⟨fun depth => newLine (depth + 1), [':', ' '], newLine⟩

end Layout

mutual

def render (f : Layout) (depth : Nat) : Value → List Char
  | .null => ['n', 'u', 'l', 'l']
  | .bool true => ['t', 'r', 'u', 'e']
  | .bool false => ['f', 'a', 'l', 's', 'e']
  | .int n => (Text.decimal n).toList
  | .text s => quoted s
  | .list [] => ['[', ']']
  | .list (v :: r) =>
    '[' :: f.before depth ++ render f (depth + 1) v ++ renderItems f depth r ++ f.last depth ++ [']']
  | .record [] => ['\x7b', '\x7d']
  | .record ((s, v) :: r) =>
    '\x7b' :: f.before depth ++ quoted s ++ f.colon ++ render f (depth + 1) v ++
      renderFields f depth r ++ f.last depth ++ ['\x7d']

def renderItems (f : Layout) (depth : Nat) : List Value → List Char
  | [] => []
  | v :: r => ',' :: f.before depth ++ render f (depth + 1) v ++ renderItems f depth r

def renderFields (f : Layout) (depth : Nat) : List (String × Value) → List Char
  | [] => []
  | (s, v) :: r =>
    ',' :: f.before depth ++ quoted s ++ f.colon ++ render f (depth + 1) v ++
      renderFields f depth r

end

def compact (v : Value) : String :=
  String.ofList (render .oneLine 0 v)

def pretty (v : Value) : String :=
  String.ofList (render .indented 0 v)

end BlobDepot.Json
