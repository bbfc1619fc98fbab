import BlobDepot.SortedMap
import BlobDepot.Text.Basic

/-!
# Entries and filters of a directory
-/

/-! ## Escaping in directory names and filters -/

namespace BlobDepot.Directory

def escapeFilterChar (c : Char) : List Char :=
  if c = '*' then ['\\', '2', 'a']
  else if c = '(' then ['\\', '2', '8']
  else if c = ')' then ['\\', '2', '9']
  else if c = '\\' then ['\\', '5', 'c']
  else if c = '\x00' then ['\\', '0', '0']
  else [c]

def escapeFilterValue (s : String) : String :=
  String.ofList (s.toList.flatMap escapeFilterChar)

/-- A character of a value in a name. A hash sign needs care at the beginning, and a blank at either
end. -/
def escapeNameChar (isFirst isLast : Bool) (c : Char) : List Char :=
  if [',', '+', '"', '\\', '<', '>', ';', '='].contains c then ['\\', c]
  else if c = '#' && isFirst then ['\\', '#']
  else if c = ' ' && (isFirst || isLast) then ['\\', ' ']
  else if c = '\x00' then ['\\', '0', '0']
  else [c]

def escapeNameValue (s : String) : String :=
  let l := s.toList
  String.ofList <|
    l.zipIdx.flatMap fun p => escapeNameChar (p.2 == 0) (p.2 + 1 == l.length) p.1

/-!
## Entries

An entry has a distinguished name and attributes. The names of attributes are kept in lower case.
-/

structure Entry where
  dn : String
  attributes : SortedMap String (List String)
  deriving DecidableEq

namespace Entry

def ofName (dn : String) : Entry :=
  ⟨dn, .empty⟩

def values (e : Entry) (name : String) : List String :=
  (e.attributes.get? (Text.lower name)).getD []

def addValue (e : Entry) (name value : String) : Entry :=
  { e with attributes := e.attributes.insert (Text.lower name) (e.values name ++ [value]) }

/-- One of the values is the given one, up to the case of its letters. -/
def hasValue (e : Entry) (name value : String) : Bool :=
  (e.values name).any (Text.sameLetters · value)

end Entry

/-! ### Distinguished names -/

/-- Names are compared without regard to case and to blanks around the components. -/
def normalizeName (dn : String) : String :=
  String.intercalate "," ((Text.split ',' dn).map fun part => Text.lower (Text.trim part))

/-- Whether a normalized name lies in the subtree of another one. The empty name is the root. -/
def isInSubtree (dn base : String) : Bool :=
  base == "" || dn == base || ("," ++ base).toList.isSuffixOf dn.toList

/-- The attribute and the value in the first component of a name. -/
def firstComponent? (dn : String) : Option (String × String) := do
  let part ← (Text.split ',' dn).head?
  let (name, value) ← Text.splitFirst? '=' part
  pure (Text.trim name, Text.trim value)

/-!
## Search filters

Conjunction, disjunction, negation, equality and presence, in parentheses and with the operator in
front.
-/

inductive Filter where
  | all (parts : List Filter)
  | any (parts : List Filter)
  | not (part : Filter)
  | equal (name value : String)
  | present (name : String)

namespace Filter

mutual

/-- Whether an entry is found by the filter. -/
def holds (e : Entry) : Filter → Bool
  | all parts => allHold e parts
  | any parts => anyHolds e parts
  | not part => !holds e part
  | equal name value => e.hasValue name value
  | present name => !(e.values name).isEmpty

def allHold (e : Entry) : List Filter → Bool
  | [] => true
  | f :: r => holds e f && allHold e r

def anyHolds (e : Entry) : List Filter → Bool
  | [] => false
  | f :: r => holds e f || anyHolds e r

end

/-! ### Reading -/

inductive Complaint where
  | expected (c : Char)
  | unexpectedEnd
  | emptyList
  | unsupportedType
  | nameNotText
  | missingName
  | bareParenthesis
  | truncatedEscape
  | badEscape
  | substring
  | valueNotText
  | trailingInput
  deriving DecidableEq

def Complaint.message : Complaint → String
  | expected c => "expected '" ++ String.ofList [c] ++ "'"
  | unexpectedEnd => "unexpected end"
  | emptyList => "empty filter list"
  | unsupportedType => "unsupported filter type"
  | nameNotText => "attribute is not utf-8"
  | missingName => "missing attribute"
  | bareParenthesis => "unescaped '('"
  | truncatedEscape => "truncated escape"
  | badEscape => "bad escape"
  | substring => "substring filters are not supported"
  | valueNotText => "value is not utf-8"
  | trailingInput => "trailing input"

structure Fault where
  position : Nat
  complaint : Complaint
  deriving DecidableEq

def Fault.message (f : Fault) : String :=
  "bad directory filter at " ++ Text.decimal f.position ++ ": " ++ f.complaint.message

structure Cursor where
  rest : List UInt8
  position : Nat

namespace Cursor

def fail {α : Type} (c : Cursor) (what : Complaint) : Except Fault α :=
  .error ⟨c.position, what⟩

def skip (c : Cursor) (n : Nat) : Cursor :=
  ⟨c.rest.drop n, c.position + n⟩

def expect (c : Cursor) (b : UInt8) : Except Fault Cursor :=
  if c.rest.head? = some b then .ok (c.skip 1) else c.fail (.expected (Char.ofNat b.toNat))

end Cursor

/-- The byte of two digits. A plus sign may stand for the first one. -/
def escapedByte? (a b : UInt8) : Option UInt8 := do
  let low ← Text.Hex.value? b
  if a = 43 then pure (UInt8.ofNat low)
  else pure (UInt8.ofNat (16 * (← Text.Hex.value? a) + low))

/-- The bytes up to an equality sign. -/
def readName : List UInt8 → Nat → Except Fault (List UInt8 × Cursor)
  | [], n => .ok ([], ⟨[], n⟩)
  | b :: r, n =>
    if b = 61 then .ok ([], ⟨b :: r, n⟩)
    else if [40, 41, 126, 60, 62].contains b then .error ⟨n, .unsupportedType⟩
    else do
      let (bytes, c) ← readName r (n + 1)
      pure (b :: bytes, c)

/-- The bytes up to a closing parenthesis, and whether there was an asterisk among them. -/
def readValue : List UInt8 → Nat → Except Fault (List UInt8 × Bool × Cursor)
  | [], n => .ok ([], false, ⟨[], n⟩)
  | 92 :: a :: b :: r, n =>
    match escapedByte? a b with
    | some x => do
      let (bytes, wild, c) ← readValue r (n + 3)
      pure (x :: bytes, wild, c)
    | none => .error ⟨n, .badEscape⟩
  | b :: r, n =>
    if b = 41 then .ok ([], false, ⟨b :: r, n⟩)
    else if b = 40 then .error ⟨n, .bareParenthesis⟩
    else if b = 92 then .error ⟨n, .truncatedEscape⟩
    else do
      let (bytes, wild, c) ← readValue r (n + 1)
      if b = 42 then pure (bytes, true, c) else pure (b :: bytes, wild, c)

def readItem (c : Cursor) : Except Fault (Filter × Cursor) := do
  let (bytes, c) ← readName c.rest c.position
  match Text.Utf8.decode? bytes with
  | none => c.fail .nameNotText
  | some name =>
    let name := Text.trim name
    if name = "" then c.fail .missingName
    else
      let c ← c.expect 61
      let (bytes, wild, c) ← readValue c.rest c.position
      if wild then
        if bytes.isEmpty then pure (present name, c) else c.fail .substring
      else
        match Text.Utf8.decode? bytes with
        | some value => pure (equal name value, c)
        | none => c.fail .valueNotText

mutual

/-- Reads one filter. The fuel bounds the filters that are begun. -/
def read : Nat → Cursor → Except Fault (Filter × Cursor)
  | 0, c => c.fail .unexpectedEnd
  | fuel + 1, c => do
    let c ← c.expect 40
    let (f, c) ←
      match c.rest.head? with
      | none => c.fail .unexpectedEnd
      | some 38 => do
        let (parts, c) ← readList fuel (c.skip 1)
        if parts.isEmpty then c.fail .emptyList else pure (all parts, c)
      | some 124 => do
        let (parts, c) ← readList fuel (c.skip 1)
        if parts.isEmpty then c.fail .emptyList else pure (any parts, c)
      | some 33 => do
        let (part, c) ← read fuel (c.skip 1)
        pure (not part, c)
      | some _ => readItem c
    pure (f, ← c.expect 41)

def readList : Nat → Cursor → Except Fault (List Filter × Cursor)
  | 0, c => .ok ([], c)
  | fuel + 1, c =>
    if c.rest.head? = some 40 then do
      let (f, c) ← read fuel c
      let (r, c) ← readList fuel c
      pure (f :: r, c)
    else .ok ([], c)

end

/-- Each filter begins with a byte of its own, so the length of the text is fuel enough. -/
def parse (s : String) : Except Fault Filter := do
  let bytes := Text.Utf8.encode (Text.trim s)
  let (f, c) ← read (2 * bytes.length + 1) ⟨bytes, 0⟩
  if c.rest.isEmpty then pure f else c.fail .trailingInput

end Filter

end BlobDepot.Directory
