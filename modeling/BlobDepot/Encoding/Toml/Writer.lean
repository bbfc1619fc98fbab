import BlobDepot.Encoding.Toml.Scalar
import BlobDepot.Encoding.Value
import BlobDepot.Text.Basic

/-!
# Writing TOML

A record is written as a line for each plain field, and then as a table for each field that is a
record, or a list of records, itself. A text takes the form in which the least must be escaped.
-/

namespace BlobDepot.Toml

/-! ## Texts -/

inductive Style where
  | basic
  | literal
  | longBasic
  | longLiteral
  deriving DecidableEq

def longestRunOf (mark : Char) (run longest : Nat) : List Char → Nat
  | [] => max run longest
  | c :: r =>
    if c = mark then longestRunOf mark (run + 1) longest r
    else longestRunOf mark 0 (max run longest) r

/-- A control character that cannot stand for itself in any form. -/
def needsCode (c : Char) : Bool :=
  (c.toNat < 32 && c != '\t' && c != '\n') || c.toNat = 127

def style (l : List Char) : Style :=
  let codes := l.any needsCode
  let backslash := l.contains '\\'
  let lines := l.contains '\n'
  let singles := longestRunOf '\'' 0 0 l
  let doubles := longestRunOf '"' 0 0 l
  if !codes && !backslash && doubles == 0 && !lines then .basic
  else if !codes && singles == 0 && !lines then .literal
  else if !codes && !backslash && doubles ≤ 2 then .longBasic
  else if !codes && singles ≤ 2 then .longLiteral
  else if lines then .longBasic
  else .basic

def delimiter : Style → List Char
  | .basic => ['"']
  | .literal => ['\'']
  | .longBasic => ['"', '"', '"']
  | .longLiteral => ['\'', '\'', '\'']

/-- The text of a character, other than a quotation mark, in a form with escapes. -/
def escape (long : Bool) (c : Char) : List Char :=
  if c = '\\' then ['\\', '\\']
  else if c = '\t' then ['\\', 't']
  else if c = '\n' then if long then ['\n'] else ['\\', 'n']
  else if c = '\r' then ['\\', 'r']
  else if c.toNat = 8 then ['\\', 'b']
  else if c.toNat = 12 then ['\\', 'f']
  else if c.toNat < 32 || c.toNat = 127 then
    '\\' :: 'u' :: (Text.Hex.ofNat 4 c.toNat).map Char.toUpper
  else [c]

/-- In the long form two quotation marks in a row may stand for themselves. `run` counts them. -/
def escapeAll (long : Bool) (run : Nat) : List Char → List Char
  | [] => []
  | c :: r =>
    if c = '"' then
      if long && run < 2 then '"' :: escapeAll long (run + 1) r
      else '\\' :: '"' :: escapeAll long 0 r
    else escape long c ++ escapeAll long 0 r

def text (s : String) : List Char :=
  let l := s.toList
  let form := style l
  let long := form = .longBasic || form = .longLiteral
  let body := if form = .basic || form = .longBasic then escapeAll long 0 l else l
  let start := if long && l.contains '\n' then ['\n'] else []
  delimiter form ++ start ++ body ++ delimiter form

/-! ## Values -/

def keyText (s : String) : List Char :=
  if s != "" && s.toList.all isBareChar then s.toList else text s

mutual

/-- A value on one line. There is no text for the absence of a value, nor for a number that needs
more than 64 bits with its sign. -/
def inline? : Value → Option (List Char)
  | .null => none
  | .bool true => some ['t', 'r', 'u', 'e']
  | .bool false => some ['f', 'a', 'l', 's', 'e']
  | .int n => if Word.minInt64 ≤ n ∧ n ≤ Word.maxInt64 then some (Text.decimal n).toList else none
  | .text s => some (text s)
  | .list items => do
    pure ('[' :: [',', ' '].intercalate (← inlineItems? items) ++ [']'])
  | .record [] => some ['\x7b', '\x7d']
  | .record fields => do
    pure ("\x7b ".toList ++ [',', ' '].intercalate (← inlineFields? fields) ++ " \x7d".toList)

def inlineItems? : List Value → Option (List (List Char))
  | [] => some []
  | v :: r => do
    pure ((← inline? v) :: (← inlineItems? r))

def inlineFields? : List (String × Value) → Option (List (List Char))
  | [] => some []
  | (s, v) :: r => do
    pure ((keyText s ++ " = ".toList ++ (← inline? v)) :: (← inlineFields? r))

end

def isRecord : Value → Bool
  | .record _ => true
  | _ => false

/-- A list of records that is not empty is written as tables. -/
def isTables : Value → Bool
  | .list items => !items.isEmpty && items.all isRecord
  | _ => false

def lines? (fields : List (String × Value)) : Option (List Char) := do
  let parts ← (fields.filter fun f => !isRecord f.2 && !isTables f.2).mapM fun f => do
    pure (keyText f.1 ++ " = ".toList ++ (← inline? f.2) ++ ['\n'])
  pure parts.flatten

def headerText (path : List String) : List Char :=
  ['.'].intercalate (path.map keyText)

mutual

/-- The tables of the fields of a table. -/
def fieldTables? (path : List String) : List (String × Value) → Option (List Char)
  | [] => some []
  | (s, v) :: r => do
    pure ((← tables? (path ++ [s]) v) ++ (← fieldTables? path r))

/-- The table, or tables, of a field. -/
def tables? (path : List String) : Value → Option (List Char)
  | .record fields => do
    pure ("\n[".toList ++ headerText path ++ "]\n".toList ++ (← lines? fields) ++
      (← fieldTables? path fields))
  | .list items => if isTables (.list items) then itemTables? path items else some []
  | _ => some []

def itemTables? (path : List String) : List Value → Option (List Char)
  | [] => some []
  | v :: r => do
    pure ((← itemTable? path v) ++ (← itemTables? path r))

def itemTable? (path : List String) : Value → Option (List Char)
  | .record fields => do
    pure ("\n[[".toList ++ headerText path ++ "]]\n".toList ++ (← lines? fields) ++
      (← fieldTables? path fields))
  | _ => some []

end

def write? (fields : List (String × Value)) : Option String := do
  pure (String.ofList ((← lines? fields) ++ (← fieldTables? [] fields)))

end BlobDepot.Toml
