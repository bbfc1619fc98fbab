import BlobDepot.Encoding.Value
import BlobDepot.Text.Basic

/-!
# Keys and single values of TOML
-/

/-!
## Reading from the front of a text

A reading takes characters from the front of a text, or fails. Where one reading fails another may
be tried from the same place.
-/

namespace BlobDepot.Toml

abbrev Reading (α : Type) :=
  StateT (List Char) Option α

namespace Reading

def char (p : Char → Bool) : Reading Char
  | [] => none
  | c :: r => if p c then some (c, r) else none

def symbol (c : Char) : Reading Unit := do
  discard (char (· == c))

def word : List Char → Reading Unit
  | [] => pure ()
  | c :: r => do
    symbol c
    word r

/-- All characters of a kind that stand in front. -/
def run (p : Char → Bool) : Reading (List Char) := fun s =>
  some (s.takeWhile p, s.dropWhile p)

/-- The same, of which there must be one. -/
def run1 (p : Char → Bool) : Reading (List Char) := do
  let l ← run p
  if l.isEmpty then failure else pure l

def atEnd : Reading Bool := fun s =>
  some (s.isEmpty, s)

def upTo {α : Type} (item : Reading α) : Nat → Reading (List α)
  | 0 => pure []
  | n + 1 => (do
    let x ← item
    pure (x :: (← upTo item n))) <|> pure []

/-- Reads until the item fails. An item takes a character at least. -/
def many {α : Type} (item : Reading α) : Reading (List α) := fun s =>
  upTo item s.length s

def separated {α : Type} (sep : Reading Unit) (item : Reading α) : Reading (List α) := do
  let x ← item
  pure (x :: (← many (do
    sep
    item)))

end Reading

/-!
## Blanks, texts and keys

A text stands on one line between single marks, or on several between triple ones. Between double
quotation marks a backslash begins an escape.
-/

open Reading

/-! ### Blanks -/

def isSpace (c : Char) : Bool :=
  c = ' ' || c = '\t'

def isTextChar (c : Char) : Bool :=
  c = '\t' || (32 ≤ c.toNat && c.toNat ≠ 127)

def spaces : Reading Unit := do
  discard (run isSpace)

def newline : Reading Unit :=
  symbol '\n' <|> word ['\r', '\n']

def comment : Reading Unit := do
  symbol '#'
  discard (run isTextChar)

def lineRest : Reading Unit := do
  spaces
  discard (optional comment)
  if ← atEnd then pure () else newline

/-- Spaces, comments and ends of lines. -/
def gap : Reading Unit := do
  spaces
  discard (many (do
    discard (optional comment)
    newline
    spaces))

/-! ### Texts -/

def hexValue? (c : Char) : Option Nat :=
  let n := c.toNat
  if '0' ≤ c && c ≤ '9' then some (n - 48)
  else if 'a' ≤ c && c ≤ 'f' then some (n - 87)
  else if 'A' ≤ c && c ≤ 'F' then some (n - 55)
  else none

/-- The character whose code follows in so many digits. -/
def coded (width : Nat) : Reading (List Char) := do
  let digits ← (List.replicate width ()).mapM fun _ => char fun c => (hexValue? c).isSome
  let code := digits.foldl (fun n c => 16 * n + (hexValue? c).getD 0) 0
  if code.isValidChar then pure [Char.ofNat code] else failure

def escaped : Reading (List Char) := do
  symbol '\\'
  let c ← char fun _ => true
  match c with
  | 'b' => pure [Char.ofNat 8]
  | 't' => pure ['\t']
  | 'n' => pure ['\n']
  | 'f' => pure [Char.ofNat 12]
  | 'r' => pure ['\r']
  | '"' => pure ['"']
  | '\\' => pure ['\\']
  | 'u' => coded 4
  | 'U' => coded 8
  | _ => failure

/-- A backslash at the end of a line takes the line's end, and the blanks after it, out of the
text. -/
def joinedLine : Reading (List Char) := do
  symbol '\\'
  spaces
  newline
  discard (many (newline <|> discard (run1 isSpace)))
  pure []

def lineBreak : Reading (List Char) := do
  newline
  pure ['\n']

/-- One or two marks do not end a text that three marks do. -/
def innerMarks (mark : Char) : Reading (List Char) := do
  let l ← run1 (· == mark)
  if l.length ≤ 2 then pure l else failure

/-- Marks that stand right before the three that end a text belong to it. -/
def closingMarks (mark : Char) : Reading (List Char) := do
  let l ← run1 (· == mark)
  if 3 ≤ l.length ∧ l.length ≤ 5 then pure (l.drop 3) else failure

/-- A text on several lines. The end of a line right after the first marks is no part of it. -/
def longText (mark : Char) (part : Reading (List Char)) : Reading String := do
  word [mark, mark, mark]
  discard (optional newline)
  let parts ← many (part <|> lineBreak <|> innerMarks mark)
  pure (String.ofList (parts.flatten ++ (← closingMarks mark)))

def shortText (mark : Char) (part : Reading (List Char)) : Reading String := do
  symbol mark
  let parts ← many part
  symbol mark
  pure (String.ofList parts.flatten)

def plain (mark : Char) : Reading (List Char) :=
  run1 fun c => isTextChar c && c != mark

def plainOrEscaped : Reading (List Char) :=
  run1 (fun c => isTextChar c && c != '"' && c != '\\') <|> escaped

def lineText : Reading String :=
  shortText '"' plainOrEscaped <|> shortText '\'' (plain '\'')

def quotedText : Reading String :=
  longText '"' (plainOrEscaped <|> joinedLine) <|> longText '\'' (plain '\'') <|> lineText

/-! ### Keys -/

def isBareChar (c : Char) : Bool :=
  c.isAlphanum || c = '_' || c = '-'

/-- The parts of a key may number less than this. -/
def depth : Nat :=
  80

/-- The parts of a key, which dots separate. -/
def key : Reading (List String) := do
  let path ← separated (symbol '.') do
    spaces
    let part ← lineText <|> String.ofList <$> run1 isBareChar
    spaces
    pure part
  if path.length < depth then pure path else failure

/-!
## Numbers, dates and truth values

What is written without marks is one token, and the token as a whole tells what it stands for.
-/

def isTokenChar (c : Char) : Bool :=
  c.isAlphanum || c = '_' || c = '+' || c = '-' || c = '.' || c = ':'

/-! ### Numbers -/

/-- The value of a digit, in any base up to sixteen. -/
def digitBelow? (base : Nat) (c : Char) : Option Nat :=
  match hexValue? c with
  | some n => if n < base then some n else none
  | none => none

/-- The digits of a numeral, in which single underscores may stand between digits. -/
def digits? (base : Nat) (l : List Char) : Option (List Nat) := do
  let groups := Text.splitList '_' l
  if groups.any List.isEmpty then none else groups.flatten.mapM (digitBelow? base)

def ofDigits (base : Nat) (digits : List Nat) : Nat :=
  digits.foldl (fun n d => base * n + d) 0

/-- A sign, if there is one, and what follows it. -/
def signed : List Char → Bool × List Char
  | '-' :: r => (true, r)
  | '+' :: r => (false, r)
  | l => (false, l)

/-- The digits of a whole number. Only a zero that stands alone comes first. -/
def wholeDigits? (l : List Char) : Option (List Nat) :=
  if l.head? = some '0' ∧ l ≠ ['0'] then none else digits? 10 l

def int64? (n : Int) : Option Tree :=
  if Word.minInt64 ≤ n ∧ n ≤ Word.maxInt64 then some (.int n) else none

def natIn? (base : Nat) (l : List Char) : Option Tree := do
  int64? (ofDigits base (← digits? base l))

def int? : List Char → Option Tree
  | '0' :: 'x' :: r => natIn? 16 r
  | '0' :: 'o' :: r => natIn? 8 r
  | '0' :: 'b' :: r => natIn? 2 r
  | l => do
    let (negative, l) := signed l
    let n : Int := ofDigits 10 (← wholeDigits? l)
    int64? (if negative then -n else n)

/-- The power of ten that a number is multiplied by. -/
def power? (l : List Char) : Option Int := do
  let (negative, l) := signed l
  let n : Int := ofDigits 10 (← digits? 10 l)
  pure (if negative then -n else n)

/-- A number with a fraction, or a power of ten, or both. One that lies beyond all positive numbers
is refused. -/
def float? (l : List Char) : Option Tree := do
  let (negative, l) := signed l
  if l = ['i', 'n', 'f'] ∨ l = ['n', 'a', 'n'] then return .float
  let isExponent := fun c : Char => c = 'e' || c = 'E'
  let mantissa := l.takeWhile (!isExponent ·)
  let power ←
    match l.dropWhile (!isExponent ·) with
    | [] => pure none
    | _ :: r => some <$> power? r
  let whole ← wholeDigits? (mantissa.takeWhile (· != '.'))
  let fraction ←
    match mantissa.dropWhile (· != '.') with
    | [] => pure none
    | _ :: r => some <$> digits? 10 r
  if power.isNone && fraction.isNone then none
  let places := fraction.getD []
  if !negative && FloatRange.exceeds (ofDigits 10 (whole ++ places))
      (power.getD 0 - places.length) then none
  else some .float

/-! ### Dates and times -/

/-- A number of so many digits, between two bounds. -/
def digitField (width low high : Nat) : Reading Nat := do
  let l ← (List.replicate width ()).mapM fun _ => char fun c => (Text.digitValue? c).isSome
  let n := l.foldl (fun n c => 10 * n + (Text.digitValue? c).getD 0) 0
  if low ≤ n ∧ n ≤ high then pure n else failure

def isLeapYear (year : Nat) : Bool :=
  year % 4 = 0 && (year % 100 ≠ 0 || year % 400 = 0)

def daysIn (year month : Nat) : Nat :=
  if month = 2 then if isLeapYear year then 29 else 28
  else if month = 4 || month = 6 || month = 9 || month = 11 then 30
  else 31

def date : Reading Unit := do
  let year ← digitField 4 0 9999
  symbol '-'
  let month ← digitField 2 1 12
  symbol '-'
  discard (digitField 2 1 (daysIn year month))

/-- A time of day. There may be a leap second. -/
def time : Reading Unit := do
  discard (digitField 2 0 23)
  symbol ':'
  discard (digitField 2 0 59)
  symbol ':'
  discard (digitField 2 0 60)
  discard (optional (do
    symbol '.'
    discard (run1 fun c => (Text.digitValue? c).isSome)))

def zone : Reading Unit :=
  discard (char fun c => c = 'Z' || c = 'z') <|> do
    discard (char fun c => c = '+' || c = '-')
    discard (digitField 2 0 23)
    symbol ':'
    discard (digitField 2 0 59)

def zonedTime : Reading Unit := do
  time
  discard (optional zone)

def moment : Reading Unit :=
  time <|> do
    date
    discard (optional (do
      discard (char fun c => c = 'T' || c = 't')
      zonedTime))

def Reading.takesAll {α : Type} (x : Reading α) (l : List Char) : Bool :=
  match x l with
  | some (_, []) => true
  | _ => false

/-- A moment is a record, so that it is not taken for a text. -/
def momentTree (l : List Char) : Tree :=
  .record [(.text "datetime", .text (String.ofList l))] none

/-! ### Tokens -/

def token? (l : List Char) : Option Tree :=
  if l = ['t', 'r', 'u', 'e'] then some (.bool true)
  else if l = ['f', 'a', 'l', 's', 'e'] then some (.bool false)
  else if moment.takesAll l then some (momentTree l)
  else int? l <|> float? l

/-- The time of day that follows a date and a space. -/
def timeAfter (day : List Char) : Reading Tree := do
  symbol ' '
  let l ← run1 isTokenChar
  if date.takesAll day && zonedTime.takesAll l then pure (momentTree (day ++ ' ' :: l))
  else failure

def scalar : Reading Tree := do
  let l ← run1 isTokenChar
  timeAfter l <|> liftM (token? l)

end BlobDepot.Toml
