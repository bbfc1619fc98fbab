/-!
# Values

What a notation for data can write, and what its readers make of a text.
-/

/-!
## Words

The bounds of whole numbers of 32 and of 64 bits.
-/

namespace BlobDepot.Word

def maxNat32 : Nat :=
  4294967295

/-- The bounds of 64 bits with a sign. -/
def minInt64 : Int :=
  -9223372036854775808

def maxInt64 : Int :=
  9223372036854775807

def maxNat64 : Nat :=
  18446744073709551615

end BlobDepot.Word

/-!
## The range of floating-point numbers

Where the numbers of 64 bits end. What lies nearer to their end than to the step after it is still
rounded to a number.
-/

namespace BlobDepot.FloatRange

/-- The least number that lies beyond. -/
def bound : Nat :=
  Nat.pow 2 1024 - Nat.pow 2 970

/-- Whether a number, times ten to a power, lies beyond. The bound has 309 digits. -/
def exceeds (n : Nat) (power : Int) : Bool :=
  let width : Int := (Nat.toDigits 10 n).length + power
  if n = 0 || width < 309 then false
  else if 309 < width then true
  else if 0 ≤ power then bound ≤ n * Nat.pow 10 power.toNat
  else bound * Nat.pow 10 (-power).toNat ≤ n

end BlobDepot.FloatRange

/-!
## Values

Texts, whole numbers, lists, and records of named values.
-/

namespace BlobDepot

inductive Value where
  | null
  | bool (b : Bool)
  | int (n : Int)
  | text (s : String)
  | list (items : List Value)
  /-- The names stand in the order in which they are written. -/
  | record (fields : List (String × Value))

namespace Value

def nat (n : Nat) : Value :=
  int n

def texts (l : List String) : Value :=
  list (l.map text)

def textRecord (l : List (String × String)) : Value :=
  record (l.map fun p => (p.1, text p.2))

end Value

/-!
## Texts as trees

A reader of a notation turns every text into a tree. Where the text breaks the rules of the
notation the tree says so, and those who decode it complain about the first thing that they meet:
a fault of the text, or a value that does not fit. A value that nobody asks for may break some rules
that one in use may not.
-/

/-- The text breaks a rule of its notation, or ends too early. -/
inductive Fault where
  | malformed
  | cutShort
  deriving DecidableEq

inductive Label where
  | text (s : String)
  /-- The fault of a label in use, and of one that is passed over. -/
  | refused (fault : Fault) (skipped : Option Fault)
  deriving DecidableEq

inductive Tree where
  | null
  | bool (b : Bool)
  | int (n : Int)
  /-- A number that is not a whole one of 64 bits. -/
  | float
  | text (s : String)
  /-- The fault that ends the list, if one does, and the fault of those who leave items of it
  unread. -/
  | list (items : List Tree) (stop unread : Option Fault)
  | record (fields : List (Label × Tree)) (stop : Option Fault)
  /-- The fault of a value in use, and of one that is passed over. A bare value begins as a number
  or a word does. -/
  | refused (fault : Fault) (skipped : Option Fault) (bare : Bool)

namespace Label

def skipFault : Label → Option Fault
  | text _ => none
  | refused _ skipped => skipped

def fault : Label → Option Fault
  | text _ => none
  | refused f _ => some f

end Label

namespace Tree

mutual

/-- The fault in a value that nobody asks for. -/
def skipFault : Tree → Option Fault
  | list items stop _ => skipFaults items <|> stop
  | record fields stop => skipFieldFaults fields <|> stop
  | refused _ skipped _ => skipped
  | _ => none

def skipFaults : List Tree → Option Fault
  | [] => none
  | t :: r => skipFault t <|> skipFaults r

def skipFieldFaults : List (Label × Tree) → Option Fault
  | [] => none
  | (l, t) :: r => l.skipFault <|> skipFault t <|> skipFieldFaults r

end

mutual

/-- The fault in a value of any form. There is room for values so many levels deep. -/
def strictFault (room : Nat) : Tree → Option Fault
  | list items stop _ =>
    if room ≤ 1 then some .malformed else strictFaults (room - 1) items <|> stop
  | record fields stop =>
    if room ≤ 1 then some .malformed else strictFieldFaults (room - 1) fields <|> stop
  | refused f _ _ => some f
  | _ => none

def strictFaults (room : Nat) : List Tree → Option Fault
  | [] => none
  | t :: r => strictFault room t <|> strictFaults room r

def strictFieldFaults (room : Nat) : List (Label × Tree) → Option Fault
  | [] => none
  | (l, t) :: r => l.fault <|> strictFault room t <|> strictFieldFaults room r

end

/-- The levels of values for which a text has room. -/
def levels : Nat :=
  128

end Tree

namespace Value

mutual

/-- The tree of a value without faults. -/
def tree : Value → Tree
  | null => .null
  | bool b => .bool b
  | int n => .int n
  | text s => .text s
  | list items => .list (trees items) none (some .malformed)
  | record fields => .record (fieldTrees fields) none

def trees : List Value → List Tree
  | [] => []
  | v :: r => tree v :: trees r

def fieldTrees : List (String × Value) → List (Label × Tree)
  | [] => []
  | (s, v) :: r => (.text s, tree v) :: fieldTrees r

end

end Value

end BlobDepot
