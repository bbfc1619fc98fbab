import BlobDepot.Encoding.Value
import BlobDepot.Password.Argon2
import BlobDepot.Text.Basic

/-!
# Password hashes
-/

/-!
## Encoded password hashes

A hash is kept as text with all that is needed to check a password against it: the variant, the
version, the cost and the salt, between dollar signs.
-/

namespace BlobDepot.Password

open Argon2 (Variant Version Cost)

structure Encoded where
  variant : Variant
  version : Version
  cost : Cost
  /-- Bytes that are hashed with the password. -/
  data : List UInt8
  salt : List UInt8
  hash : List UInt8

namespace Encoded

/-! ### Words of the format -/

def isNameChar (c : Char) : Bool :=
  ('a' ≤ c && c ≤ 'z') || ('0' ≤ c && c ≤ '9') || c = '-'

def isName (s : String) : Bool :=
  let l := s.toList
  0 < l.length && l.length ≤ 32 && l.all isNameChar

def isValueChar (c : Char) : Bool :=
  ('a' ≤ c && c ≤ 'z') || ('A' ≤ c && c ≤ 'Z') || ('0' ≤ c && c ≤ '9') ||
    c = '/' || c = '+' || c = '.' || c = '-'

def isValue (s : String) : Bool :=
  s.length ≤ 64 && s.toList.all isValueChar

/-- Decimal digits without leading zeros, below 2 to the power of 32. -/
def number? (s : String) : Option Nat := do
  guard (isValue s && !s.isEmpty && (s.length == 1 || s.front != '0'))
  let n ← Text.natOfDigits? s.toList
  guard (n ≤ Word.maxNat32)
  pure n

def bytes? (s : String) : Option (List UInt8) :=
  Text.Base64.decode? .standard s.toList

def variant? (s : String) : Option Variant :=
  if s = "argon2d" then some .d
  else if s = "argon2i" then some .i
  else if s = "argon2id" then some .id
  else none

def version? (n : Nat) : Option Version :=
  if n = 16 then some .overwriting
  else if n = 19 then some .mixing
  else none

/-! ### Parameters -/

def pair? (s : String) : Option (String × String) :=
  match Text.split '=' s with
  | [name, value] => if isName name && isValue value then some (name, value) else none
  | _ => none

def pairs? (s : String) : Option (List (String × String)) := do
  guard (s.utf8ByteSize ≤ 127)
  (Text.split ',' s).mapM pair?

structure Parameters where
  cost : Cost
  data : List UInt8

/-- Of two parameters of one name the last one counts. -/
def Parameters.put? (x : Parameters) (p : String × String) : Option Parameters :=
  let (name, value) := p
  if name = "m" then (number? value).map fun n => { x with cost.memory := n }
  else if name = "t" then (number? value).map fun n => { x with cost.passes := n }
  else if name = "p" then (number? value).map fun n => { x with cost.lanes := n }
  else if name = "keyid" then do
    guard ((← bytes? value).length ≤ 8)
    pure x
  else if name = "data" then do
    let data ← bytes? value
    guard (data.length ≤ 32)
    pure { x with data }
  else none

def standardCost : Cost :=
  ⟨19456, 2, 1⟩

def Parameters.ofPairs? (l : List (String × String)) : Option Parameters :=
  l.foldlM Parameters.put? ⟨standardCost, []⟩

def isCost (c : Cost) : Bool :=
  8 ≤ c.memory && 8 * c.lanes ≤ c.memory && 1 ≤ c.passes && 1 ≤ c.lanes && c.lanes ≤ 0xffffff

/-! ### Fields -/

/-- The version field, if the first one is that, and the fields after it. -/
def takeVersion? (fields : List String) : Option (Version × List String) :=
  match fields with
  | field :: r =>
    if "v=".isPrefixOf field && !field.contains ',' then do
      pure (← version? (← number? (String.ofList (field.toList.drop 2))), r)
    else some (.mixing, fields)
  | [] => some (.mixing, [])

def takeParameters? (fields : List String) : Option (Parameters × List String) :=
  match fields with
  | field :: r =>
    if field.contains '=' then do
      pure (← Parameters.ofPairs? (← pairs? field), r)
    else (Parameters.ofPairs? []).map (·, fields)
  | [] => none

def salt? (s : String) : Option (List UInt8) := do
  guard (4 ≤ s.length && isValue s)
  let salt ← bytes? s
  guard (8 ≤ salt.length)
  pure salt

def hash? (s : String) : Option (List UInt8) := do
  let hash ← bytes? s
  guard (10 ≤ hash.length && hash.length ≤ 64)
  pure hash

def parse? (s : String) : Option Encoded :=
  match Text.split '$' s with
  | "" :: name :: fields => do
    guard (isName name)
    let variant ← variant? name
    let (version, fields) ← takeVersion? fields
    let (parameters, fields) ← takeParameters? fields
    guard (isCost parameters.cost)
    match fields with
    | [salt, hash] =>
      pure ⟨variant, version, parameters.cost, parameters.data, ← salt? salt, ← hash? hash⟩
    | _ => none
  | _ => none

/-! ### Checking and writing -/

def check (e : Encoded) (password : String) : Bool :=
  Argon2.derive ⟨e.variant, e.version, e.cost⟩ ⟨Text.Utf8.encode password, e.salt, [], e.data⟩
    e.hash.length == e.hash

def base64 (l : List UInt8) : String :=
  String.ofList (Text.Base64.encode .standard l)

def text (c : Cost) (salt hash : String) : String :=
  "$argon2id$v=19$m=" ++ Text.decimal c.memory ++ ",t=" ++ Text.decimal c.passes ++ ",p=" ++
    Text.decimal c.lanes ++ "$" ++ salt ++ "$" ++ hash

end Encoded

/-!
## Hashing of passwords

A password is hashed with a salt at a given cost, and checked against an encoded hash at the cost
that the hash names.
-/

/-- A way to keep passwords: `hash` takes a salt and a password, and `verify` a password and what
`hash` made of one. -/
structure Scheme where
  hash : List UInt8 → String → String
  verify : String → String → Bool

/-- Whether the encoded hash is well formed and belongs to the password. -/
def verify (password encoded : String) : Bool :=
  match Encoded.parse? encoded with
  | some e => e.check password
  | none => false

structure Hasher where
  memory : Nat
  passes : Nat
  deriving DecidableEq

namespace Hasher

def standard : Hasher :=
  ⟨Encoded.standardCost.memory, Encoded.standardCost.passes⟩

/-- The nearest cost that the function admits. -/
def ofCost (memory passes : Nat) : Hasher :=
  ⟨min (max memory 8) Word.maxNat32, min (max passes 1) Word.maxNat32⟩

def cost (h : Hasher) : Argon2.Cost :=
  ⟨h.memory, h.passes, 1⟩

def hash (h : Hasher) (salt : List UInt8) (password : String) : String :=
  let digest := Argon2.derive ⟨.id, .mixing, h.cost⟩ ⟨Text.Utf8.encode password, salt, [], []⟩ 32
  Encoded.text h.cost (Encoded.base64 salt) (Encoded.base64 digest)

/-- A well-formed hash at this cost to which no known password belongs. -/
def decoy (h : Hasher) : String :=
  Encoded.text h.cost "aGFyYm91ci1kZWNveS0hIQ" (String.ofList (List.replicate 43 'A'))

def scheme (h : Hasher) : Scheme :=
  ⟨h.hash, verify⟩

end Hasher

end BlobDepot.Password
