import BlobDepot.Encoding.Json
import BlobDepot.Files.Interface
import BlobDepot.Text.Basic

/-!
# Requests and responses
-/

/-!
## Media types

A media type is two tokens with a slash between them, and parameters behind a semicolon or a blank.
-/

namespace BlobDepot.Http.MediaType

def isTokenChar (c : Char) : Bool :=
  c.isAlphanum || "!#$%&'+-.^_`|~".toList.contains c

/-- What follows a text in quotation marks. Its first character may be such a mark itself. -/
def afterQuoted? (l : List Char) : Option (List Char) :=
  let isContent (c : Char) : Bool := 32 ≤ c.toNat && c.toNat ≠ 127
  match l with
  | [] => none
  | c :: r =>
    match r.dropWhile fun c => isContent c && c != '"' with
    | '"' :: rest => if isContent c then some (rest.dropWhile (· == ' ')) else none
    | _ => none

/-- Whether parameters are well formed, of which there are no more than so many. -/
def parametersFit : Nat → List Char → Bool
  | 0, _ => true
  | n + 1, l =>
    let l := l.dropWhile (· == ' ')
    let name := l.takeWhile isTokenChar
    if l.isEmpty then true
    else if name.isEmpty then false
    else
      match l.dropWhile isTokenChar with
      | '=' :: '"' :: r =>
        match afterQuoted? r with
        | some [] => true
        | some (';' :: rest) => parametersFit n rest
        | _ => false
      | '=' :: r =>
        match r.dropWhile isTokenChar with
        | [] => true
        | ';' :: rest => !(r.takeWhile isTokenChar).isEmpty && parametersFit n rest
        | _ => false
      | _ => false

/-- What stands behind the last plus sign, unless the sign stands first. -/
def suffix? (subtype : List Char) : Option (List Char) :=
  let reversed := subtype.reverse
  let suffix := (reversed.takeWhile (· != '+')).reverse
  if suffix.length + 1 < subtype.length then some suffix else none

def isJson (s : String) : Bool :=
  let l := (Text.lower s).toList
  let type := l.takeWhile isTokenChar
  match l.dropWhile isTokenChar with
  | '/' :: r =>
    let subtype := r.takeWhile isTokenChar
    let fits :=
      match r.dropWhile isTokenChar with
      | [] => true
      | c :: rest => (c = ';' || c = ' ') && parametersFit (rest.length + 1) rest
    fits && type = "application".toList &&
      (subtype = "json".toList || suffix? subtype = some "json".toList)
  | _ => false

end BlobDepot.Http.MediaType

namespace BlobDepot.Http

/-! ## Headers -/

/-- Headers in the order in which they stand. The letter case of a name does not matter. -/
abbrev Headers :=
  List (String × ByteArray)

namespace Headers

def get? (h : Headers) (name : String) : Option ByteArray :=
  (h.find? fun e => Text.sameLetters e.1 name).map (·.2)

def contains (h : Headers) (name : String) : Bool :=
  (h.get? name).isSome

/-- Puts a header in the place of those of its name. -/
def set (h : Headers) (name : String) (value : ByteArray) : Headers :=
  h.filter (fun e => !Text.sameLetters e.1 name) ++ [(name, value)]

def setText (h : Headers) (name value : String) : Headers :=
  h.set name value.toUTF8

end Headers

/-! ## Requests -/

structure Request where
  method : String
  /-- The path, and a query behind a question mark if there is one. -/
  target : String
  headers : Headers
  body : Stream

namespace Request

/-- What follows a number sign is not sent to the server. -/
def sent (r : Request) : String :=
  ((Text.splitFirst? '#' r.target).map (·.1)).getD r.target

def path (r : Request) : String :=
  ((Text.splitFirst? '?' r.sent).map (·.1)).getD r.sent

def query (r : Request) : String :=
  ((Text.splitFirst? '?' r.sent).map (·.2)).getD ""

def isVisible (b : UInt8) : Bool :=
  b = 9 || (32 ≤ b && b ≤ 126)

/-- The text of a header. One that holds anything but visible ASCII counts as missing. -/
def header? (r : Request) (name : String) : Option String := do
  let value ← r.headers.get? name
  if value.data.all isVisible then Text.Utf8.ofBytes? value else none

/-- The credentials of the caller, or the empty text. -/
def authorization (r : Request) : String :=
  (r.header? "authorization").getD ""

end Request

/-! ## Responses -/

structure Response where
  status : Nat
  headers : Headers
  body : Stream

namespace Response

def ofStatus (status : Nat) : Response :=
  ⟨status, [], []⟩

def text (status : Nat) (type : String) (s : String) : Response :=
  ⟨status, [("content-type", type.toUTF8)], Stream.ofBytes s.toUTF8⟩

def json (status : Nat) (v : Value) : Response :=
  text status "application/json" (Json.compact v)

def withHeader (r : Response) (name value : String) : Response :=
  { r with headers := r.headers.setText name value }

/-- States the length of the body, unless the response states it itself. -/
def withLength (r : Response) : Response :=
  if r.headers.contains "content-length" then r
  else r.withHeader "content-length" (Text.decimal (Stream.length r.body))

end Response

end BlobDepot.Http
