import BlobDepot.SortedMap
import BlobDepot.Text.Basic
import BlobDepot.Text.Describe

/-!
# Identifiers and records
-/

/-!
## Object identifiers

An object is named by the SHA-256 digest of its bytes. The name is written as 64 hexadecimal digits
in lower case and ordered as the digest is.
-/

namespace BlobDepot

structure Oid where
  bytes : List UInt8
  length_eq : bytes.length = 32
  deriving DecidableEq

namespace Oid

instance : Ord Oid := ⟨fun a b => compare a.bytes b.bytes⟩

instance : Std.TransOrd Oid where
  eq_swap {a b} := @Std.OrientedCmp.eq_swap _ compare _ a.bytes b.bytes
  isLE_trans {a b c} := @Std.TransCmp.isLE_trans _ compare _ a.bytes b.bytes c.bytes

instance : Std.LawfulEqOrd Oid where
  compare_self {a} := @Std.ReflCmp.compare_self _ compare _ a.bytes
  eq_of_compare {a b} h := by
    cases a; cases b
    simp only [Oid.mk.injEq]
    exact @Std.LawfulEqCmp.eq_of_compare _ compare _ _ _ h

/-- The identifier with the given digest; a list of another length is cut or filled with zeros. -/
def ofBytes (l : List UInt8) : Oid :=
  ⟨(l ++ List.replicate 32 0).take 32, by simp⟩

instance : Inhabited Oid := ⟨ofBytes []⟩

def hex (oid : Oid) : String :=
  String.ofList (Text.Hex.encode oid.bytes)

/-- The first eight digits. -/
def shortHex (oid : Oid) : String :=
  String.ofList (Text.Hex.encode (oid.bytes.take 4))

def describe (oid : Oid) : String :=
  "Oid(" ++ oid.shortHex ++ ")"

/-! ### Reading -/

inductive ParseError where
  | badLength (actual : Nat)
  | badDigit (bad : Text.Hex.BadDigit)
  deriving DecidableEq

def ParseError.message : ParseError → String
  | .badLength n =>
    "invalid oid length: expected 64 hex characters, got " ++ Text.decimal n
  | .badDigit bad =>
    "invalid hex string: Invalid character " ++
      Text.Quoted.ofChar (Char.ofNat bad.byte.toNat) ++ " at position " ++ Text.decimal bad.position

/-- Digits of either case are read. The length is that of the text in UTF-8. -/
def parse (s : String) : Except ParseError Oid :=
  let l := Text.Utf8.encode s
  if l.length = 64 then
    match Text.Hex.decode l with
    | .ok bytes => .ok (ofBytes bytes)
    | .error bad => .error (.badDigit bad)
  else .error (.badLength l.length)

end Oid

/-!
## Records

What the depot keeps about an object, a project and a user, and what a request says about the object
that it concerns.
-/

/-- An object is first claimed and then committed, when its bytes have arrived. -/
inductive ObjectState where
  | pending
  | committed
  deriving DecidableEq

namespace ObjectState

def name : ObjectState → String
  | pending => "pending"
  | committed => "committed"

def isCommitted : ObjectState → Bool
  | pending => false
  | committed => true

def parse? (s : String) : Option ObjectState :=
  if s = "pending" then some pending
  else if s = "committed" then some committed
  else none

/-- What is said of a text that names no state. -/
def unknownMessage (s : String) : String :=
  "unknown object state: " ++ s

def describe : ObjectState → String
  | pending => "Pending"
  | committed => "Committed"

end ObjectState

/-! ### Objects -/

structure ObjectRecord where
  oid : Oid
  /-- The declared number of bytes. -/
  size : Int
  state : ObjectState
  /-- The projects that refer to the object. -/
  projects : SortedSet String
  /-- The record was there before the call that answered with it. It is not stored. -/
  existing : Bool
  deriving DecidableEq

namespace ObjectRecord

/-- A fresh claim. The empty name is no project. -/
def pending (oid : Oid) (size : Int) (project : String) : ObjectRecord :=
  ⟨oid, size, .pending, if project = "" then .empty else SortedSet.add .empty project, false⟩

def isCommitted (r : ObjectRecord) : Bool :=
  r.state.isCommitted

def asExisting (r : ObjectRecord) : ObjectRecord :=
  { r with existing := true }

def describe (r : ObjectRecord) : String :=
  Text.Describe.fields "ObjectRecord"
    [("oid", r.oid.describe), ("size", Text.decimal r.size), ("state", r.state.describe),
      ("projects", Text.Describe.set (r.projects.keys.map Text.Quoted.ofString)),
      ("existing", Text.Describe.bool r.existing)]

end ObjectRecord

/-! ### Projects and users -/

structure ProjectRecord where
  name : String
  oids : SortedSet Oid
  deriving DecidableEq

namespace ProjectRecord

def ofName (name : String) : ProjectRecord :=
  ⟨name, .empty⟩

def contains (p : ProjectRecord) (oid : Oid) : Bool :=
  p.oids.contains oid

def describe (p : ProjectRecord) : String :=
  Text.Describe.fields "ProjectRecord"
    [("name", Text.Quoted.ofString p.name),
      ("oids", Text.Describe.set (p.oids.keys.map Oid.describe))]

end ProjectRecord

structure UserRecord where
  username : String
  /-- The encoded hash, never the password. -/
  passwordHash : String
  deriving DecidableEq

def UserRecord.describe (u : UserRecord) : String :=
  Text.Describe.someFields "UserRecord" [("username", Text.Quoted.ofString u.username)]

/-! ### Requests -/

/-- What one request says of an object. The identifier stands as it was sent: it is read only after
the caller has been admitted. -/
structure ObjectRequest where
  oid : String
  size : Int
  namespaceName : String
  repo : String
  authorization : String
  deriving DecidableEq

instance : Inhabited ObjectRequest := ⟨⟨"", 0, "", "", ""⟩⟩

def ObjectRequest.describe (r : ObjectRequest) : String :=
  Text.Describe.fields "RequestVars"
    [("oid", Text.Quoted.ofString r.oid), ("size", Text.decimal r.size),
      ("namespace", Text.Quoted.ofString r.namespaceName), ("repo", Text.Quoted.ofString r.repo),
      ("authorization", Text.Quoted.ofString r.authorization)]

end BlobDepot
