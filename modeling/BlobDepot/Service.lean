import BlobDepot.Catalog.Interface
import BlobDepot.Directory.Login
import BlobDepot.Ledger
import BlobDepot.Password.Hasher

/-!
# Credentials and the service
-/

/-!
## Credentials

Who may call is decided by a header with a name and a password, and by local users or a directory.
An unknown user and a wrong password are not told apart.
-/

namespace BlobDepot

open Catalog (ask)

inductive AuthMode where
  /-- Nobody is turned away. -/
  | everyone
  /-- Users are kept in the catalog. -/
  | localUsers
  | directory (login : Directory.Login)

def AuthMode.name : AuthMode → String
  | everyone => "public"
  | localUsers => "local"
  | directory _ => "directory"

/-- The bytes behind a payload in one of the two alphabets. -/
def decodePayload? (payload : List Char) : Option (List UInt8) :=
  match Text.Base64.decodePadded? .standard payload with
  | some bytes => some bytes
  | none => Text.Base64.decodePadded? .urlSafe payload

/-- The name and the password in a header. The first colon ends the name. -/
def parseBasic? (header : String) : Option (String × String) := do
  let (scheme, payload) ← Text.splitFirst? ' ' (Text.trim header)
  guard (Text.sameLetters scheme "basic")
  let bytes ← decodePayload? (Text.trim payload).toList
  Text.splitFirst? ':' (← Text.Utf8.decode? bytes)

structure Credentials where
  mode : AuthMode
  scheme : Password.Scheme

namespace Credentials

def isPublic (c : Credentials) : Bool :=
  match c.mode with
  | .everyone => true
  | _ => false

/-- A look-up that fails admits nobody. -/
def verifyLocal (c : Credentials) (user password : String) : Prog Catalog.interface Bool := do
  match ← (ask (.readUser user)).run with
  | .ok (some record) => pure (c.scheme.verify password record.passwordHash)
  | _ => pure false

def authenticate (c : Credentials) (header : String) : Prog Catalog.interface Bool :=
  match c.mode with
  | .everyone => pure true
  | .localUsers =>
    match parseBasic? header with
    | some (user, password) => c.verifyLocal user password
    | none => pure false
  | .directory login =>
    match parseBasic? header with
    | some (user, password) => pure (login.authenticate user password)
    | none => pure false

/-- A directory manages its users itself. -/
def requireLocal (c : Credentials) (operation : String) : CatalogM Unit :=
  match c.mode with
  | .directory _ => throw (.notImplemented operation)
  | _ => pure ()

/-- Says whether the user is new. One that is there keeps the password it has. -/
def addUser (c : Credentials) (salt : List UInt8) (user password : String) : CatalogM Bool := do
  c.requireLocal "add user"
  if user = "" then throw (.invalidRequest "username is empty")
  if user.toList.contains ':' then throw (.invalidRequest "username may not contain ':'")
  match ← ask (.readUser user) with
  | some _ => pure false
  | none => ask (.insertUser ⟨user, c.scheme.hash salt password⟩)

/-- Says whether there was such a user. -/
def deleteUser (c : Credentials) (user : String) : CatalogM Bool := do
  c.requireLocal "delete user"
  ask (.deleteUser user)

def listUsers (c : Credentials) : CatalogM (List String) := do
  c.requireLocal "list users"
  ask .listUsernames

def describe (c : Credentials) (backend : String) : String :=
  Text.Describe.fields "CredentialStore"
    [("mode", c.mode.name), ("backend", Text.Quoted.ofString backend)]

end Credentials

/-!
## The service

What the outer layers call. A request is admitted before anything else of it is looked at, even the
form of its object identifier. The other operations are administrative, and their callers see to
who may use them.
-/

structure Service where
  credentials : Credentials

namespace Service

def admission (s : Service) (r : ObjectRequest) : CatalogM Oid := do
  if ← ExceptT.lift (s.credentials.authenticate r.authorization) then
    match Oid.parse r.oid with
    | .ok oid => pure oid
    | .error e => throw (.invalidRequest e.message)
  else throw .unauthorized

def put (s : Service) (r : ObjectRequest) : CatalogM ObjectRecord := do
  Ledger.put (← s.admission r) r.size r.repo

def commit (s : Service) (r : ObjectRequest) : CatalogM ObjectRecord := do
  Ledger.commit (← s.admission r)

def get (s : Service) (r : ObjectRequest) : CatalogM ObjectRecord := do
  Ledger.get (← s.admission r)

def getPending (s : Service) (r : ObjectRequest) : CatalogM ObjectRecord := do
  Ledger.getPending (← s.admission r)

def describe (s : Service) (backend : String) : String :=
  Text.Describe.fields "ObjectService"
    [("backend", Text.Quoted.ofString backend), ("credentials", s.credentials.describe backend)]

end Service

end BlobDepot
