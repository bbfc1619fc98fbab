import BlobDepot.Encoding.Records
import BlobDepot.Http.Failure
import BlobDepot.Text.Basic

/-!
# Management

What one administrator may do. Without an administrator's password all of it is hidden.
-/

namespace BlobDepot.Http

open Decoder

def version : String :=
  "0.1.0"

namespace Management

def challenge : String :=
  "Basic realm=\"harbour-mgmt\""

def isAdmin (c : Config) (r : Request) : Bool :=
  match parseBasic? r.authorization with
  | some (user, password) => user == c.adminUser && password == c.adminPass
  | none => false

/-- The answer to those who may not manage. -/
def refusal? (c : Config) (r : Request) : Option Response :=
  if !c.adminEnabled then some (.ofStatus 404)
  else if isAdmin c r then none
  else some ((Response.ofStatus 401).withHeader "www-authenticate" challenge)

/-! ## Handlers -/

def summary (d : Depot) : HandlerM Response := do
  let objects ← fromCatalog Ledger.countObjects
  let projects ← fromCatalog Projects.list
  match d.config.redacted.toToml with
  | .error e => fail (.config e)
  | .ok config =>
    pure <| .json 200 <| .record [("version", .text version),
      ("meta_backend", .text d.catalogName), ("content_backend", .text d.vaultName),
      ("auth_mode", .text d.service.credentials.mode.name), ("objects", .nat objects),
      ("projects", .nat projects.length), ("config", .text config)]

/-- The part of an identifier that a query asks for. The empty one is asked by all. -/
def needle? (r : Request) : Except Rejection (Option String) :=
  match (Text.Percent.queryFields r.query).filter (·.1 == "oid") with
  | [] => .ok none
  | [(_, s)] => .ok (if s = "" then none else some (Text.lower s))
  | _ => .error .badQuery

def objects (r : Request) : HandlerM Response := do
  match needle? r with
  | .error x => reject x
  | .ok needle =>
    let records ← fromCatalog Ledger.listObjects
    let fits (record : ObjectRecord) : Bool :=
      match needle with
      | none => true
      | some s => Text.occursIn s.toList record.oid.hex.toList
    pure (.json 200 (.list ((records.filter fits).map ObjectRecord.value)))

def projects : HandlerM Response := do
  pure (.json 200 (.list ((← fromCatalog Projects.list).map ProjectRecord.value)))

def project (name : String) : HandlerM Response := do
  pure (.json 200 (← fromCatalog (Projects.find name)).value)

def decodeName : Decoder String := fun t => do
  (← fields [.of "name" Decoder.text] t).required "name" Decoder.text

def addProject (r : Request) : HandlerM Response := do
  let name ← jsonBody decodeName r
  let _ ← fromCatalog (Projects.create name)
  pure (.ofStatus 201)

/-- The bytes of an object go with its record. -/
def removeObject (name oid : String) : HandlerM Response := do
  match Oid.parse oid with
  | .error e => fail (.catalog (.invalidRequest e.message))
  | .ok oid =>
    let deleted ← fromCatalog (Ledger.removeFromProject oid name)
    if deleted then
      let _ ← fromVault (Vault.delete oid)
    pure (.json 200 (.record [("deleted", .bool deleted)]))

def users (d : Depot) : HandlerM Response := do
  pure (.json 200 (.texts (← fromCatalog d.service.credentials.listUsers)))

def decodeUser : Decoder (String × String) := fun t => do
  let found ← fields [.of "name" Decoder.text, .of "password" Decoder.text] t
  pure (← found.required "name" Decoder.text, ← found.required "password" Decoder.text)

def addUser (d : Depot) (salt : List UInt8) (r : Request) : HandlerM Response := do
  let (name, password) ← jsonBody decodeUser r
  let _ ← fromCatalog (d.service.credentials.addUser salt name password)
  pure (.ofStatus 201)

def deleteUser (d : Depot) (name : String) : HandlerM Response := do
  let _ ← fromCatalog (d.service.credentials.deleteUser name)
  pure (.ofStatus 204)

end Management

end BlobDepot.Http
