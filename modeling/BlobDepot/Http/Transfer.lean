import BlobDepot.Config.Basic
import BlobDepot.Encoding.Records
import BlobDepot.Http.Failure
import BlobDepot.Text.Basic

/-!
# Transfers

A client announces an object, learns where to send its bytes, sends them there, and fetches them
once they have been committed.
-/

/-!
## Objects as clients see them

A client learns of an object where its bytes can be fetched and where they can be sent.
-/

namespace BlobDepot.Http

open Decoder

def metadataType : String :=
  "application/vnd.git-lfs+json"

def contentType : String :=
  "application/vnd.git-lfs"

/-- An address, and the headers to send there. -/
structure Link where
  href : String
  header : SortedMap String String
  deriving DecidableEq

namespace Link

/-- No headers are left out. -/
def value (l : Link) : Value :=
  .record (("href", .text l.href) ::
    if l.header.isEmpty then [] else [("header", .textRecord l.header.entries)])

def decode : Decoder Link := fun t => do
  let found ← fields [.of "href" Decoder.text, .of "header" (Decoder.map Decoder.text)] t
  pure ⟨← found.required "href" Decoder.text,
    ← found.optional "header" (Decoder.map Decoder.text) .empty⟩

def describe (l : Link) : String :=
  Text.Describe.fields "Link"
    [("href", Text.Quoted.ofString l.href),
      ("header", Text.Describe.map (l.header.entries.map fun e =>
        (Text.Quoted.ofString e.1, Text.Quoted.ofString e.2)))]

end Link

structure Representation where
  oid : String
  size : Int
  links : SortedMap String Link
  deriving DecidableEq

namespace Representation

def value (r : Representation) : Value :=
  .record [("oid", .text r.oid), ("size", .int r.size),
    ("_links", .record (r.links.entries.map fun e => (e.1, e.2.value)))]

def decode : Decoder Representation := fun t => do
  let found ← fields [.of "oid" Decoder.text, .of "size" int64,
    .of "_links" (Decoder.map Link.decode)] t
  pure ⟨← found.required "oid" Decoder.text, ← found.required "size" int64,
    ← found.required "_links" (Decoder.map Link.decode)⟩

def describe (r : Representation) : String :=
  Text.Describe.fields "Representation"
    [("oid", Text.Quoted.ofString r.oid), ("size", Text.decimal r.size),
      ("links", Text.Describe.map (r.links.entries.map fun e =>
        (Text.Quoted.ofString e.1, e.2.describe)))]

end Representation

/-! ### Links -/

def objectLink (c : Config) (r : ObjectRequest) : String :=
  c.linkScheme ++ "://" ++ c.host ++ "/" ++ r.namespaceName ++ "/" ++ r.repo ++ "/objects/" ++ r.oid

/-- The link to an object. Credentials are handed back where they are needed. -/
def linkTo (c : Config) (r : ObjectRequest) : Link :=
  let header := SortedMap.empty.insert "Accept" contentType
  ⟨objectLink c r,
    if !c.isPublic && r.authorization != "" then header.insert "Authorization" r.authorization
    else header⟩

def represent (c : Config) (r : ObjectRequest) (record : ObjectRecord) (download upload : Bool) :
    Representation :=
  let offer (name : String) (yes : Bool) := if yes then [(name, linkTo c r)] else []
  ⟨record.oid.hex, record.size,
    SortedMap.ofList (offer "download" download ++ offer "upload" upload)⟩

/-! ### Batches -/

structure Batch where
  objects : List ObjectRequest
  deriving DecidableEq

namespace Batch

def decode : Decoder Batch := fun t => do
  let found ← fields [.of "objects" (Decoder.list ObjectRequest.decode)] t
  pure ⟨← found.optional "objects" (Decoder.list ObjectRequest.decode) []⟩

def describe (b : Batch) : String :=
  Text.Describe.fields "BatchRequest"
    [("objects", Text.Describe.list (b.objects.map ObjectRequest.describe))]

end Batch

def batchValue (l : List Representation) : Value :=
  .record [("objects", .list (l.map Representation.value))]

/-!
## Handlers

The media type that a client accepts decides whether it gets the bytes of an object or what is known
of it.
-/

/-- The media type that is named first, without its parameters. -/
def accepted (r : Request) : String :=
  match r.header? "accept" with
  | some s => Text.trim (((Text.splitFirst? ';' s).map (·.1)).getD s)
  | none => ""

def metadataResponse (status : Nat) (v : Value) : Response :=
  (Response.json status v).withHeader "content-type" metadataType

/-- What a request at an object's address says of it. -/
def objectRequest (r : Request) (namespaceName repo oid : String) : ObjectRequest :=
  ⟨oid, 0, namespaceName, repo, r.authorization⟩

namespace Transfer

/-- A body that cannot be decoded leaves the identifier empty. That is refused, but only after the
credentials have been checked. -/
def announce (d : Depot) (r : Request) (namespaceName repo : String) : HandlerM Response := do
  let body ← wholeBody r
  let sent := (Json.decode ObjectRequest.decode body).toOption.getD default
  let q := { sent with namespaceName, repo, authorization := r.authorization }
  let record ← fromCatalog (d.service.put q)
  let found ← if record.existing then fromVault (ExceptT.lift (Vault.exists? record.oid))
    else pure false
  pure <| metadataResponse (if found then 200 else 202)
    (represent d.config q record record.existing true).value

/-- An object of a batch: its record, and whether its bytes can be fetched and sent. -/
structure Resolved where
  request : ObjectRequest
  record : ObjectRecord
  download : Bool
  upload : Bool

/-- Looks an object up, or announces it. An object for which neither can be done is left out, unless
the credentials are rejected. -/
def resolve (d : Depot) (q : ObjectRequest) : CatalogM (Option Resolved) := do
  match ← ExceptT.lift (d.service.get q).run with
  | .ok record => pure (some ⟨q, record, true, false⟩)
  | .error .unauthorized => throw .unauthorized
  | .error _ =>
    match ← ExceptT.lift (d.service.put q).run with
    | .ok record => pure (some ⟨q, record, record.existing, true⟩)
    | .error .unauthorized => throw .unauthorized
    | .error _ => pure none

def malformedBatch : String :=
  "malformed batch request: "

def batchComplaint : DecodeError → String
  | .unfit => "not a list of objects"
  | .malformed => "not JSON"
  | .cutShort => "cut short"

def batch (d : Depot) (r : Request) (namespaceName repo : String) : HandlerM Response := do
  let authorization := r.authorization
  match Json.decode Batch.decode (← wholeBody r) with
  | .error e =>
    if ← fromCatalog (ExceptT.lift (d.service.credentials.authenticate authorization)) then
      fail (.badRequest (malformedBatch ++ batchComplaint e))
    else fail (.catalog .unauthorized)
  | .ok b =>
    let requests := b.objects.map fun q => { q with namespaceName, repo, authorization }
    let resolved ← fromCatalog (requests.mapM (resolve d))
    pure <| metadataResponse 200 <| batchValue <| (resolved.filterMap id).map fun x =>
      represent d.config x.request x.record x.download x.upload

/-- The bytes of an object, or none of them if only the headers are asked for. -/
def content (r : Request) (record : ObjectRecord) : HandlerM Response := do
  let body ← if r.method = "HEAD" then pure [] else fromVault (Vault.get record.oid)
  let answer : Response := ⟨200, [], body⟩
  pure ((answer.withHeader "content-type" "application/octet-stream").withHeader "content-length"
    (Text.decimal record.size))

def fetch (d : Depot) (r : Request) (namespaceName repo oid : String) : HandlerM Response := do
  let media := accepted r
  if media ≠ metadataType ∧ media ≠ contentType then
    fail (.notAcceptable ("expected " ++ metadataType ++ " or " ++ contentType))
  let q := objectRequest r namespaceName repo oid
  let record ← fromCatalog (d.service.get q)
  if !(← fromVault (ExceptT.lift (Vault.exists? record.oid))) then
    fail (.catalog (.objectNotFound record.oid.hex))
  if media = metadataType then
    pure (metadataResponse 200 (represent d.config q record true false).value)
  else content r record

/-- The bytes are verified against the record before it is committed. -/
def upload (d : Depot) (r : Request) (namespaceName repo oid : String) : HandlerM Response := do
  let q := objectRequest r namespaceName repo oid
  let record ← fromCatalog (d.service.getPending q)
  fromVault (Vault.put d.config.vault.spoolLimit record r.body)
  let _ ← fromCatalog (d.service.commit q)
  pure (.ofStatus 200)

/-- Whether there is a committed object. -/
def search (d : Depot) (r : Request) (oid : String) : HandlerM Response := do
  let _ ← fromCatalog (d.service.get (objectRequest r "" "" oid))
  pure (.ofStatus 200)

end Transfer

end BlobDepot.Http
