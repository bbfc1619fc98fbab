import BlobDepot.Depot
import BlobDepot.Encoding.Json
import BlobDepot.Http.Message

/-!
# Requests that fail

A request is rejected when it cannot be read, and fails when it cannot be done.
-/

namespace BlobDepot.Http

inductive Rejection where
  | badSegment
  | badQuery
  | bodyTooLarge
  | bodyUnreadable
  /-- The body is not announced as JSON. -/
  | notJson
  | malformedJson
  | unfitJson
  deriving DecidableEq

namespace Rejection

def status : Rejection → Nat
  | badSegment | badQuery | bodyUnreadable | malformedJson => 400
  | bodyTooLarge => 413
  | notJson => 415
  | unfitJson => 422

def message : Rejection → String
  | badSegment => "Invalid UTF-8 in the path"
  | badQuery => "Failed to read the query"
  | bodyTooLarge => "The body is too large"
  | bodyUnreadable => "Failed to read the body"
  | notJson => "Expected a body in JSON"
  | malformedJson => "Failed to parse the body as JSON"
  | unfitJson => "The body is not what is asked for"

def response (x : Rejection) : Response :=
  .text x.status "text/plain; charset=utf-8" x.message

end Rejection

inductive Failure where
  | rejected (x : Rejection)
  | failed (e : DepotError)

/-! ## Failures as responses -/

def catalogStatus : CatalogError → Nat
  | .unauthorized => 401
  | .objectNotFound _ | .projectNotFound _ => 404
  | .notImplemented _ => 501
  | .invalidRequest _ => 400
  | .backend _ => 500

def vaultStatus : VaultError → Nat
  | .notFound _ => 404
  | .sizeMismatch _ _ | .hashMismatch _ _ => 422
  | .backend _ | .io _ => 500

def errorStatus : DepotError → Nat
  | .catalog e => catalogStatus e
  | .vault e => vaultStatus e
  | .badRequest _ => 400
  | .notAcceptable _ => 406
  | .config _ | .io _ | .internal _ => 500

def challenge : String :=
  "Basic realm=\"harbour\""

/-- The reason stands in the body, except that rejected credentials are not told why. -/
def errorResponse (e : DepotError) : Response :=
  let status := errorStatus e
  let message := if status = 401 then "Credentials needed" else e.message
  let r := Response.json status (.record [("message", .text message)])
  if status = 401 then r.withHeader "lfs-authenticate" challenge else r

def Failure.response : Failure → Response
  | rejected x => x.response
  | failed e => errorResponse e

/-! ## Handlers -/

abbrev HandlerM :=
  ExceptT Failure (Prog Depot.interface)

def fromCatalog {α : Type} (p : CatalogM α) : HandlerM α :=
  ExceptT.mk (Prog.left ((fun x => x.mapError fun e => .failed (.catalog e)) <$> p.run))

def fromVault {α : Type} (p : VaultM α) : HandlerM α :=
  ExceptT.mk (Prog.right ((fun x => x.mapError fun e => .failed (.vault e)) <$> p.run))

def reject {α : Type} (x : Rejection) : HandlerM α :=
  throw (.rejected x)

def fail {α : Type} (e : DepotError) : HandlerM α :=
  throw (.failed e)

/-! ## Bodies -/

/-- A body that is read as a whole may have this many bytes. -/
def bodyLimit : Nat :=
  2 * 1024 * 1024

def collectBody (acc : ByteArray) : Stream → Except Rejection ByteArray
  | [] => .ok acc
  | .bytes b :: r =>
    if bodyLimit < acc.size + b.size then .error .bodyTooLarge else collectBody (acc ++ b) r
  | .fault _ :: _ => .error .bodyUnreadable

def wholeBody (r : Request) : HandlerM (List UInt8) :=
  match collectBody .empty r.body with
  | .ok b => pure b.data.toList
  | .error x => reject x

/-- The value in a body that is announced as JSON. What follows it is ignored. -/
def jsonBody {α : Type} (decode : Decoder α) (r : Request) : HandlerM α := do
  if !((r.header? "content-type").map MediaType.isJson).getD false then reject .notJson
  match Json.decodeFirst decode (← wholeBody r) with
  | .ok x => pure x
  | .error .unfit => reject .unfitJson
  | .error _ => reject .malformedJson

end BlobDepot.Http
