import BlobDepot.Http.Management
import BlobDepot.Http.Transfer
import BlobDepot.Text.Basic

/-!
# Answering requests
-/

/-!
## Routes

A path is cut at its slashes. A fixed segment wins over one of any text, and the last segment of a
path is not empty. A route is found for the segments as they stand; what they stand for is decoded
afterwards.
-/

namespace BlobDepot.Http

inductive Route where
  | health
  | search (oid : String)
  | summary
  | allObjects
  | projects
  | project (name : String)
  | projectObject (name oid : String)
  | users
  | user (name : String)
  | objects (namespaceName repo : String)
  | batch (namespaceName repo : String)
  | object (namespaceName repo oid : String)
  deriving DecidableEq

namespace Route

def ofSegments? : List String → Option Route
  | ["health"] => some health
  | ["search", oid] => some (search oid)
  | ["mgmt"] => some summary
  | ["mgmt", "objects"] => some allObjects
  | ["mgmt", "projects"] => some projects
  | ["mgmt", "projects", name] => some (project name)
  | ["mgmt", "projects", name, "objects", oid] => some (projectObject name oid)
  | ["mgmt", "users"] => some users
  | ["mgmt", "users", name] => some (user name)
  | [space, repo, "objects"] => some (objects space repo)
  | [space, repo, "objects", "batch"] => some (batch space repo)
  | [space, repo, "objects", oid] => some (object space repo oid)
  | _ => none

def ofPath? (path : String) : Option Route :=
  match Text.split '/' path with
  | "" :: segments => if segments.getLast? = some "" then none else ofSegments? segments
  | _ => none

/-- The route with what its segments stand for, if all of them stand for texts. -/
def decoded? : Route → Option Route
  | search oid => search <$> Text.Percent.decodeSegment? oid
  | project name => project <$> Text.Percent.decodeSegment? name
  | projectObject name oid => do
    pure (projectObject (← Text.Percent.decodeSegment? name) (← Text.Percent.decodeSegment? oid))
  | user name => user <$> Text.Percent.decodeSegment? name
  | objects space repo => do
    pure (objects (← Text.Percent.decodeSegment? space) (← Text.Percent.decodeSegment? repo))
  | batch space repo => do
    pure (batch (← Text.Percent.decodeSegment? space) (← Text.Percent.decodeSegment? repo))
  | object space repo oid => do
    pure (object (← Text.Percent.decodeSegment? space) (← Text.Percent.decodeSegment? repo)
      (← Text.Percent.decodeSegment? oid))
  | route => some route

def methods : Route → List String
  | health | search _ | summary | allObjects | project _ => ["GET", "HEAD"]
  | projects | users => ["GET", "HEAD", "POST"]
  | projectObject _ _ | user _ => ["DELETE"]
  | objects _ _ | batch _ _ => ["POST"]
  | object _ _ _ => ["GET", "HEAD", "PUT"]

def isManaged : Route → Bool
  | summary | allObjects | projects | project _ | projectObject _ _ | users | user _ => true
  | _ => false

end Route

/-!
## Answers

Who may manage is decided before anything else of a managed route, even whether it answers the
method.
-/

/-- What is drawn anew for each request: an identifier, and a salt for a password. -/
structure Fresh where
  requestId : String
  salt : List UInt8

def health : Response :=
  .json 200 (.record [("status", .text "ok"), ("version", .text version)])

def handle (d : Depot) (fresh : Fresh) (r : Request) : Route → HandlerM Response
  | .health => pure health
  | .search oid => Transfer.search d r oid
  | .summary => Management.summary d
  | .allObjects => Management.objects r
  | .projects => if r.method = "POST" then Management.addProject r else Management.projects
  | .project name => Management.project name
  | .projectObject name oid => Management.removeObject name oid
  | .users =>
    if r.method = "POST" then Management.addUser d fresh.salt r else Management.users d
  | .user name => Management.deleteUser d name
  | .objects space repo => Transfer.announce d r space repo
  | .batch space repo => Transfer.batch d r space repo
  | .object space repo oid =>
    if r.method = "PUT" then Transfer.upload d r space repo oid
    else Transfer.fetch d r space repo oid

def refusal? (d : Depot) (r : Request) (route : Route) : Option Response :=
  if route.isManaged then Management.refusal? d.config r else none

def settle (p : HandlerM Response) : Prog Depot.interface Response :=
  (fun
    | .ok response => response
    | .error failure => failure.response) <$> p.run

def handleRoute (d : Depot) (fresh : Fresh) (r : Request) (route : Route) :
    Prog Depot.interface Response :=
  match refusal? d r route with
  | some response => pure response
  | none =>
    if !route.methods.contains r.method then pure (.ofStatus 405)
    else
      match route.decoded? with
      | none => pure Rejection.badSegment.response
      | some route => settle (handle d fresh r route)

/-- A response to a method that its route does not answer names those that it does. -/
def withAllowed (r : Request) (route : Route) (response : Response) : Response :=
  if route.methods.contains r.method then response
  else response.withHeader "allow" (",".intercalate route.methods)

/-- Completes the headers. The identifier of a request is sent back, or else a fresh one. -/
def complete (fresh : Fresh) (r : Request) (response : Response) : Response :=
  let response := response.withLength
  let id := (r.headers.get? "x-request-id").getD fresh.requestId.toUTF8
  { response with
    headers := response.headers.set "x-request-id" id
    body := if r.method = "HEAD" then [] else response.body }

def respond (d : Depot) (fresh : Fresh) (r : Request) : Prog Depot.interface Response :=
  match Route.ofPath? r.path with
  | none => pure (complete fresh r (.ofStatus 404))
  | some route =>
    (fun response => complete fresh r (withAllowed r route response)) <$>
      handleRoute d fresh r route

end BlobDepot.Http
