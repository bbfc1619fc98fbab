import BlobDepot.Prog
import BlobDepot.Record
import BlobDepot.Text.Describe

/-!
# The catalog

The records of objects, projects and users are reached through single calls. Each call concerns one
key and is atomic; nothing spans two calls.
-/

/-! ## Failures -/

namespace BlobDepot

inductive CatalogError where
  /-- The credentials are bad, missing or rejected; it is not said which. -/
  | unauthorized
  | objectNotFound (oid : String)
  | projectNotFound (name : String)
  /-- Users are not managed here when a directory holds them. -/
  | notImplemented (operation : String)
  | invalidRequest (reason : String)
  /-- The storage could not be reached, or it found a fault. -/
  | backend (reason : String)
  deriving DecidableEq

namespace CatalogError

def message : CatalogError → String
  | unauthorized => "forbidden"
  | objectNotFound oid => "object not found: " ++ oid
  | projectNotFound name => "project not found: " ++ name
  | notImplemented operation => "not implemented under directory authentication: " ++ operation
  | invalidRequest reason => "invalid request: " ++ reason
  | backend reason => "backend unavailable: " ++ reason

def describe : CatalogError → String
  | unauthorized => "Unauthorized"
  | objectNotFound oid => "ObjectNotFound(" ++ Text.Quoted.ofString oid ++ ")"
  | projectNotFound name => "ProjectNotFound(" ++ Text.Quoted.ofString name ++ ")"
  | notImplemented operation => "NotImplemented(" ++ Text.Quoted.ofString operation ++ ")"
  | invalidRequest reason => "InvalidRequest(" ++ Text.Quoted.ofString reason ++ ")"
  | backend reason => "Backend(" ++ Text.Quoted.ofString reason ++ ")"

def isUnauthorized : CatalogError → Bool
  | unauthorized => true
  | _ => false

end CatalogError

end BlobDepot

/-! ## Calls -/

namespace BlobDepot.Catalog

inductive Op where
  | readObject (oid : Oid)
  /-- Keeps the record unless there is one under its identifier. -/
  | insertObject (record : ObjectRecord)
  | setObjectState (oid : Oid) (state : ObjectState)
  | addObjectProject (oid : Oid) (project : String)
  | removeObjectProject (oid : Oid) (project : String)
  | deleteObject (oid : Oid)
  | listObjects
  | countObjects
  | readProject (name : String)
  | createProject (name : String)
  /-- Creates the project if it is absent. -/
  | addProjectMember (name : String) (oid : Oid)
  | removeProjectMember (name : String) (oid : Oid)
  | listProjects
  | readUser (username : String)
  | insertUser (user : UserRecord)
  | deleteUser (username : String)
  | listUsernames
  | close
  deriving DecidableEq

namespace Op

/-- The answers yes and no say whether there was something to change. -/
@[reducible] def Result : Op → Type
  | readObject _ => Option ObjectRecord
  | insertObject _ | setObjectState _ _ | addObjectProject _ _ | removeObjectProject _ _
  | deleteObject _ | createProject _ | removeProjectMember _ _ | insertUser _ | deleteUser _ => Bool
  | listObjects => List ObjectRecord
  | countObjects => Nat
  | readProject _ => Option ProjectRecord
  | addProjectMember _ _ | close => Unit
  | listProjects => List ProjectRecord
  | readUser _ => Option UserRecord
  | listUsernames => List String

def name : Op → String
  | readObject _ => "read_object"
  | insertObject _ => "insert_object"
  | setObjectState _ _ => "set_object_state"
  | addObjectProject _ _ => "add_object_project"
  | removeObjectProject _ _ => "remove_object_project"
  | deleteObject _ => "delete_object"
  | listObjects => "list_objects"
  | countObjects => "count_objects"
  | readProject _ => "read_project"
  | createProject _ => "create_project"
  | addProjectMember _ _ => "add_project_member"
  | removeProjectMember _ _ => "remove_project_member"
  | listProjects => "list_projects"
  | readUser _ => "read_user"
  | insertUser _ => "insert_user"
  | deleteUser _ => "delete_user"
  | listUsernames => "list_usernames"
  | close => "close"

end Op

/-- Every call may fail. -/
abbrev interface : Interface :=
  ⟨Op, fun op => Except CatalogError op.Result⟩

end BlobDepot.Catalog

namespace BlobDepot

/-- A program of catalog calls, which stops at the first failure that it does not handle. -/
abbrev CatalogM :=
  ExceptT CatalogError (Prog Catalog.interface)

namespace Catalog

def ask (op : Op) : CatalogM op.Result :=
  ExceptT.mk (Prog.perform (I := interface) op)

end Catalog

end BlobDepot
