import BlobDepot.Catalog.Interface

/-!
# Projects and the ledger
-/

/-!
## Projects and their objects

A project comes into being when it is first referred to and is never removed. Adding an object
twice is adding it once.
-/

namespace BlobDepot.Projects

open Catalog (ask)

/-- The empty name means no project, and then there is nothing to do. -/
def addObject (oid : Oid) (project : String) : CatalogM Unit :=
  if project = "" then pure () else ask (.addProjectMember project oid)

/-- Says whether the object was a member. -/
def removeObject (oid : Oid) (project : String) : CatalogM Bool :=
  ask (.removeProjectMember project oid)

def find (name : String) : CatalogM ProjectRecord := do
  match ← ask (.readProject name) with
  | some p => pure p
  | none => throw (.projectNotFound name)

def list : CatalogM (List ProjectRecord) :=
  ask .listProjects

/-- Says whether the project is new. -/
def create (name : String) : CatalogM Bool := do
  if name = "" then throw (.invalidRequest "project name is empty")
  ask (.createProject name)

/-- The names of the projects that have the object as a member. -/
def referencing (oid : Oid) : CatalogM (List String) := do
  pure (((← list).filter (·.contains oid)).map (·.name))

def describe (backend : String) : String :=
  Text.Describe.fields "ProjectIndex" [("backend", Text.Quoted.ofString backend)]

end BlobDepot.Projects

/-!
## The ledger

An object is claimed before its bytes arrive and committed when they have. Each step is a call of
its own: no transaction spans the record of an object and its projects.
-/

namespace BlobDepot.Ledger

open Catalog (ask)

/-- Puts the project, if it is missing, into a record that was there before. -/
def join (record : ObjectRecord) (project : String) : CatalogM ObjectRecord := do
  if project ≠ "" ∧ !record.projects.contains project then
    Projects.addObject record.oid project
    let _ ← ask (.addObjectProject record.oid project)
    pure { record with projects := SortedSet.add record.projects project, existing := true }
  else
    pure record.asExisting

/-- Claims an object for a project. A record that is there keeps its size and its state. The project
comes first, so that no reader meets a record whose project is unknown. -/
def put (oid : Oid) (size : Int) (project : String) : CatalogM ObjectRecord := do
  if size < 0 then throw (.invalidRequest ("negative object size: " ++ Text.decimal size))
  match ← ask (.readObject oid) with
  | some record => join record project
  | none =>
    Projects.addObject oid project
    let record := ObjectRecord.pending oid size project
    if ← ask (.insertObject record) then
      pure record
    else
      -- Another claim came first.
      match ← ask (.readObject oid) with
      | some record => join record project
      | none =>
        throw (.backend ("object " ++ oid.hex ++ " vanished after a conflicting insert"))

def require (oid : Oid) : CatalogM ObjectRecord := do
  match ← ask (.readObject oid) with
  | some record => pure record
  | none => throw (.objectNotFound oid.hex)

/-- Makes a claimed object visible to readers. -/
def commit (oid : Oid) : CatalogM ObjectRecord := do
  let record ← require oid
  if record.isCommitted then
    pure record.asExisting
  else
    record.projects.keys.forM (Projects.addObject oid)
    if ← ask (.setObjectState oid .committed) then
      pure { record with state := .committed, existing := true }
    else throw (.objectNotFound oid.hex)

/-- The record of a committed object. -/
def get (oid : Oid) : CatalogM ObjectRecord := do
  let record ← require oid
  if record.isCommitted then pure record.asExisting else throw (.objectNotFound oid.hex)

/-- The record of an object in either state. -/
def getPending (oid : Oid) : CatalogM ObjectRecord := do
  pure (← require oid).asExisting

/-- Takes an object out of a project, and deletes its record when neither the record nor any project
refers to the other. Says whether it was deleted; then its bytes may go too. -/
def removeFromProject (oid : Oid) (project : String) : CatalogM Bool := do
  let wasMember ← Projects.removeObject oid project
  let hadReference ← ask (.removeObjectProject oid project)
  match ← ask (.readObject oid) with
  | none => if wasMember then pure false else throw (.objectNotFound oid.hex)
  | some record =>
    if !wasMember && !hadReference then
      throw (.invalidRequest ("object " ++ oid.hex ++ " is not part of project " ++ project))
    else if !record.projects.isEmpty then
      pure false
    else if !(← Projects.referencing oid).isEmpty then
      pure false
    else ask (.deleteObject oid)

def listObjects : CatalogM (List ObjectRecord) :=
  ask .listObjects

def countObjects : CatalogM Nat :=
  ask .countObjects

def describe (backend : String) : String :=
  Text.Describe.fields "ObjectLedger" [("backend", Text.Quoted.ofString backend)]

end BlobDepot.Ledger
