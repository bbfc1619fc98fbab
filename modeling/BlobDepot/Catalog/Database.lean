import BlobDepot.Encoding.Decode

/-!
# Tables

A small relational database: five tables of rows in the order of their insertion, and triggers by
which the database refuses rows. A statement that is refused changes nothing.
-/

namespace BlobDepot.Catalog

structure ObjectRow where
  oid : String
  size : Int
  state : String
  deriving DecidableEq

inductive Event where
  | insert
  | update
  | delete
  deriving DecidableEq

inductive Table where
  | objects
  | objectRefs
  | projects
  | projectObjects
  | users
  deriving DecidableEq

/-- Refuses, with a message, each row of a table that an event would touch. -/
structure Trigger where
  event : Event
  table : Table
  message : String
  deriving DecidableEq

structure Database where
  objects : List ObjectRow
  /-- Object and project. -/
  objectRefs : List (String × String)
  projects : List String
  /-- Project and object. -/
  projectObjects : List (String × String)
  /-- User and encoded hash. -/
  users : List (String × String)
  /-- The newest trigger stands first. -/
  triggers : List Trigger
  deriving DecidableEq

def Database.empty : Database :=
  ⟨[], [], [], [], [], []⟩

/-- One or more statements that take effect together or not at all. -/
abbrev Transaction :=
  StateT Database (Except String)

namespace Transaction

def refuseTriggered (event : Event) (table : Table) : Transaction Unit := do
  match (← get).triggers.find? fun t => t.event = event && t.table = table with
  | some t => throw t.message
  | none => pure ()

/-- Puts a row at the end of a table. A row for which `same` holds is in its way: the new one is
dropped, and the answer is no. Triggers see it all the same. -/
def insertNew {ρ : Type} (table : Table) (rows : Database → List ρ)
    (put : Database → List ρ → Database) (same : ρ → Bool) (row : ρ) : Transaction Bool := do
  refuseTriggered .insert table
  let db ← get
  if (rows db).any same then
    pure false
  else
    set (put db (rows db ++ [row]))
    pure true

/-- Puts a row at the end of a table in place of the one for which `same` holds. -/
def insertOver {ρ : Type} (table : Table) (rows : Database → List ρ)
    (put : Database → List ρ → Database) (same : ρ → Bool) (row : ρ) : Transaction Unit := do
  refuseTriggered .insert table
  modify fun db => put db ((rows db).filter (!same ·) ++ [row])

/-- Removes the rows for which `which` holds, and says whether there were any. -/
def deleteWhere {ρ : Type} (table : Table) (rows : Database → List ρ)
    (put : Database → List ρ → Database) (which : ρ → Bool) : Transaction Bool := do
  let db ← get
  if (rows db).any which then
    refuseTriggered .delete table
    set (put db ((rows db).filter (!which ·)))
    pure true
  else pure false

/-- Changes the rows for which `which` holds, and says whether there were any. -/
def updateWhere {ρ : Type} (table : Table) (rows : Database → List ρ)
    (put : Database → List ρ → Database) (which : ρ → Bool) (f : ρ → ρ) : Transaction Bool := do
  let db ← get
  if (rows db).any which then
    refuseTriggered .update table
    set (put db ((rows db).map fun r => if which r then f r else r))
    pure true
  else pure false

/-! ## The statements of each table -/

def putObjects (db : Database) (rows : List ObjectRow) : Database :=
  { db with objects := rows }

def putObjectRefs (db : Database) (rows : List (String × String)) : Database :=
  { db with objectRefs := rows }

def putProjects (db : Database) (rows : List String) : Database :=
  { db with projects := rows }

def putProjectObjects (db : Database) (rows : List (String × String)) : Database :=
  { db with projectObjects := rows }

def putUsers (db : Database) (rows : List (String × String)) : Database :=
  { db with users := rows }

def insertObject (row : ObjectRow) : Transaction Bool :=
  insertNew .objects Database.objects putObjects (·.oid == row.oid) row

def insertObjectRef (oid project : String) : Transaction Bool :=
  insertNew .objectRefs Database.objectRefs putObjectRefs (· == (oid, project)) (oid, project)

def insertProject (name : String) : Transaction Bool :=
  insertNew .projects Database.projects putProjects (· == name) name

def insertProjectObject (project oid : String) : Transaction Bool :=
  insertNew .projectObjects Database.projectObjects putProjectObjects (· == (project, oid))
    (project, oid)

def insertUser (username hash : String) : Transaction Bool :=
  insertNew .users Database.users putUsers (·.1 == username) (username, hash)

/-! ## Rows written past the catalog -/

end Transaction

inductive RawRow where
  | object (row : ObjectRow)
  | objectRef (oid project : String)
  | projectObject (project oid : String)
  deriving DecidableEq

/-- Nothing is known of the row's values: readers may find no identifier or no state in them. -/
def Transaction.insertRaw : RawRow → Transaction Unit
  | .object row => insertOver .objects Database.objects putObjects (·.oid == row.oid) row
  | .objectRef oid project =>
    insertOver .objectRefs Database.objectRefs putObjectRefs (· == (oid, project)) (oid, project)
  | .projectObject project oid =>
    insertOver .projectObjects Database.projectObjects putProjectObjects (· == (project, oid))
      (project, oid)

/-!
## Databases as values

The rows of all tables. Triggers are not among them.
-/

open Decoder

def ObjectRow.value (row : ObjectRow) : Value :=
  .record [("oid", .text row.oid), ("size", .int row.size), ("state", .text row.state)]

def ObjectRow.decode : Decoder ObjectRow := fun t => do
  let found ← fields [.of "oid" text, .of "size" int64, .of "state" text] t
  pure ⟨← found.required "oid" text, ← found.required "size" int64, ← found.required "state" text⟩

namespace Database

def pairsValue (l : List (String × String)) : Value :=
  .list (l.map fun p => .texts [p.1, p.2])

def decodePair : Decoder (String × String) := fun t => do
  match ← list text t with
  | [a, b] => pure (a, b)
  | _ => throw .unfit

def value (db : Database) : Value :=
  .record [("objects", .list (db.objects.map ObjectRow.value)),
    ("object_refs", pairsValue db.objectRefs), ("projects", .texts db.projects),
    ("project_objects", pairsValue db.projectObjects), ("users", pairsValue db.users)]

def decode : Decoder Database := fun t => do
  let pairs := list decodePair
  let found ← fields [.of "objects" (list ObjectRow.decode), .of "object_refs" pairs,
    .of "projects" (list text), .of "project_objects" pairs, .of "users" pairs] t
  pure ⟨← found.required "objects" (list ObjectRow.decode), ← found.required "object_refs" pairs,
    ← found.required "projects" (list text), ← found.required "project_objects" pairs,
    ← found.required "users" pairs, []⟩

end Database

end BlobDepot.Catalog
