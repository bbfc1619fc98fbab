import BlobDepot.Catalog.Database
import BlobDepot.Catalog.Interface

/-!
# A catalog in tables

Each call is one transaction over a database. Identifiers and states are stored as text, and a row
that holds none is reported when it is read.
-/

namespace BlobDepot.Catalog

structure Relational where
  database : Database
  isOpen : Bool
  deriving DecidableEq

namespace Relational

def ofDatabase (db : Database) : Relational :=
  ⟨db, true⟩

def empty : Relational :=
  ofDatabase .empty

/-! ## Rows as records -/

def storedOid (s : String) : Except CatalogError Oid :=
  match Oid.parse s with
  | .ok oid => .ok oid
  | .error e =>
    .error (.backend ("corrupt oid column " ++ Text.Quoted.ofString s ++ ": " ++ e.message))

def storedRecord (row : ObjectRow) (projects : SortedSet String) :
    Except CatalogError ObjectRecord := do
  let oid ← storedOid row.oid
  match ObjectState.parse? row.state with
  | some state => pure ⟨oid, row.size, state, projects, false⟩
  | none =>
    throw (.backend ("corrupt object row " ++ row.oid ++ ": " ++
      ObjectState.unknownMessage row.state))

def projectsOf (db : Database) (oid : String) : SortedSet String :=
  SortedSet.ofList ((db.objectRefs.filter (·.1 == oid)).map (·.2))

/-- The rows of a project are met in the order of their identifiers. -/
def membersOf (db : Database) (name : String) : Except CatalogError (SortedSet Oid) := do
  let texts := (db.projectObjects.filter (·.1 == name)).map (·.2)
  SortedSet.ofList <$> (SortedSet.ofList texts).toList.mapM storedOid

def readObject (db : Database) (key : String) : Except CatalogError (Option ObjectRecord) :=
  match db.objects.find? (·.oid == key) with
  | some row => some <$> storedRecord row (projectsOf db key)
  | none => .ok none

/-- The rows are met in the order of their identifiers. -/
def listObjects (db : Database) : Except CatalogError (List ObjectRecord) :=
  (db.objects.mergeSort fun a b => a.oid ≤ b.oid).mapM fun row =>
    storedRecord row (projectsOf db row.oid)

def readProject (db : Database) (name : String) : Except CatalogError (Option ProjectRecord) :=
  if db.projects.contains name then do
    pure (some ⟨name, ← membersOf db name⟩)
  else .ok none

def addMember (m : SortedMap String (SortedSet Oid)) (row : String × String) :
    Except CatalogError (SortedMap String (SortedSet Oid)) := do
  let oid ← storedOid row.2
  pure (m.insert row.1 (SortedSet.add ((m.get? row.1).getD .empty) oid))

/-- A project is listed if it stands in either table. -/
def listProjects (db : Database) : Except CatalogError (List ProjectRecord) := do
  let named := SortedMap.ofList (db.projects.map fun name => (name, SortedMap.empty))
  let all ← db.projectObjects.foldlM addMember named
  pure (all.entries.map fun e => ⟨e.1, e.2⟩)

/-! ## Calls -/

/-- What one call does with the database. If it fails the database stays as it was. -/
abbrev Access :=
  StateT Database (Except CatalogError)

/-- What is wrong when the database refuses a row. -/
def refusal (message : String) : CatalogError :=
  .backend ("sqlite: " ++ message)

def write {α : Type} (t : Transaction α) : Access α :=
  fun db => (t.run db).mapError refusal

def query {α : Type} (f : Database → Except CatalogError α) : Access α :=
  fun db => (f db).map (·, db)

open Transaction in
def respond : (op : Op) → Access op.Result
  | .readObject oid => query (readObject · oid.hex)
  | .insertObject r => write do
    let inserted ← insertObject ⟨r.oid.hex, r.size, r.state.name⟩
    if inserted then
      r.projects.keys.forM fun project => do
        let _ ← insertObjectRef r.oid.hex project
    pure inserted
  | .setObjectState oid state =>
    write <| updateWhere .objects Database.objects putObjects (·.oid == oid.hex) fun row =>
      { row with state := state.name }
  | .addObjectProject oid project => write do
    if (← get).objects.any (·.oid == oid.hex) then
      let _ ← insertObjectRef oid.hex project
      pure true
    else pure false
  | .removeObjectProject oid project =>
    write <| deleteWhere .objectRefs Database.objectRefs putObjectRefs (· == (oid.hex, project))
  | .deleteObject oid => write do
    let deleted ← deleteWhere .objects Database.objects putObjects (·.oid == oid.hex)
    let _ ← deleteWhere .objectRefs Database.objectRefs putObjectRefs (·.1 == oid.hex)
    pure deleted
  | .listObjects => query listObjects
  | .countObjects => query fun db => .ok db.objects.length
  | .readProject name => query (readProject · name)
  | .createProject name => write (insertProject name)
  | .addProjectMember name oid => write do
    let _ ← insertProject name
    let _ ← insertProjectObject name oid.hex
  | .removeProjectMember name oid =>
    write <| deleteWhere .projectObjects Database.projectObjects putProjectObjects
      (· == (name, oid.hex))
  | .listProjects => query listProjects
  | .readUser username => query fun db =>
    .ok ((db.users.find? (·.1 == username)).map fun row => ⟨row.1, row.2⟩)
  | .insertUser user => write (insertUser user.username user.passwordHash)
  | .deleteUser username =>
    write <| deleteWhere .users Database.users putUsers (·.1 == username)
  | .listUsernames => query fun db => .ok ((db.users.map (·.1)).mergeSort fun a b => a ≤ b)
  | .close => pure ()

/-- Once closed, the catalog answers no call but another closing. -/
def handle : Handler interface Relational := fun op s =>
  match op with
  | .close => (.ok (), { s with isOpen := false })
  | op =>
    if s.isOpen then
      match (respond op).run s.database with
      | .ok (x, db) => (.ok x, { s with database := db })
      | .error e => (.error e, s)
    else (.error (.backend "sqlite store is closed"), s)

/-! ## From outside -/

def insertRaw (row : RawRow) (s : Relational) : Except CatalogError Unit × Relational :=
  match (write (Transaction.insertRaw row)).run s.database with
  | .ok (x, db) => (.ok x, { s with database := db })
  | .error e => (.error e, s)

def addTrigger (t : Trigger) (s : Relational) : Relational :=
  { s with database.triggers := t :: s.database.triggers }

def describe : String :=
  "SqliteMetaStore \x7b .. \x7d"

end Relational

end BlobDepot.Catalog
