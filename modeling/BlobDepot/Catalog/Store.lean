import BlobDepot.Catalog.Interface
import BlobDepot.Catalog.Relational

/-!
# Catalog stores

A catalog is kept in memory or in tables, and it may be watched.
-/

/-!
## A catalog in memory

Three sorted maps. No call fails.
-/

namespace BlobDepot.Catalog

structure Memory where
  objects : SortedMap Oid ObjectRecord
  projects : SortedMap String (SortedSet Oid)
  /-- The encoded password hash of each user. -/
  users : SortedMap String String
  deriving DecidableEq

namespace Memory

def empty : Memory :=
  ⟨.empty, .empty, .empty⟩

def updateObject (m : Memory) (oid : Oid) (f : ObjectRecord → ObjectRecord) : Bool × Memory :=
  match m.objects.get? oid with
  | some r => (true, { m with objects := m.objects.insert oid (f r) })
  | none => (false, m)

/-- What a call that cannot fail answers, and the memory after it. -/
def respond (m : Memory) : (op : Op) → op.Result × Memory
  | .readObject oid => (m.objects.get? oid, m)
  | .insertObject r =>
    if m.objects.contains r.oid then (false, m)
    else (true, { m with objects := m.objects.insert r.oid { r with existing := false } })
  | .setObjectState oid state => m.updateObject oid fun r => { r with state }
  | .addObjectProject oid project =>
    m.updateObject oid fun r => { r with projects := SortedSet.add r.projects project }
  | .removeObjectProject oid project =>
    match m.objects.get? oid with
    | some r =>
      (r.projects.contains project,
        { m with objects := m.objects.insert oid { r with projects := r.projects.erase project } })
    | none => (false, m)
  | .deleteObject oid => (m.objects.contains oid, { m with objects := m.objects.erase oid })
  | .listObjects => (m.objects.values, m)
  | .countObjects => (m.objects.size, m)
  | .readProject name => ((m.projects.get? name).map fun oids => ⟨name, oids⟩, m)
  | .createProject name =>
    if m.projects.contains name then (false, m)
    else (true, { m with projects := m.projects.insert name .empty })
  | .addProjectMember name oid =>
    let oids := (m.projects.get? name).getD .empty
    ((), { m with projects := m.projects.insert name (SortedSet.add oids oid) })
  | .removeProjectMember name oid =>
    match m.projects.get? name with
    | some oids =>
      (oids.contains oid, { m with projects := m.projects.insert name (oids.erase oid) })
    | none => (false, m)
  | .listProjects => (m.projects.entries.map fun e => ⟨e.1, e.2⟩, m)
  | .readUser username => ((m.users.get? username).map fun hash => ⟨username, hash⟩, m)
  | .insertUser user =>
    if m.users.contains user.username then (false, m)
    else (true, { m with users := m.users.insert user.username user.passwordHash })
  | .deleteUser username =>
    (m.users.contains username, { m with users := m.users.erase username })
  | .listUsernames => (m.users.keys, m)
  | .close => ((), m)

def handle : Handler interface Memory := fun op m =>
  let (x, m) := m.respond op
  (.ok x, m)

def describe (m : Memory) : String :=
  Text.Describe.fields "InMemoryMetaStore" [("object_count", Text.decimal m.objects.size)]

end Memory

/-!
## Watched catalogs

Calls are counted, and hooks step in at chosen ones: another writer gets through first, or the call
fails before it has reached the catalog.
-/

structure Hook where
  /-- The name of the calls that are watched. -/
  name : String
  /-- Counted from one; all calls of the name, if absent. -/
  number : Option Nat
  /-- What another writer does first. -/
  before : List Op
  failure : Option String

def Hook.applies (hook : Hook) (name : String) (number : Nat) : Bool :=
  hook.name == name && (hook.number.isNone || hook.number == some number)

structure Watched (σ : Type) where
  inner : σ
  hooks : List Hook
  /-- How often each call has been made. -/
  counts : SortedMap String Nat

namespace Watched

variable {σ : Type}

def ofHooks (hooks : List Hook) (inner : σ) : Watched σ :=
  ⟨inner, hooks, .empty⟩

/-- Runs hooks in order up to the first that fails the call. -/
def runHooks (h : Handler interface σ) : List Hook → σ → Except CatalogError Unit × σ
  | [], s => (.ok (), s)
  | hook :: r, s =>
    let s := hook.before.foldl (fun s op => (h op s).2) s
    match hook.failure with
    | some reason => (.error (.backend reason), s)
    | none => runHooks h r s

def intercept (h : Handler interface σ) : Handler interface (Watched σ) := fun op w =>
  let number := (w.counts.get? op.name).getD 0 + 1
  let due := w.hooks.filter (·.applies op.name number)
  let (admitted, inner) := runHooks h due w.inner
  let counts := w.counts.insert op.name number
  match admitted with
  | .ok () =>
    let (x, inner) := h op inner
    (x, { w with inner, counts })
  | .error e => (.error e, { w with inner, counts })

/-- Counting is done by listing, and closing does nothing. -/
def handle (h : Handler interface σ) : Handler interface (Watched σ)
  | .countObjects, w =>
    let (x, w) := intercept h .listObjects w
    (x.map List.length, w)
  | .close, w => (.ok (), w)
  | op, w => intercept h op w

end Watched

/-! ## Stores -/

inductive Backing where
  | memory (m : Memory)
  | relational (r : Relational)

namespace Backing

def name : Backing → String
  | memory _ => "memory"
  | relational _ => "sqlite"

def describe : Backing → String
  | memory m => m.describe
  | relational _ => Relational.describe

def handle : Handler interface Backing := fun op b =>
  match b with
  | memory m =>
    let (x, m) := Memory.handle op m
    (x, memory m)
  | relational r =>
    let (x, r) := Relational.handle op r
    (x, relational r)

end Backing

inductive Store where
  | plain (b : Backing)
  | watched (w : Watched Backing)

namespace Store

/-- A store is watched if there are hooks. -/
def ofBacking (hooks : List Hook) (b : Backing) : Store :=
  if hooks.isEmpty then plain b else watched (.ofHooks hooks b)

def name : Store → String
  | plain b => b.name
  | watched _ => "hooked"

def backing : Store → Backing
  | plain b => b
  | watched w => w.inner

def withBacking : Store → Backing → Store
  | plain _, b => plain b
  | watched w, b => watched { w with inner := b }

def handle : Handler interface Store := fun op s =>
  match s with
  | plain b =>
    let (x, b) := Backing.handle op b
    (x, plain b)
  | watched w =>
    let (x, w) := Watched.handle Backing.handle op w
    (x, watched w)

end Store

end BlobDepot.Catalog
