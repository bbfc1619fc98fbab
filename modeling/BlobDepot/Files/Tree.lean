import BlobDepot.Catalog.Database
import BlobDepot.Files.Interface
import BlobDepot.SortedMap

/-!
# Trees of files

A file system in which no device fails. Every directory and file is kept under its whole path.
-/

namespace BlobDepot.Files

/-- The names on the way from the root. -/
abbrev Location :=
  List String

inductive Node where
  | directory
  | file (bytes : ByteArray)
  /-- A file that holds a database. -/
  | database (db : Catalog.Database)

structure Tree where
  nodes : SortedMap Location Node
  /-- The working directory. -/
  home : Location
  /-- The next number to give out. -/
  next : Nat

namespace Tree

/-- The working directory and the directories above it. -/
def ofHome (home : Location) : Tree :=
  ⟨SortedMap.ofList ((List.range home.length).map fun n => (home.take (n + 1), .directory)), home, 0⟩

def node? (t : Tree) (l : Location) : Option Node :=
  if l = [] then some .directory else t.nodes.get? l

def put (t : Tree) (l : Location) (n : Node) : Tree :=
  { t with nodes := t.nodes.insert l n }

def erase (t : Tree) (l : Location) : Tree :=
  { t with nodes := t.nodes.erase l }

/-- Follows names from a place. All that is passed must be a directory. -/
def walk (t : Tree) : Location → List String → Except IoFault Location
  | l, [] => .ok l
  | l, name :: r =>
    match t.node? l with
    | none => .error .noEntry
    | some .directory =>
      if name = ".." then t.walk l.dropLast r else t.walk (l ++ [name]) r
    | some _ => .error .notDirectory

def resolve (t : Tree) (p : FilePath) : Except IoFault Location :=
  t.walk (if p.isAbsolute then [] else t.home) p.parts

def directorySize : Nat :=
  4096

/-- The node at a path, and where it is. -/
def lookUp (t : Tree) (p : FilePath) : Except IoFault (Location × Node) := do
  let l ← t.resolve p
  match t.node? l with
  | some n => pure (l, n)
  | none => throw .noEntry

def makeDirectory (t : Tree) (p : FilePath) : Except IoFault Tree := do
  let l ← t.resolve p
  match t.node? l with
  | some _ => throw .exists
  | none => pure (t.put l .directory)

def create (t : Tree) (p : FilePath) : Except IoFault Tree := do
  let l ← t.resolve p
  match t.node? l with
  | some .directory => throw .isDirectory
  | _ => pure (t.put l (.file .empty))

def append (t : Tree) (p : FilePath) (bytes : ByteArray) : Except IoFault Tree := do
  match ← t.lookUp p with
  | (l, .file b) => pure (t.put l (.file (b ++ bytes)))
  | (_, .directory) => throw .isDirectory
  | (_, .database _) => pure t

def rename (t : Tree) (source target : FilePath) : Except IoFault Tree := do
  let (old, n) ← t.lookUp source
  let new ← t.resolve target
  match t.node? new with
  | some .directory => throw .isDirectory
  | _ => pure ((t.erase old).put new n)

def remove (t : Tree) (p : FilePath) : Except IoFault Tree := do
  match ← t.lookUp p with
  | (_, .directory) => throw .isDirectory
  | (l, _) => pure (t.erase l)

def openFile (t : Tree) (p : FilePath) : Except IoFault Stream := do
  match ← t.lookUp p with
  | (_, .file b) => pure (Stream.ofBytes b)
  | (_, .directory) => pure [.fault .isDirectory]
  | (_, .database _) => pure []

def size (t : Tree) (p : FilePath) : Except IoFault Nat := do
  match ← t.lookUp p with
  | (_, .file b) => pure b.size
  | (_, .directory) => pure directorySize
  | (_, .database _) => pure 0

def isDirectory (t : Tree) (p : FilePath) : Bool :=
  match t.lookUp p with
  | .ok (_, .directory) => true
  | _ => false

def change (t : Tree) : Except IoFault Tree → Except IoFault Unit × Tree
  | .ok t => (.ok (), t)
  | .error f => (.error f, t)

def handle : Handler interface Tree := fun op t =>
  match op with
  | .makeDirectory p => t.change (t.makeDirectory p)
  | .create p => t.change (t.create p)
  | .append p bytes => t.change (t.append p bytes)
  | .flush _ | .sync _ => (.ok (), t)
  | .rename source target => t.change (t.rename source target)
  | .remove p => t.change (t.remove p)
  | .openFile p => (t.openFile p, t)
  | .size p => (t.size p, t)
  | .isDirectory p => (.ok (t.isDirectory p), t)
  | .freshNumber => (.ok t.next, { t with next := t.next + 1 })

/-- All that lies below a place: its path from there, with a slash behind if it is a directory. -/
def listing (t : Tree) (l : Location) : List String :=
  let texts := t.nodes.entries.filterMap fun e =>
    if l.isPrefixOf e.1 && l.length < e.1.length then
      let text := String.intercalate "/" (e.1.drop l.length)
      match e.2 with
      | .directory => some (text ++ "/")
      | _ => some text
    else none
  texts.mergeSort fun a b => a ≤ b

end Tree

end BlobDepot.Files
