import BlobDepot.Catalog.Database
import BlobDepot.Config.Address
import BlobDepot.Files.Interface
import BlobDepot.Files.Tree

/-!
# The host

What the program asks of its surroundings: files, databases in files, an address to listen on,
random bytes, a place to print to and a log.
-/

namespace BlobDepot

inductive LogLevel where
  | debug
  | info
  | warn
  deriving DecidableEq

namespace LogLevel

def name : LogLevel → String
  | debug => "DEBUG"
  | info => "INFO"
  | warn => "WARN"

end LogLevel

namespace Host

inductive Op where
  | files (op : Files.Op)
  /-- A file that is missing or empty becomes an empty database. -/
  | readDatabase (path : FilePath)
  | saveDatabase (path : FilePath) (db : Catalog.Database)
  | listen (address : SocketAddress)
  /-- Answers requests until the program is interrupted. -/
  | serve
  | salt
  | print (text : String)
  | log (level : LogLevel) (text : String)

@[reducible] def Op.Answer : Op → Type
  | .files op => Except IoFault op.Result
  | .readDatabase _ => Except IoFault Catalog.Database
  | .listen _ => Except IoFault Unit
  | .salt => List UInt8
  | .saveDatabase _ _ | .serve | .print _ | .log _ _ => Unit

abbrev interface : Interface :=
  ⟨Op, Op.Answer⟩

end Host

abbrev HostM :=
  Prog Host.interface

namespace Host

def ask (op : Op) : HostM op.Answer :=
  Prog.perform (I := interface) op

def log (level : LogLevel) (text : String) : HostM Unit :=
  ask (.log level text)

def files {α : Type} (p : FilesM α) : ExceptT IoFault HostM α :=
  ExceptT.mk (p.run.interpret fun op => ask (.files op))

def readFile (path : FilePath) : ExceptT IoFault HostM ByteArray := do
  match (← files (Files.ask (.openFile path))).readAll with
  | .ok b => pure b
  | .error f => throw f

/-- Whether there is a file that is no directory. -/
def isFile (path : FilePath) : HostM Bool := do
  match ← (files do
    let _ ← Files.ask (.size path)
    Files.ask (.isDirectory path)).run with
  | .ok isDirectory => pure !isDirectory
  | .error _ => pure false

end Host

end BlobDepot

/-!
## A world for the program

A host that is a value: a tree of files, in which no device fails, and what has been printed and
logged. Whoever serves is interrupted at once.
-/

namespace BlobDepot.Host

structure World where
  tree : Files.Tree
  /-- The number of salts that have been given out. -/
  salts : Nat
  printed : String
  /-- The newest line stands first. -/
  logged : List LogLevel

namespace World

def ofTree (tree : Files.Tree) : World :=
  ⟨tree, 0, "", []⟩

def readDatabase (t : Files.Tree) (p : FilePath) : Except IoFault (Catalog.Database × Files.Tree) := do
  let l ← t.resolve p
  let fresh := (Catalog.Database.empty, t.put l (.database .empty))
  match t.node? l with
  | none => pure fresh
  | some (.database db) => pure (db, t)
  | some .directory => throw .isDirectory
  | some (.file b) => if b.isEmpty then pure fresh else throw .notDatabase

def saveDatabase (t : Files.Tree) (p : FilePath) (db : Catalog.Database) : Files.Tree :=
  match t.resolve p with
  | .ok l => t.put l (.database db)
  | .error _ => t

/-- The addresses of the machine: the loopback, and all of them at once. -/
def isLocal : SocketAddress → Bool
  | .v4 ip _ => ip.a = 127 || ip = ⟨0, 0, 0, 0⟩
  | .v6 ip _ _ => (ip.groups.take 7).all (· == 0) && ip.groups.getLastD 0 ≤ 1

/-- Bytes that differ from salt to salt. -/
def saltOf (n : Nat) : List UInt8 :=
  (List.range 16).map fun i => UInt8.ofNat (n / Nat.pow 256 i + 17 * i)

def handle : Handler interface World := fun op w =>
  match op with
  | .files op =>
    let (x, tree) := Files.Tree.handle op w.tree
    (x, { w with tree })
  | .readDatabase p =>
    match readDatabase w.tree p with
    | .ok (db, tree) => (.ok db, { w with tree })
    | .error f => (.error f, w)
  | .saveDatabase p db => ((), { w with tree := saveDatabase w.tree p db })
  | .listen a => (if isLocal a then .ok () else .error .addressNotAvailable, w)
  | .serve => ((), w)
  | .salt => (saltOf w.salts, { w with salts := w.salts + 1 })
  | .print text => ((), { w with printed := w.printed ++ text })
  | .log level _ => ((), { w with logged := level :: w.logged })

end World

end BlobDepot.Host
