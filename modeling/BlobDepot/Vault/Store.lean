import BlobDepot.Files.Interface
import BlobDepot.Files.Tree
import BlobDepot.SortedMap
import BlobDepot.Text.Describe
import BlobDepot.Vault.Interface

/-!
# Vault stores

Bytes are kept in memory, with a defect or without, or in files below a root.
-/

/-! ## Memory -/

namespace BlobDepot.Vault

structure Memory where
  blobs : SortedMap Oid ByteArray

namespace Memory

def empty : Memory :=
  ⟨.empty⟩

/-- The first bytes of a stream, if there are so many. -/
def readExactly (source : Stream) (length : Nat) : Except VaultError ByteArray :=
  match (source.takeBytes length).readAll with
  | .error f => .error (.io f)
  | .ok b => if b.size = length then .ok b else .error (.ofLength length b.size)

def handle : Handler interface Memory := fun op m =>
  match op with
  | .openBlob oid => (.ok ((m.blobs.get? oid).map Stream.ofBytes), m)
  | .write oid source length =>
    match readExactly source length with
    | .ok b => (.ok (), ⟨m.blobs.insert oid b⟩)
    | .error e => (.error e, m)
  | .size oid => (.ok ((m.blobs.get? oid).map ByteArray.size), m)
  | .delete oid => (.ok (m.blobs.contains oid), ⟨m.blobs.erase oid⟩)

def describe (m : Memory) : String :=
  Text.Describe.fields "InMemoryByteStorage" [("blob_count", Text.decimal m.blobs.size)]

end Memory

/-!
## Defective vaults

Vaults in memory that do not do what they answer. A depot must not take them at their word.
-/

inductive Defect where
  /-- The last byte of what is written gets lost. -/
  | lossy
  /-- All that is written gets lost. -/
  | vanishing
  /-- No call succeeds. -/
  | broken
  deriving DecidableEq

def injectedFault : VaultError :=
  .backend "injected fault"

/-- The answer to a call of a vault with a defect. -/
def Defect.handle : Defect → Handler interface Memory
  | .broken, .openBlob _, m | .broken, .write _ _ _, m | .broken, .size _, m
  | .broken, .delete _, m => (.error injectedFault, m)
  | .lossy, .write oid source length, m =>
    match source.readAll with
    | .ok b =>
      Memory.handle (.write oid (Stream.ofBytes (b.extract 0 (b.size - 1))) (length - 1)) m
    | .error f => (.error (.io f), m)
  | .vanishing, .write _ source _, m =>
    match source.readAll with
    | .ok _ => (.ok (), m)
    | .error f => (.error (.io f), m)
  | _, op, m => Memory.handle op m

end BlobDepot.Vault

/-!
## A vault of files

The bytes of an object lie in a file of their own, two directories below the root. They are written
to a file beside it, which then takes its place in one step: readers only ever meet whole objects.
-/

namespace BlobDepot.Vault.Filed

/-- The two directories on the way to an object. -/
def shard (oid : Oid) : List String :=
  let l := oid.hex.toList
  [String.ofList (l.take 2), String.ofList ((l.drop 2).take 2)]

def directory (root : FilePath) (oid : Oid) : FilePath :=
  root.join (shard oid)

def path (root : FilePath) (oid : Oid) : FilePath :=
  root.join (shard oid ++ [oid.hex])

/-- A file in the making. Its name is no object's. -/
def partialPath (root : FilePath) (oid : Oid) (n : Nat) : FilePath :=
  root.join (shard oid ++ ["." ++ oid.hex ++ "." ++ Text.decimal n ++ ".partial"])

/-! ### Writing -/

def lift {α : Type} (p : FilesM α) : ExceptT VaultError (Prog Files.interface) α :=
  ExceptT.mk ((fun x => x.mapError VaultError.io) <$> p.run)

/-- Copies a stream to the end of a file, and counts its bytes. -/
def copy (file : FilePath) : Stream → Nat → FilesM Nat
  | [], n => pure n
  | .bytes b :: r, n => do
    Files.ask (.append file b)
    copy file r (n + b.size)
  | .fault f :: _, _ => throw f

def writePartial (file : FilePath) (source : Stream) (length : Nat) :
    ExceptT VaultError (Prog Files.interface) Unit := do
  lift (Files.ask (.create file))
  let copied ← lift (copy file (source.takeBytes length) 0)
  if copied ≠ length then throw (.ofLength length copied)
  lift (Files.ask (.flush file))
  lift (Files.ask (.sync file))

/-- If the steps fail the file is removed, as far as that is possible. -/
def removing (file : FilePath) (steps : ExceptT VaultError (Prog Files.interface) Unit) :
    ExceptT VaultError (Prog Files.interface) Unit := do
  match ← ExceptT.lift steps.run with
  | .ok () => pure ()
  | .error e =>
    let _ ← ExceptT.lift (Files.ask (.remove file)).run
    throw e

def write (root : FilePath) (oid : Oid) (source : Stream) (length : Nat) :
    ExceptT VaultError (Prog Files.interface) Unit := do
  lift (Files.makePath (directory root oid))
  let file := partialPath root oid (← lift (Files.ask .freshNumber))
  removing file (writePartial file source length)
  removing file (lift (Files.ask (.rename file (path root oid))))

/-! ### Calls -/

/-- What is missing is no failure. -/
def orMissing {α : Type} (missing : α) (p : FilesM α) :
    ExceptT VaultError (Prog Files.interface) α := do
  match ← ExceptT.lift p.run with
  | .ok x => pure x
  | .error .noEntry => pure missing
  | .error f => throw (.io f)

def answer (root : FilePath) : (op : Op) → ExceptT VaultError (Prog Files.interface) op.Result
  | .openBlob oid => orMissing none (some <$> Files.ask (.openFile (path root oid)))
  | .write oid source length => write root oid source length
  | .size oid => orMissing none (some <$> Files.ask (.size (path root oid)))
  | .delete oid => orMissing false ((fun _ => true) <$> Files.ask (.remove (path root oid)))

/-- The vault over any file system. -/
def handle {σ : Type} (files : Handler Files.interface σ) (root : FilePath) :
    Handler interface σ := fun op s =>
  (answer root op).run.run files s

end BlobDepot.Vault.Filed

/-! ## Stores -/

namespace BlobDepot.Vault

/-- Bytes are kept in memory, with a defect or without, or in files below a root. -/
inductive Store where
  | memory (m : Memory)
  | defective (d : Defect) (m : Memory)
  | filed (root : FilePath) (tree : Files.Tree)

namespace Store

def name : Store → String
  | memory _ => "memory"
  | defective _ _ => "defective"
  | filed _ _ => "fs"

def handle : Handler interface Store := fun op s =>
  match s with
  | memory m =>
    let (x, m) := Memory.handle op m
    (x, memory m)
  | defective d m =>
    let (x, m) := d.handle op m
    (x, defective d m)
  | filed root tree =>
    let (x, tree) := Filed.handle Files.Tree.handle root op tree
    (x, filed root tree)

end Store

end BlobDepot.Vault
