import BlobDepot.Digest
import BlobDepot.Record
import BlobDepot.Text.Describe
import BlobDepot.Vault.Interface

/-!
# Uploads

The bytes of an upload come in reads. They are counted and hashed as they come, and are held in a
spool. The vault is called when all of them have been found to be what their record says.

A spool does not fail here: that a file for it cannot be created, written or read is left out.
-/

namespace BlobDepot.Vault.Upload

/-- One read from where an upload comes from. It brings some bytes, and none at the end. -/
abbrev source : Interface :=
  ⟨Unit, fun _ => Except IoFault ByteArray⟩

abbrev interface : Interface :=
  source.sum Vault.interface

end BlobDepot.Vault.Upload

namespace BlobDepot

/-- A program of reads and vault calls, which stops at the first failure that it does not handle. -/
abbrev UploadM :=
  ExceptT VaultError (Prog Vault.Upload.interface)

namespace Vault.Upload

def read : UploadM ByteArray :=
  ExceptT.mk <| (fun x : Except IoFault ByteArray => x.mapError .io) <$>
    Prog.perform (I := interface) (.inl ())

def onVault {α : Type} (p : VaultM α) : UploadM α :=
  ExceptT.mk p.run.right

def next : Handler source Stream
  | (), [] => (.ok .empty, [])
  | (), .bytes b :: r => (.ok b, r)
  | (), .fault f :: r => (.error f, r)

/-! ## Hashing and spooling -/

structure Hasher where
  data : ByteArray

namespace Hasher

def empty : Hasher :=
  ⟨.empty⟩

def update (h : Hasher) (chunk : ByteArray) : Hasher :=
  ⟨h.data ++ chunk⟩

def count (h : Hasher) : Nat :=
  h.data.size

def finish (h : Hasher) : Oid :=
  Oid.ofContent h.data

def describe (h : Hasher) : String :=
  Text.Describe.fields "ContentHasher" [("bytes_hashed", Text.decimal h.count)]

theorem count_update (h : Hasher) (chunk : ByteArray) :
    (h.update chunk).count = h.count + chunk.size :=
  ByteArray.size_append

end Hasher

/-- Holds an upload while it is verified. A large one is held in a file that has no name. -/
inductive Spool where
  | memory (bytes : ByteArray)
  | file (bytes : ByteArray)

namespace Spool

/-- Up to `limit` bytes are held in memory. -/
def ofSize (limit declared : Nat) : Spool :=
  if declared ≤ limit then memory .empty else file .empty

def append : Spool → ByteArray → Spool
  | memory b, chunk => memory (b ++ chunk)
  | file b, chunk => file (b ++ chunk)

def bytes : Spool → ByteArray
  | memory b | file b => b

def reader (s : Spool) : Stream :=
  Stream.ofBytes s.bytes

end Spool

/-! ## Verifying -/

/-- Reads up to the end, or until there are more bytes than have been declared. -/
def receive (declared : Nat) (hasher : Hasher) (spool : Spool) : UploadM (Hasher × Spool) := do
  let chunk ← read
  if chunk.size = 0 then
    pure (hasher, spool)
  else if declared < (hasher.update chunk).count then
    throw (.sizeMismatch declared (hasher.update chunk).count)
  else
    receive declared (hasher.update chunk) (spool.append chunk)
termination_by declared - hasher.count
decreasing_by
  rw [Hasher.count_update] at *
  omega

/-- The size is looked at before the digest. -/
def check (record : ObjectRecord) (hasher : Hasher) : Except VaultError Unit :=
  if hasher.count ≠ record.size.toNat then
    .error (.sizeMismatch record.size hasher.count)
  else if hasher.finish ≠ record.oid then
    .error (.hashMismatch record.oid.hex hasher.finish.hex)
  else .ok ()

def verified (limit : Nat) (record : ObjectRecord) : UploadM Spool :=
  if record.size < 0 then throw (.sizeMismatch record.size 0)
  else do
    let declared := record.size.toNat
    let (hasher, spool) ← receive declared .empty (.ofSize limit declared)
    match check record hasher with
    | .ok () => pure spool
    | .error e => throw e

/-- Stores verified bytes. The vault is asked afterwards how many it has. -/
def store (record : ObjectRecord) (spool : Spool) : VaultM Unit := do
  let declared := record.size.toNat
  ask (.write record.oid spool.reader declared)
  let stored ← ask (.size record.oid)
  if stored ≠ some declared then throw (.sizeMismatch record.size (stored.getD 0))

def put (limit : Nat) (record : ObjectRecord) : UploadM Unit := do
  let spool ← verified limit record
  onVault (store record spool)

end Vault.Upload

end BlobDepot

/-!
## Verified storage

Bytes reach a vault by uploads only, so what is read from it has been verified.
-/

namespace BlobDepot.Vault

/-- Uploads up to this size are held in memory while they are verified. -/
def standardSpoolLimit : Nat :=
  8 * 1024 * 1024

/-- Stores what a stream brings, if it is what the record says. Up to `limit` bytes are held in memory meanwhile. -/
def put (limit : Nat) (record : ObjectRecord) (body : Stream) : VaultM Unit :=
  ExceptT.mk (Prod.fst <$> (Upload.put limit record).run.supply Upload.next body.buffered)

def get (oid : Oid) : VaultM Stream := do
  match ← ask (.openBlob oid) with
  | some s => pure s
  | none => throw (.notFound oid.hex)

/-- Whether there are bytes. A vault that fails has none. -/
def exists? (oid : Oid) : Prog interface Bool := do
  match ← (present oid).run with
  | .ok found => pure found
  | .error _ => pure false

/-- Says whether there were bytes. -/
def delete (oid : Oid) : VaultM Bool :=
  ask (.delete oid)

def describe (backend : String) (spoolLimit : Nat) : String :=
  Text.Describe.fields "ContentStore"
    [("backend", Text.Quoted.ofString backend),
      ("memory_spool_limit", Text.decimal spoolLimit)]

end BlobDepot.Vault
