import BlobDepot.Encoding.Value
import BlobDepot.Files.Interface
import BlobDepot.Record
import BlobDepot.Prog
import BlobDepot.Text.Basic

/-!
# The vault

The bytes of objects are reached through single calls. A vault keeps what it is given and knows
nothing of digests.
-/

/-! ## Failures -/

namespace BlobDepot

inductive VaultError where
  | notFound (oid : String)
  | sizeMismatch (expected : Int) (actual : Nat)
  | hashMismatch (expected actual : String)
  | backend (reason : String)
  | io (fault : IoFault)
  deriving DecidableEq

namespace VaultError

def message : VaultError → String
  | notFound oid => "content not found: " ++ oid
  | sizeMismatch expected actual =>
    "size mismatch: declared " ++ Text.decimal expected ++ " bytes, got " ++ Text.decimal actual
  | hashMismatch expected actual =>
    "hash mismatch: expected " ++ expected ++ ", computed " ++ actual
  | backend reason => "storage backend error: " ++ reason
  | .io fault => "I/O error: " ++ fault.message

/-- The bytes were refused; the storage is sound. -/
def isIntegrity : VaultError → Bool
  | sizeMismatch _ _ | hashMismatch _ _ => true
  | _ => false

/-- The mismatch of a length that may exceed what a signed word of 64 bits holds. -/
def ofLength (expected actual : Nat) : VaultError :=
  sizeMismatch (min expected Word.maxInt64.toNat) actual

end VaultError

end BlobDepot

/-! ## Calls -/

namespace BlobDepot.Vault

inductive Op where
  | openBlob (oid : Oid)
  /-- Stores the first bytes of a stream, as many as `length` says. -/
  | write (oid : Oid) (source : Stream) (length : Nat)
  | size (oid : Oid)
  | delete (oid : Oid)

@[reducible] def Op.Result : Op → Type
  | .openBlob _ => Option Stream
  | .write _ _ _ => Unit
  | .size _ => Option Nat
  | .delete _ => Bool

abbrev interface : Interface :=
  ⟨Op, fun op => Except VaultError op.Result⟩

end BlobDepot.Vault

namespace BlobDepot

/-- A program of vault calls, which stops at the first failure that it does not handle. -/
abbrev VaultM :=
  ExceptT VaultError (Prog Vault.interface)

namespace Vault

def ask (op : Op) : VaultM op.Result :=
  ExceptT.mk (Prog.perform (I := interface) op)

/-- Whether there are bytes, which is so if they have a size. -/
def present (oid : Oid) : VaultM Bool := do
  let size ← ask (.size oid)
  pure size.isSome

end Vault

end BlobDepot
