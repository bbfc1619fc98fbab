import BlobDepot.Encoding.Decode
import BlobDepot.Record

/-!
# Records as values

The forms in which records are exchanged. A record's mark of having been there before is not among
its fields, and neither are those fields of a request that its address and its headers hold.
-/

namespace BlobDepot

open Decoder

namespace Oid

def value (oid : Oid) : Value :=
  .text oid.hex

def decode : Decoder Oid := fun t => do
  match parse (← Decoder.text t) with
  | .ok oid => pure oid
  | .error _ => throw .unfit

end Oid

namespace ObjectState

def value (s : ObjectState) : Value :=
  .text s.name

def decode : Decoder ObjectState :=
  Decoder.case parse?

end ObjectState

namespace ObjectRecord

def value (r : ObjectRecord) : Value :=
  .record [("oid", r.oid.value), ("size", .int r.size), ("state", r.state.value),
    ("projects", .texts r.projects.keys)]

def decodeProjects : Decoder (SortedSet String) := fun t =>
  SortedSet.ofList <$> Decoder.list Decoder.text t

def decode : Decoder ObjectRecord := fun t => do
  let found ← fields [.of "oid" Oid.decode, .of "size" int64, .of "state" ObjectState.decode,
    .of "projects" decodeProjects] t
  pure ⟨← found.required "oid" Oid.decode, ← found.required "size" int64,
    ← found.required "state" ObjectState.decode,
    ← found.optional "projects" decodeProjects .empty, false⟩

end ObjectRecord

namespace ProjectRecord

def value (p : ProjectRecord) : Value :=
  .record [("name", .text p.name), ("oids", .list (p.oids.keys.map Oid.value))]

def decodeOids : Decoder (SortedSet Oid) := fun t =>
  SortedSet.ofList <$> Decoder.list Oid.decode t

def decode : Decoder ProjectRecord := fun t => do
  let found ← fields [.of "name" Decoder.text, .of "oids" decodeOids] t
  pure ⟨← found.required "name" Decoder.text, ← found.optional "oids" decodeOids .empty⟩

end ProjectRecord

namespace UserRecord

def value (u : UserRecord) : Value :=
  .record [("username", .text u.username), ("password_hash", .text u.passwordHash)]

def decode : Decoder UserRecord := fun t => do
  let found ← fields [.of "username" Decoder.text, .of "password_hash" Decoder.text] t
  pure ⟨← found.required "username" Decoder.text, ← found.required "password_hash" Decoder.text⟩

end UserRecord

namespace ObjectRequest

def value (r : ObjectRequest) : Value :=
  .record [("oid", .text r.oid), ("size", .int r.size)]

def decode : Decoder ObjectRequest := fun t => do
  let found ← fields [.of "oid" Decoder.text, .of "size" int64] t
  pure ⟨← found.optional "oid" Decoder.text "", ← found.optional "size" int64 0, "", "", ""⟩

end ObjectRequest

end BlobDepot
