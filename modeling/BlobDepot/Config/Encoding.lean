import BlobDepot.Config.Basic
import BlobDepot.Encoding.Decode
import BlobDepot.Encoding.Toml.Reader
import BlobDepot.Encoding.Toml.Writer

/-!
# Encoded configurations
-/

/-!
## Configurations as values

Fields that are missing have their standard values, except in the entries of a directory.
-/

namespace BlobDepot

open Decoder

namespace SocketAddress

def decode : Decoder SocketAddress := fun t => do
  match parse? (← Decoder.text t) with
  | some a => pure a
  | none => throw .unfit

end SocketAddress

/-! ### The catalog -/

namespace CatalogBackend

def value : CatalogBackend → Value
  | memory => .record [("backend", .text "memory")]
  | sqlite path => .record [("backend", .text "sqlite"), ("path", .text path)]

/-- The backend of a name, with the default path. -/
def named : Decoder CatalogBackend := fun t => do
  let s ← Decoder.text t
  if s = "memory" then pure memory
  else if s = "sqlite" then pure (sqlite standardPath)
  else throw .unfit

/-- Finds the name, and checks the form of the other values as it meets them. -/
def takeName (room : Nat) : List (Label × Tree) → Option CatalogBackend →
    Except DecodeError (Option CatalogBackend)
  | [], found => .ok found
  | (.refused f _, _) :: _, _ => .error f.error
  | (.text name, t) :: r, found =>
    if name = "backend" then
      if found.isSome then .error .unfit
      else do takeName room r (some (← named t))
    else do
      clear (t.strictFault room)
      takeName room r found

/-- The other settings of a backend, by name, when all of them have been met. -/
def withFields (l : List (Label × Tree)) : CatalogBackend → Except DecodeError CatalogBackend
  | memory => .ok memory
  | sqlite path => do
    let found ← fields [.of "path" Decoder.text] (.record l none)
    pure (sqlite (← found.optional "path" Decoder.text path))

/-- The other settings of a backend, in order. -/
def withItems (items : List Tree) : CatalogBackend → Except DecodeError CatalogBackend
  | memory => .ok memory
  | sqlite path =>
    match items with
    | [] => .ok (sqlite path)
    | [t] => sqlite <$> Decoder.text t
    | _ => .error .unfit

/-- The name decides what else is read. It may be the first item of a list. -/
def decode (room : Nat) : Decoder CatalogBackend
  | .record l stop => do
    let found ← takeName (room - 1) l none
    clear stop
    match found with
    | some b => b.withFields (l.filter (·.1 ≠ .text "backend"))
    | none => throw .unfit
  | .list [] stop _ => do
    clear stop
    throw .unfit
  | .list (t :: r) stop _ => do
    let b ← named t
    clear (Tree.strictFaults (room - 1) r <|> stop)
    b.withItems r
  | t => unfit t

end CatalogBackend

/-! ### The vault -/

namespace VaultSettings

def value (v : VaultSettings) : Value :=
  .record [("path", .text v.path), ("memory_spool_limit", .nat v.spoolLimit)]

def decode : Decoder VaultSettings := fun t => do
  let found ← fields [.of "path" Decoder.text, .of "memory_spool_limit" nat64] t
  pure ⟨← found.optional "path" Decoder.text standard.path,
    ← found.optional "memory_spool_limit" nat64 standard.spoolLimit⟩

end VaultSettings

/-! ### The directory -/

namespace Directory.Settings

def valueFields (s : Settings) : List (String × Value) :=
  [("base_dn", .text s.baseDn), ("user_object_class", .text s.userObjectClass),
    ("user_attribute", .text s.userAttribute)]

def value (s : Settings) : Value :=
  .record s.valueFields

def slots : List Slot :=
  [.of "base_dn" Decoder.text, .of "user_object_class" Decoder.text,
    .of "user_attribute" Decoder.text]

def ofFound (found : Found) : Except DecodeError Settings := do
  pure ⟨← found.optional "base_dn" Decoder.text standard.baseDn,
    ← found.optional "user_object_class" Decoder.text standard.userObjectClass,
    ← found.optional "user_attribute" Decoder.text standard.userAttribute⟩

def decode : Decoder Settings := fun t => do
  ofFound (← fields slots t)

end Directory.Settings

namespace Directory.StaticEntry

def value (e : StaticEntry) : Value :=
  .record [("dn", .text e.dn), ("object_class", .text e.objectClass), ("uid", .text e.uid),
    ("password_hash", .text e.passwordHash)]

def decode : Decoder StaticEntry := fun t => do
  let found ← fields [.of "dn" Decoder.text, .of "object_class" Decoder.text,
    .of "uid" Decoder.text, .of "password_hash" Decoder.text] t
  pure ⟨← found.required "dn" Decoder.text,
    ← found.optional "object_class" Decoder.text Settings.standard.userObjectClass,
    ← found.required "uid" Decoder.text, ← found.required "password_hash" Decoder.text⟩

end Directory.StaticEntry

namespace DirectorySection

def value (d : DirectorySection) : Value :=
  .record (("enabled", .bool d.enabled) :: d.settings.valueFields ++
    [("entries", .list (d.entries.map Directory.StaticEntry.value))])

def slots : List Slot :=
  [.of "enabled" Decoder.bool, .of "entries" (Decoder.list Directory.StaticEntry.decode)]

/-- Takes the section's own fields, and checks the form of the others as it meets them. -/
def takeOwn (room : Nat) : List (Label × Tree) → Found → Except DecodeError Found
  | [], found => .ok found
  | (.refused f _, _) :: _, _ => .error f.error
  | (.text name, t) :: r, found =>
    match slots.find? (·.name == name) with
    | some slot =>
      if (found.get? name).isSome then .error .unfit
      else do takeOwn room r (← slot.take t found)
    | none => do
      clear (t.strictFault room)
      takeOwn room r found

def isOwn (l : Label) : Bool :=
  l = .text "enabled" || l = .text "entries"

/-- The settings stand beside the section's own fields, and are read when all have been met. A list
cannot hold both. -/
def decode (room : Nat) : Decoder DirectorySection
  | .record l stop => do
    let found ← takeOwn (room - 1) l []
    clear stop
    let enabled ← found.optional "enabled" Decoder.bool false
    let settings ← Directory.Settings.decode (.record (l.filter fun p => !isOwn p.1) none)
    let entries ← found.optional "entries" (Decoder.list Directory.StaticEntry.decode) []
    pure ⟨enabled, settings, entries⟩
  | .list _ _ _ => .error .unfit
  | t => unfit t

end DirectorySection

/-! ### The whole -/

namespace Config

def fields (c : Config) : List (String × Value) :=
  [("listen", .text c.listen.text), ("host", .text c.host), ("scheme", .text c.scheme),
    ("public", .bool c.isPublic), ("admin_user", .text c.adminUser),
    ("admin_pass", .text c.adminPass), ("meta", c.catalog.value), ("content", c.vault.value),
    ("directory", c.directory.value)]

def value (c : Config) : Value :=
  .record c.fields

/-- Reads a configuration whose values lie within each other no deeper than so many levels. -/
def decode (levels : Nat) : Decoder Config := fun t => do
  let room := levels - 1
  let found ← Decoder.fields [.of "listen" SocketAddress.decode, .of "host" Decoder.text,
    .of "scheme" Decoder.text, .of "public" Decoder.bool, .of "admin_user" Decoder.text,
    .of "admin_pass" Decoder.text, .of "meta" (CatalogBackend.decode room),
    .of "content" VaultSettings.decode, .of "directory" (DirectorySection.decode room)] t
  let s := standard
  pure {
    listen := ← found.optional "listen" SocketAddress.decode s.listen
    host := ← found.optional "host" Decoder.text s.host
    scheme := ← found.optional "scheme" Decoder.text s.scheme
    isPublic := ← found.optional "public" Decoder.bool s.isPublic
    adminUser := ← found.optional "admin_user" Decoder.text s.adminUser
    adminPass := ← found.optional "admin_pass" Decoder.text s.adminPass
    catalog := ← found.optional "meta" (CatalogBackend.decode room) s.catalog
    vault := ← found.optional "content" VaultSettings.decode s.vault
    directory := ← found.optional "directory" (DirectorySection.decode room) s.directory }

end Config

/-! ## Configurations as texts -/

inductive ConfigError where
  /-- A file cannot be read. -/
  | unreadable (path : String) (cause : String)
  /-- A text is not that of a configuration. -/
  | unfit (detail : String)
  /-- What is wrong with the text of a file. -/
  | inFile (path : String) (cause : ConfigError)
  /-- A limit needs more than 64 bits with its sign. -/
  | unwritable
  deriving DecidableEq

namespace ConfigError

/-- What is wrong, without the words that tell that the configuration is at fault. -/
def detail : ConfigError → String
  | unreadable path cause => "read " ++ path ++ ": " ++ cause
  | unfit detail => detail
  | inFile path cause => path ++ ": configuration error: " ++ cause.detail
  | unwritable => "out-of-range value for u64 type"

def message (e : ConfigError) : String :=
  "configuration error: " ++ e.detail

end ConfigError

namespace Config

/-- What is said of a text that cannot be read. The place in it is not told. -/
def tomlComplaint : String :=
  "TOML parse error"

/-- A text has no more levels than characters. -/
def ofToml (s : String) : Except ConfigError Config :=
  match Toml.read? s with
  | none => .error (.unfit tomlComplaint)
  | some t =>
    match decode (s.length + 2) t with
    | .ok c => .ok c
    | .error _ => .error (.unfit tomlComplaint)

def toToml (c : Config) : Except ConfigError String :=
  match Toml.write? c.fields with
  | some s => .ok s
  | none => .error .unwritable

end Config

end BlobDepot
