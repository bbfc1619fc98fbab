import BlobDepot.Config.Address
import BlobDepot.Service
import BlobDepot.Vault.Upload

/-!
# Configuration

What is set once, when the depot starts.
-/

namespace BlobDepot

inductive CatalogBackend where
  | memory
  | sqlite (path : String)
  deriving DecidableEq

namespace CatalogBackend

def standardPath : String :=
  "harbour-meta.db"

def name : CatalogBackend → String
  | memory => "memory"
  | sqlite _ => "sqlite"

def describe : CatalogBackend → String
  | memory => "Memory"
  | sqlite path => Text.Describe.fields "Sqlite" [("path", Text.Quoted.ofPath path)]

end CatalogBackend

/-- Where bytes are kept, and how large an upload may be to be verified in memory. -/
structure VaultSettings where
  path : String
  spoolLimit : Nat
  deriving DecidableEq

namespace VaultSettings

def standard : VaultSettings :=
  ⟨"harbour-content", Vault.standardSpoolLimit⟩

def describe (v : VaultSettings) : String :=
  Text.Describe.fields "ContentConfig"
    [("path", Text.Quoted.ofPath v.path), ("memory_spool_limit", Text.decimal v.spoolLimit)]

end VaultSettings

/-- The directory that takes the place of local users when it is enabled. -/
structure DirectorySection where
  enabled : Bool
  settings : Directory.Settings
  entries : List Directory.StaticEntry
  deriving DecidableEq

namespace DirectorySection

def standard : DirectorySection :=
  ⟨false, .standard, []⟩

def describe (d : DirectorySection) : String :=
  Text.Describe.fields "DirectoryConfig"
    [("enabled", Text.Describe.bool d.enabled), ("settings", d.settings.describe),
      ("entries", Text.Describe.list (d.entries.map Directory.StaticEntry.describe))]

end DirectorySection

structure Config where
  listen : SocketAddress
  /-- The name, and the port, by which clients reach the server. -/
  host : String
  scheme : String
  /-- Nobody is turned away. -/
  isPublic : Bool
  adminUser : String
  /-- Nothing can be managed while this is empty. -/
  adminPass : String
  catalog : CatalogBackend
  vault : VaultSettings
  directory : DirectorySection
  deriving DecidableEq

namespace Config

def standard : Config where
  listen := .v4 ⟨127, 0, 0, 1⟩ 8080
  host := "localhost:8080"
  scheme := "http"
  isPublic := false
  adminUser := "admin"
  adminPass := ""
  catalog := .sqlite CatalogBackend.standardPath
  vault := .standard
  directory := .standard

def isHttps (c : Config) : Bool :=
  Text.sameLetters c.scheme "https"

/-- The scheme of links. Whatever is not secure counts as plain. -/
def linkScheme (c : Config) : String :=
  if c.isHttps then "https" else "http"

def adminEnabled (c : Config) : Bool :=
  c.adminUser != "" && c.adminPass != ""

def authMode (c : Config) : AuthMode :=
  if c.isPublic then .everyone
  else if c.directory.enabled then
    .directory ⟨Directory.ofEntries Password.verify c.directory.entries, c.directory.settings⟩
  else .localUsers

def mask : String :=
  "********"

def redacted (c : Config) : Config :=
  { c with
    adminPass := if c.adminPass = "" then "" else mask
    directory.entries := c.directory.entries.map fun e => { e with passwordHash := mask } }

end Config

end BlobDepot
