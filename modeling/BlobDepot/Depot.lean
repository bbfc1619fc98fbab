import BlobDepot.Catalog.Interface
import BlobDepot.Catalog.Store
import BlobDepot.Config.Basic
import BlobDepot.Config.Encoding
import BlobDepot.Host
import BlobDepot.Service
import BlobDepot.Vault.Interface
import BlobDepot.Vault.Store
import BlobDepot.Vault.Upload

/-!
# The depot

A depot answers requests by calls of a catalog and of a vault, each of them a call of its own. It
holds what does not change from request to request.
-/

namespace BlobDepot

structure Depot where
  config : Config
  service : Service
  /-- The kinds of the two stores. -/
  catalogName : String
  vaultName : String

namespace Depot

abbrev interface : Interface :=
  Catalog.interface.sum Vault.interface

/-- The depot of a configuration. Passwords are kept by the scheme. -/
def ofConfig (c : Config) (scheme : Password.Scheme) (catalogName vaultName : String) : Depot :=
  ⟨c, ⟨⟨c.authMode, scheme⟩⟩, catalogName, vaultName⟩

end Depot

/-! ## Failures -/

inductive DepotError where
  | catalog (e : CatalogError)
  | vault (e : VaultError)
  | badRequest (reason : String)
  | notAcceptable (reason : String)
  | config (e : ConfigError)
  | io (fault : IoFault)
  | internal (reason : String)
  deriving DecidableEq

namespace DepotError

def message : DepotError → String
  | catalog e => e.message
  | vault e => e.message
  | badRequest reason => "bad request: " ++ reason
  | notAcceptable reason => "not acceptable: " ++ reason
  | config e => e.message
  | .io fault => "I/O error: " ++ fault.message
  | internal reason => "internal error: " ++ reason

def chain : DepotError → List String
  | vault (.io fault) => [(vault (.io fault)).message, fault.message]
  | .io fault => [(DepotError.io fault).message, fault.message]
  | e => [e.message]

end DepotError

/-!
## Opening a depot

A catalog in a file is read when it is opened and saved when it is closed. The directories above the
file are made if they are missing.
-/

namespace CatalogBackend

/-- The file of a catalog. There is none for a catalog in tables that nobody else is to see. -/
def file? (path : String) : Option FilePath :=
  if path = "" ∨ path = ":memory:" then none else some (FilePath.ofText path)

def makeParent (path : String) : ExceptT CatalogError HostM Unit := do
  match FilePath.parentText? path with
  | none => pure ()
  | some above =>
    match ← ExceptT.lift (Host.files (Files.makePath (FilePath.ofText above))).run with
    | .ok () => pure ()
    | .error f => throw (.backend ("create " ++ above ++ ": " ++ f.message))

def openComplaint (path : String) (f : IoFault) : String :=
  if f = .notDatabase then "sqlite: " ++ f.message
  else "sqlite: unable to open database file: " ++ path

def openTables (path : String) : ExceptT CatalogError HostM Catalog.Relational := do
  makeParent path
  let tables ←
    match file? path with
    | none => pure .empty
    | some file =>
      match ← ExceptT.lift (Host.ask (.readDatabase file)) with
      | .ok db => pure (.ofDatabase db)
      | .error f => throw (.backend (openComplaint path f))
  Host.log .debug ("opened sqlite metadata store at " ++ path)
  pure tables

def start (b : CatalogBackend) : ExceptT CatalogError HostM Catalog.Backing := do
  let backing ←
    match b with
    | memory => pure (.memory .empty)
    | sqlite path => .relational <$> openTables path
  Host.log .info "metadata store opened"
  pure backing

/-- Closes the catalog. What is in tables is saved to their file. -/
def finish (b : CatalogBackend) (backing : Catalog.Backing) : HostM Unit :=
  match b, backing with
  | sqlite path, .relational r =>
    match file? path with
    | some file => Host.ask (.saveDatabase file r.database)
    | none => pure ()
  | _, _ => pure ()

end CatalogBackend

namespace Config

def vaultRoot (c : Config) : FilePath :=
  FilePath.ofText c.vault.path

/-- Opens the catalog, and makes the root of the vault. -/
def start (c : Config) : ExceptT DepotError HostM Catalog.Backing := do
  match ← ExceptT.lift c.catalog.start.run with
  | .error e => throw (.catalog e)
  | .ok backing =>
    match ← ExceptT.lift (Host.files (Files.makePath c.vaultRoot)).run with
    | .error f => throw (.vault (.io f))
    | .ok () => pure backing

end Config

end BlobDepot
