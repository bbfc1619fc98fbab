import BlobDepot.Catalog.Interface
import BlobDepot.Directory.Filter
import BlobDepot.Text.Describe

/-!
# Directories
-/

/-!
## Searching and binding

A directory resolves a search to entries and lets an entry log in by its password. A static one
holds a fixed list of entries.
-/

namespace BlobDepot

/-- What a login needs of a directory. Either question may find the directory out of reach. -/
structure Directory where
  /-- Whether the entry of this name may log in with this password. -/
  bind : (dn password : String) → Except CatalogError Bool
  /-- The entries in a subtree that a filter finds. -/
  search : (filter base : String) → Except CatalogError (List Directory.Entry)

namespace Directory

structure StaticEntry where
  dn : String
  objectClass : String
  uid : String
  /-- An encoded hash. -/
  passwordHash : String
  deriving DecidableEq

namespace StaticEntry

def describe (e : StaticEntry) : String :=
  Text.Describe.someFields "StaticEntry"
    [("dn", Text.Quoted.ofString e.dn), ("object_class", Text.Quoted.ofString e.objectClass),
      ("uid", Text.Quoted.ofString e.uid)]

/-- The first component of the name counts as an attribute too. -/
def entry (e : StaticEntry) : Entry :=
  let entry := ((Entry.ofName e.dn).addValue "objectClass" e.objectClass).addValue "uid" e.uid
  match firstComponent? e.dn with
  | some (name, value) => if entry.hasValue name value then entry else entry.addValue name value
  | none => entry

end StaticEntry

/-- A parsed filter's entries in the subtree of `base`, in the order of the list. -/
def found (entries : List StaticEntry) (filter : Filter) (base : String) : List Entry :=
  (entries.map StaticEntry.entry).filter fun e =>
    isInSubtree (normalizeName e.dn) (normalizeName base) && filter.holds e

/-- The first entry of a name, up to case and blanks. -/
def entryOf? (entries : List StaticEntry) (dn : String) : Option StaticEntry :=
  entries.find? fun e => normalizeName e.dn == normalizeName dn

/-- The directory of a fixed list. No entry logs in with the empty password. -/
def ofEntries (verify : String → String → Bool) (entries : List StaticEntry) : Directory where
  bind dn password :=
    .ok <| password != "" &&
      match entryOf? entries dn with
      | some e => verify password e.passwordHash
      | none => false
  search filter base :=
    match Filter.parse filter with
    | .ok f => .ok (found entries f base)
    | .error e => .error (.invalidRequest e.message)

def describeStatic (entries : List StaticEntry) : String :=
  Text.Describe.fields "StaticDirectory" [("entries", Text.decimal entries.length)]

/-- The same directory with either question failing. -/
def unreachable (searchFault bindFault : Option String) (d : Directory) : Directory where
  bind dn password :=
    match bindFault with
    | some reason => .error (.backend reason)
    | none => d.bind dn password
  search filter base :=
    match searchFault with
    | some reason => .error (.backend reason)
    | none => d.search filter base

/-!
## Login

The name of a user is resolved to an entry, and the entry is bound with the password.
-/

structure Settings where
  baseDn : String
  userObjectClass : String
  /-- The attribute that holds the name of the user. -/
  userAttribute : String
  deriving DecidableEq

namespace Settings

def standard : Settings :=
  ⟨"dc=example,dc=com", "person", "uid"⟩

instance : Inhabited Settings := ⟨standard⟩

def userFilter (s : Settings) (user : String) : String :=
  "(&(objectClass=" ++ escapeFilterValue s.userObjectClass ++ ")(" ++ s.userAttribute ++ "=" ++
    escapeFilterValue user ++ "))"

def userBase (s : Settings) (user : String) : String :=
  s.userAttribute ++ "=" ++ escapeNameValue user ++ "," ++ s.baseDn

def describe (s : Settings) : String :=
  Text.Describe.fields "DirectorySettings"
    [("base_dn", Text.Quoted.ofString s.baseDn),
      ("user_object_class", Text.Quoted.ofString s.userObjectClass),
      ("user_attribute", Text.Quoted.ofString s.userAttribute)]

end Settings

structure Login where
  directory : Directory
  settings : Settings

namespace Login

/-- The name of the first entry that is found for a user. -/
def findUser (l : Login) (user : String) : Except CatalogError (Option String) := do
  let entries ← l.directory.search (l.settings.userFilter user) (l.settings.userBase user)
  pure (entries.head?.map (·.dn))

/-- A directory out of reach admits nobody, and neither does an empty password, which would make
the login an anonymous one. -/
def authenticate (l : Login) (user password : String) : Bool :=
  user != "" && password != "" &&
    match l.findUser user with
    | .ok (some dn) =>
      match l.directory.bind dn password with
      | .ok bound => bound
      | .error _ => false
    | _ => false

def describe (l : Login) : String :=
  Text.Describe.someFields "DirectoryAuth" [("settings", l.settings.describe)]

end Login

end Directory

end BlobDepot
