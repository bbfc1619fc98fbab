import BlobDepot.Cli.Command
import BlobDepot.Depot
import BlobDepot.Encoding.Json
import BlobDepot.Encoding.Records

/-!
# Running commands

A command opens what it needs, does its work, closes what it opened, and prints. If it fails it
tells why: the failure first, and then what caused it.
-/

namespace BlobDepot.Cli

/-!
## Painted text

Escape sequences that set off a text on a terminal, and take effect until the one that resets them.
-/

inductive Style where
  | bold
  | dimmed
  | green
  | yellow
  | cyan
  | boldGreen
  deriving DecidableEq

def Style.codes : Style → String
  | bold => "1"
  | dimmed => "2"
  | green => "32"
  | yellow => "33"
  | cyan => "36"
  | boldGreen => "1;32"

def reset : List Char :=
  ['\x1b', '[', '0', 'm']

/-- Begins the style anew behind each reset in the text. -/
def resume (style : List Char) : List Char → List Char
  | [] => []
  | c :: r =>
    if (reset.drop 1).isPrefixOf r && c = '\x1b' then
      c :: (reset.drop 1 ++ style ++ resume style (r.drop 3))
    else c :: resume style r
termination_by l => l.length
decreasing_by
  · rw [List.length_drop]
    simp only [List.length_cons]
    omega
  · simp

def Style.paint (style : Style) (colour : Bool) (s : String) : String :=
  if colour then
    let start := ['\x1b', '['] ++ style.codes.toList ++ ['m']
    String.ofList (start ++ resume start s.toList ++ reset)
  else s

/-! ## Commands and what they say -/

abbrev CommandM :=
  ExceptT (List String) HostM

def say (line : String) : CommandM Unit :=
  ExceptT.lift (Host.ask (.print (line ++ "\n")))

def note (level : LogLevel) (text : String) : CommandM Unit :=
  ExceptT.lift (Host.log level text)

/-! ## Configuration -/

def standardConfigPath : String :=
  "harbour.toml"

def readText (path : String) : ExceptT IoFault HostM String := do
  match Text.Utf8.ofBytes? (← Host.readFile (FilePath.ofText path)) with
  | some s => pure s
  | none => throw .notText

def loadConfig (path : String) : ExceptT ConfigError HostM Config := do
  match ← ExceptT.lift (readText path).run with
  | .error f => throw (.unreadable path f.message)
  | .ok s =>
    match Config.ofToml s with
    | .ok c => pure c
    | .error e => throw (.inFile path e)

/-- The configuration at the path, or at the usual one if there is a file, or the standard one. -/
def resolveConfig (path : Option String) : ExceptT ConfigError HostM Config := do
  match path with
  | some path => loadConfig path
  | none =>
    if ← ExceptT.lift (Host.isFile (FilePath.ofText standardConfigPath)) then
      loadConfig standardConfigPath
    else pure .standard

/-! ## The catalog -/

def consult {α : Type} (c : Config) (p : CatalogM α) : CommandM α := do
  match ← ExceptT.lift c.catalog.start.run with
  | .error e => throw ["opening metadata store", e.message]
  | .ok backing =>
    let (x, backing) := p.run.run Catalog.Backing.handle backing
    ExceptT.lift (c.catalog.finish backing)
    match x with
    | .ok a => pure a
    | .error e => throw [e.message]

def consultList {α : Type} (c : Config) (p : CatalogM (List α)) : CommandM (List α) := do
  match ← ExceptT.lift (consult c (ExceptT.lift p.run)).run with
  | .error chain => throw chain
  | .ok (.ok l) => pure l
  | .ok (.error e) =>
    note .warn "listing failed"
    throw [e.message]

def credentials (c : Config) : Credentials :=
  ⟨c.authMode, Password.Hasher.standard.scheme⟩

/-! ## Output -/

structure Output where
  format : Format
  colour : Bool

namespace Output

def paint (o : Output) (style : Style) (s : String) : String :=
  style.paint o.colour s

def tick (o : Output) (style : Style) : String :=
  o.paint style "✓"

/-- Says what has been done, as a line or as a record of one field. -/
def report (o : Output) (field value line : String) : CommandM Unit :=
  match o.format with
  | .json => say (Json.pretty (.textRecord [(field, value)]))
  | .text => say line

def list {α : Type} (o : Output) (items : List α) (value : α → Value) (line : α → String)
    (noneText : String) : CommandM Unit :=
  match o.format with
  | .json => say (Json.pretty (.list (items.map value)))
  | .text => if items.isEmpty then say noneText else items.forM fun x => say (line x)

end Output

def padLeft (width : Nat) (s : String) : String :=
  String.ofList (List.replicate (width - s.length) ' ') ++ s

def padRight (width : Nat) (s : String) : String :=
  s ++ String.ofList (List.replicate (width - s.length) ' ')

def projectLine (o : Output) (p : ProjectRecord) : String :=
  "  " ++ o.paint .yellow p.name ++ " (" ++ Text.decimal p.oids.size ++ " objects)"

def objectLine (o : Output) (r : ObjectRecord) : String :=
  o.paint .cyan r.oid.shortHex ++ "  " ++ padLeft 12 (Text.decimal r.size) ++ "  " ++
    o.paint (if r.isCommitted then .green else .yellow) (padRight 9 r.state.name) ++ "  " ++
    o.paint .dimmed (",".intercalate r.projects.keys)

/-- The records whose identifiers contain a text, in either letter case, and which a project refers
to. -/
def filterObjects (records : List ObjectRecord) (oid project : Option String) :
    List ObjectRecord :=
  let named (r : ObjectRecord) : Bool :=
    match oid with
    | some s => Text.occursIn (Text.lower s).toList r.oid.hex.toList
    | none => true
  let referred (r : ObjectRecord) : Bool :=
    match project with
    | some p => r.projects.contains p
    | none => true
  records.filter fun r => named r && referred r

/-! ## Commands -/

def banner (o : Output) (c : Config) : String :=
  o.tick .boldGreen ++ " Harbour on " ++ o.paint .bold c.listen.text ++ " (" ++
    o.paint .cyan c.catalog.name ++ " metadata, content in " ++ c.vault.path ++ ")"

def serve (o : Output) (c : Config) : CommandM Unit := do
  say (banner o c)
  match ← ExceptT.lift c.start.run with
  | .error e => throw e.chain
  | .ok backing =>
    match ← ExceptT.lift (Host.ask (.listen c.listen)) with
    | .error f => throw (DepotError.io f).chain
    | .ok () =>
      note .info "harbour listening"
      if !c.adminEnabled then
        note .info "management endpoints disabled: no admin password configured"
      ExceptT.lift (Host.ask .serve)
      note .info "shutting down"
      ExceptT.lift (c.catalog.finish backing)

def addUser (o : Output) (c : Config) (name password : String) : CommandM Unit := do
  let salt ← ExceptT.lift (Host.ask .salt)
  if ← consult c ((credentials c).addUser salt name password) then note .debug "user added"
  o.report "added" name (o.tick .green ++ " Added user " ++ o.paint .bold name)

def deleteUser (o : Output) (c : Config) (name : String) : CommandM Unit := do
  if ← consult c ((credentials c).deleteUser name) then note .debug "user deleted"
  o.report "deleted" name ("Deleted user " ++ o.paint .bold name)

def addProject (o : Output) (c : Config) (name : String) : CommandM Unit := do
  if ← consult c (Projects.create name) then note .debug "project created"
  o.report "created" name (o.tick .green ++ " Created project " ++ o.paint .yellow name)

/-- Prints the configuration without its secrets. -/
def showConfig (o : Output) (c : Config) : CommandM Unit :=
  match o.format with
  | .json => say (Json.pretty c.redacted.value)
  | .text =>
    match c.redacted.toToml with
    | .ok s => ExceptT.lift (Host.ask (.print s))
    | .error e => throw [e.message]

def runCommand (o : Output) (c : Config) : Command → CommandM Unit
  | .serve listen => serve o { c with listen := listen.getD c.listen }
  | .addUser name password => addUser o c name password
  | .deleteUser name => deleteUser o c name
  | .listUsers => do
    o.list (← consultList c (credentials c).listUsers) .text ("  " ++ ·) "No users."
  | .addProject name => addProject o c name
  | .listProjects => do
    o.list (← consultList c Projects.list) ProjectRecord.value (projectLine o) "No projects."
  | .listObjects oid project => do
    let records ← consultList c Ledger.listObjects
    o.list (filterObjects records oid project) ObjectRecord.value (objectLine o) "No objects."
  | .showConfig => showConfig o c

def run (colour : Bool) (i : Invocation) : CommandM Unit := do
  match ← ExceptT.lift (resolveConfig i.config).run with
  | .error e => throw ["loading configuration", e.message]
  | .ok c => runCommand ⟨i.format, colour⟩ c i.command

/-!
## The program as a process

What a run prints besides the output of its command, and the status with which it ends.
-/

def usage : String :=
  "Usage: harbour [OPTIONS] <COMMAND>"

def helpText : String :=
  "\n".intercalate ["Harbour: content-addressed large file storage", "", usage, "", "Commands:",
    "  serve    Run the LFS server", "  user     Manage local users",
    "  project  Manage projects", "  objects  List tracked objects",
    "  config   Print the effective configuration", "  help     Print this message", "",
    "Options:", "  -c, --config <CONFIG>  Configuration file",
    "  -v, --verbose          Log more", "      --format <FORMAT>  text or json",
    "  -h, --help             Print help", "  -V, --version          Print version", ""]

def versionText : String :=
  "harbour 0.1.0\n"

namespace UsageError

/-- What is asked for is printed, and is no error. -/
def answer? : UsageError → Option String
  | help => some helpText
  | version => some versionText
  | _ => none

def message : UsageError → String
  | unknownArgument => "unexpected argument"
  | unknownSubcommand => "unrecognized subcommand"
  | missingSubcommand => "a subcommand is required"
  | missingOperand => "a required argument is missing"
  | invalidValue => "invalid value"
  | unreadableValue => "a value cannot be read"
  | surplusValue => "unexpected value"
  | repeated => "an option cannot be used twice"
  | help | helpOnNothing => helpText
  | version => versionText

end UsageError

/-- A line of several keeps its later lines below its first. -/
def indent (head later : String) (s : String) : String :=
  head ++ ("\n" ++ later).intercalate (Text.split '\n' s)

/-- The causes of a failure. They are numbered if there are several. -/
def causes : List String → List String
  | [cause] => [indent "    " "    " cause]
  | l => l.zipIdx.map fun (cause, n) =>
    indent (padLeft 5 (Text.decimal n) ++ ": ") "       " cause

def failureText : List String → String
  | [] => ""
  | [e] => "Error: " ++ e
  | e :: l => "\n".intercalate (("Error: " ++ e) :: "" :: "Caused by:" :: causes l)

structure Exit where
  status : Nat
  /-- What is said on the stream for errors. -/
  complaint : String
  deriving DecidableEq

def shows (verbose : Bool) (level : LogLevel) : Bool :=
  verbose || level ≠ .debug

def conclude (colour : Bool) : Except UsageError Invocation → HostM Exit
  | .error e =>
    match e.answer? with
    | some text => do
      Host.ask (.print text)
      pure ⟨0, ""⟩
    | none => pure ⟨2, e.message⟩
  | .ok i => do
    match ← (run colour i).run with
    | .ok () => pure ⟨0, ""⟩
    | .error chain => pure ⟨1, failureText chain⟩

end BlobDepot.Cli
