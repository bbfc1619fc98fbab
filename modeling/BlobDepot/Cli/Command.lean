import BlobDepot.Config.Address

/-!
# Command lines

A command takes options, which may stand anywhere before a double dash, and either operands or a
subcommand. What has been read of an option or an operand is settled when the next one begins.
-/

namespace BlobDepot.Cli

inductive UsageError where
  | unknownArgument
  | unknownSubcommand
  | missingSubcommand
  | missingOperand
  /-- The value is missing, or is not one of those that there are. -/
  | invalidValue
  /-- The value cannot be read. -/
  | unreadableValue
  | surplusValue
  /-- An option is given twice. -/
  | repeated
  | help
  | helpOnNothing
  | version
  deriving DecidableEq

inductive Takes where
  | nothing
  /-- A value, and what is wrong with it. -/
  | value (complaint : String → Option UsageError)
  | help
  | version

structure OptionRule where
  name : String
  letter : Option Char
  takes : Takes
  /-- The value that stands in for a missing one. -/
  fallback : Option String

structure CommandRule where
  options : List OptionRule
  operands : List String
  subcommands : List (String × CommandRule)

namespace CommandRule

def subcommand? (rule : CommandRule) (name : String) : Option CommandRule :=
  match rule with
  | ⟨_, _, subcommands⟩ => (subcommands.find? (·.1 == name)).map (·.2)

def hasSubcommands (rule : CommandRule) : Bool :=
  !rule.subcommands.isEmpty

/-- A command with subcommands has one more, which shows help for the ones that it is given. -/
def isHelp (rule : CommandRule) (name : String) : Bool :=
  rule.hasSubcommands && name == "help"

def helpFor (rule : CommandRule) : List String → UsageError
  | [] => .help
  | name :: rest =>
    match rule.subcommand? name with
    | some sub => sub.helpFor rest
    | none => if rule.isHelp name && rest.isEmpty then .help else .unknownSubcommand

def strayError (rule : CommandRule) (afterDash : Bool) (argument : String) : UsageError :=
  let known := (rule.subcommand? argument).isSome || rule.isHelp argument
  if rule.hasSubcommands && !(afterDash && known) then .unknownSubcommand else .unknownArgument

end CommandRule

/-! ## Progress -/

/-- What has been begun and not been settled. -/
inductive Pending where
  | nothing
  | option (rule : OptionRule) (value? : Option String)
  | operand (name value : String)

structure Progress where
  found : List (String × String)
  pending : Pending
  /-- The number of operands that have been begun. -/
  operands : Nat

namespace Progress

def start : Progress :=
  ⟨[], .nothing, 0⟩

def has (p : Progress) (name : String) : Bool :=
  p.found.any (·.1 == name)

def add (p : Progress) (name value : String) : Progress :=
  { p with found := p.found ++ [(name, value)], pending := .nothing }

def give (p : Progress) (rule : OptionRule) (value : String) : Except UsageError Progress :=
  if p.has rule.name then .error .repeated
  else
    match rule.takes with
    | .help => .error .help
    | .version => .error .version
    | .nothing => .ok (p.add rule.name value)
    | .value complaint =>
      match complaint value with
      | some e => .error e
      | none => .ok (p.add rule.name value)

def settle (p : Progress) : Except UsageError Progress :=
  match p.pending with
  | .nothing => .ok p
  | .operand name value => .ok (p.add name value)
  | .option _ none => .error .invalidValue
  | .option rule (some value) => p.give rule value

def isAwaiting (p : Progress) : Bool :=
  match p.pending with
  | .option _ none => true
  | _ => false

def fill (p : Progress) (value : String) : Progress :=
  match p.pending with
  | .option rule none => { p with pending := .option rule (some value) }
  | _ => p

/-- Begins an option, with the value that is attached to it if there is one. -/
def option (p : Progress) (rule : OptionRule) (attached : Option String) :
    Except UsageError Progress := do
  match rule.takes, attached with
  | .value _, some value => (← p.settle).give rule value
  | .value _, none => pure { (← p.settle) with pending := .option rule none }
  | _, some _ => throw .surplusValue
  | _, none => (← p.settle).give rule ""

def long (p : Progress) (rule : CommandRule) (name : String) (attached : Option String) :
    Except UsageError Progress :=
  match rule.options.find? (·.name == name) with
  | some o => p.option o attached
  | none => .error .unknownArgument

/-- Options of one letter each, of which the last may have its value attached. -/
def short (rule : CommandRule) : List Char → Progress → Except UsageError Progress
  | [], p => .ok p
  | c :: r, p =>
    match rule.options.find? (·.letter == some c) with
    | none => .error .unknownArgument
    | some o =>
      match o.takes, r with
      | .value _, [] => p.option o none
      | .value _, '=' :: value => p.option o (some (String.ofList value))
      | .value _, value => p.option o (some (String.ofList value))
      | _, r => do short rule r (← p.option o none)

def operand (p : Progress) (rule : CommandRule) (afterDash : Bool) (argument : String) :
    Except UsageError Progress :=
  match rule.operands[p.operands]? with
  | some name => do
    pure { (← p.settle) with pending := .operand name argument, operands := p.operands + 1 }
  | none => .error (rule.strayError afterDash argument)

def argument (p : Progress) (rule : CommandRule) (a : String) : Except UsageError Progress :=
  match a.toList with
  | '-' :: '-' :: r =>
    p.long rule (String.ofList (r.takeWhile (· != '=')))
      (if r.contains '=' then some (String.ofList ((r.dropWhile (· != '=')).drop 1)) else none)
  | '-' :: c :: r => short rule (c :: r) p
  | _ => if p.isAwaiting then .ok (p.fill a) else p.operand rule false a

def fallbacks (p : Progress) (rule : CommandRule) : List (OptionRule × String) :=
  rule.options.filterMap fun o =>
    if p.has o.name then none else o.fallback.map fun value => (o, value)

def checkFallbacks : List (OptionRule × String) → Except UsageError Unit
  | [] => .ok ()
  | (o, value) :: r => do
    let _ ← start.give o value
    checkFallbacks r

/-- Ends a command. One that has subcommands must be followed by one. -/
def finish (p : Progress) (rule : CommandRule) (below : Bool) :
    Except UsageError (List (String × String)) := do
  let p ← p.settle
  let fallbacks := p.fallbacks rule
  checkFallbacks fallbacks
  if !below && rule.hasSubcommands then
    throw (if p.found.isEmpty && fallbacks.isEmpty then .helpOnNothing else .missingSubcommand)
  if rule.operands.all p.has then pure p.found else throw .missingOperand

end Progress

/-! ## Reading -/

/-- The subcommands that were named, and all options and operands, the ones of the outermost command
first. -/
structure Matches where
  path : List String
  found : List (String × String)

namespace Matches

/-- The value that was given last. -/
def get? (m : Matches) (name : String) : Option String :=
  (m.found.reverse.find? (·.1 == name)).map (·.2)

end Matches

/-- Reads the arguments of a command. The arguments of a subcommand come before anything that is
still to be settled. -/
def read (rule : CommandRule) (p : Progress) (afterDash : Bool) :
    List String → Except UsageError Matches
  | [] => do pure ⟨[], ← p.finish rule false⟩
  | a :: rest =>
    if afterDash then do read rule (← p.operand rule true a) true rest
    else
      match if p.isAwaiting then none else rule.subcommand? a with
      | some sub => do
        let below ← read sub .start false rest
        pure ⟨a :: below.path, (← p.finish rule true) ++ below.found⟩
      | none =>
        if !p.isAwaiting && rule.isHelp a then .error (rule.helpFor rest)
        else if a = "--" then read rule p true rest
        else do read rule (← p.argument rule a) false rest

/-!
## Commands

What can be asked for on the command line.
-/

inductive Format where
  | text
  | json
  deriving DecidableEq

inductive Command where
  /-- Runs the server, perhaps at another address than the configured one. -/
  | serve (listen : Option SocketAddress)
  | addUser (name password : String)
  | deleteUser (name : String)
  | listUsers
  | addProject (name : String)
  | listProjects
  /-- Lists the objects whose identifiers contain a text, or which a project refers to. -/
  | listObjects (oid project : Option String)
  | showConfig
  deriving DecidableEq

structure Invocation where
  command : Command
  /-- The path of the configuration, if it is not the usual one. -/
  config : Option String
  verbose : Bool
  format : Format
  deriving DecidableEq

/-! ### The grammar -/

def anyValue : Takes :=
  .value fun _ => none

/-- A path is not empty. -/
def pathValue : Takes :=
  .value fun s => if s = "" then some .invalidValue else none

def Format.ofName? (s : String) : Option Format :=
  if s = "text" then some text else if s = "json" then some json else none

def formatValue : Takes :=
  .value fun s => if (Format.ofName? s).isSome then none else some .invalidValue

def addressValue : Takes :=
  .value fun s => if (SocketAddress.parse? s).isSome then none else some .unreadableValue

/-- The options of every command. The path of the configuration may come from the environment. -/
def commonOptions (configPath : Option String) : List OptionRule :=
  [⟨"config", some 'c', pathValue, configPath⟩, ⟨"verbose", some 'v', .nothing, none⟩,
    ⟨"format", none, formatValue, none⟩, ⟨"help", some 'h', .help, none⟩]

def grammar (configPath : Option String) : CommandRule :=
  let common := commonOptions configPath
  let plain (operands : List String) : CommandRule := ⟨common, operands, []⟩
  ⟨common ++ [⟨"version", some 'V', .version, none⟩], [],
    [("serve", ⟨common ++ [⟨"listen", none, addressValue, none⟩], [], []⟩),
      ("user", ⟨common, [], [("add", plain ["name", "password"]), ("delete", plain ["name"]),
        ("list", plain [])]⟩),
      ("project", ⟨common, [], [("add", plain ["name"]), ("list", plain [])]⟩),
      ("objects", ⟨common ++ [⟨"oid", none, anyValue, none⟩, ⟨"project", none, anyValue, none⟩],
        [], []⟩),
      ("config", plain [])]⟩

/-! ### Reading -/

/-- The command at the end of a path. -/
def Matches.command? (m : Matches) : Option Command :=
  let name := (m.get? "name").getD ""
  match m.path with
  | ["serve"] => some (.serve ((m.get? "listen").bind SocketAddress.parse?))
  | ["user", "add"] => some (.addUser name ((m.get? "password").getD ""))
  | ["user", "delete"] => some (.deleteUser name)
  | ["user", "list"] => some .listUsers
  | ["project", "add"] => some (.addProject name)
  | ["project", "list"] => some .listProjects
  | ["objects"] => some (.listObjects (m.get? "oid") (m.get? "project"))
  | ["config"] => some .showConfig
  | _ => none

/-- Reads a command line, without the name of the program. -/
def Invocation.parse (configPath : Option String) (arguments : List String) :
    Except UsageError Invocation := do
  let m ← read (grammar configPath) .start false arguments
  match m.command? with
  | some command =>
    pure ⟨command, m.get? "config" <|> configPath, (m.get? "verbose").isSome,
      ((m.get? "format").bind Format.ofName?).getD .text⟩
  | none => throw .missingSubcommand

end BlobDepot.Cli
