import BlobDepot.Catalog.Database
import BlobDepot.Cli.Run
import BlobDepot.Encoding.Json

/-!
# The program

The command line on the files of this machine. A database is kept in its file as the text of its
rows. The machine has no network to listen on.
-/

namespace BlobDepot.Machine

def faultOf : IO.Error → IoFault
  | .noFileOrDirectory _ _ _ => .noEntry
  | .alreadyExists _ _ _ => .exists
  | .inappropriateType _ code _ => if code = 21 then .isDirectory else .notDirectory
  | e => .other (toString e)

def attempt {α : Type} (x : IO α) : IO (Except IoFault α) := do
  try
    pure (.ok (← x))
  catch e =>
    pure (.error (faultOf e))

/-! ## Files -/

def readBytes (p : FilePath) : IO ByteArray :=
  IO.FS.readBinFile p.text

def isDirectory (p : FilePath) : IO Bool := do
  match ← attempt (readBytes p) with
  | .error .isDirectory => pure true
  | _ => pure false

def perform : (op : Files.Op) → IO (Except IoFault op.Result)
  | .makeDirectory p => attempt (IO.FS.createDir p.text)
  | .create p => attempt (IO.FS.writeBinFile p.text .empty)
  | .append p bytes => attempt (IO.FS.withFile p.text .append fun h => h.write bytes)
  | .flush _ | .sync _ => pure (.ok ())
  | .rename source target => attempt (IO.FS.rename source.text target.text)
  | .remove p => attempt (IO.FS.removeFile p.text)
  | .openFile p => attempt (Stream.ofBytes <$> readBytes p)
  | .size p => attempt do
    if ← isDirectory p then pure 0 else pure (← readBytes p).size
  | .isDirectory p => attempt (isDirectory p)
  | .freshNumber => attempt IO.monoNanosNow

/-! ## Databases -/

def readDatabase (p : FilePath) : IO (Except IoFault Catalog.Database) := do
  match ← attempt (readBytes p) with
  | .error .noEntry => pure (.ok .empty)
  | .error f => pure (.error f)
  | .ok bytes =>
    if bytes.isEmpty then pure (.ok .empty)
    else
      match Json.decode Catalog.Database.decode bytes.data.toList with
      | .ok db => pure (.ok db)
      | .error _ => pure (.error .notDatabase)

/-! ## The program -/

/-- Answers one call. Lines of the log are shown if they matter enough. -/
def answer (verbose : Bool) : (op : Host.Op) → IO op.Answer
  | .files op => perform op
  | .readDatabase p => readDatabase p
  | .saveDatabase p db => IO.FS.writeFile p.text (Json.pretty db.value)
  | .listen _ => pure (.error (.other "no network"))
  | .serve => pure ()
  | .salt => do pure (← IO.getRandomBytes 16).data.toList
  | .print text => do (← IO.getStdout).putStr text
  | .log level text => do
    if Cli.shows verbose level then (← IO.getStderr).putStrLn (level.name ++ " " ++ text)

def execute {α : Type} (verbose : Bool) : HostM α → IO α
  | .done a => pure a
  | .call op next => do
    let x ← answer verbose op
    execute verbose (next x)

/-- Text is painted on a terminal, unless that is unwanted. -/
def hasColour : IO Bool := do
  if (← IO.getEnv "NO_COLOR").isSome then pure false else (← IO.getStdout).isTty

end BlobDepot.Machine

def main (arguments : List String) : IO UInt32 := do
  let configPath ← IO.getEnv "HARBOUR_CONFIG"
  let invocation := BlobDepot.Cli.Invocation.parse configPath arguments
  let verbose := (invocation.map (·.verbose)).toOption.getD false
  let exit ← BlobDepot.Machine.execute verbose
    (BlobDepot.Cli.conclude (← BlobDepot.Machine.hasColour) invocation)
  if exit.complaint ≠ "" then (← IO.getStderr).putStrLn exit.complaint
  pure (UInt32.ofNat exit.status)
