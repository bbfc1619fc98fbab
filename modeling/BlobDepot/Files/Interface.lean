import BlobDepot.Prog
import BlobDepot.Text.Basic

/-!
# Files
-/

/-! ## Paths -/

namespace BlobDepot

/-- The names on the way to a file, from the root or from the working directory. -/
structure FilePath where
  isAbsolute : Bool
  parts : List String
  deriving DecidableEq

namespace FilePath

/-- Slashes may be repeated, and a dot says nothing. -/
def ofText (s : String) : FilePath :=
  ⟨s.toList.head? == some '/', (Text.split '/' s).filter fun part => part != "" && part != "."⟩

def join (p : FilePath) (parts : List String) : FilePath :=
  { p with parts := p.parts ++ parts }

def parent (p : FilePath) : FilePath :=
  { p with parts := p.parts.dropLast }

def text (p : FilePath) : String :=
  let names := "/".intercalate p.parts
  if p.isAbsolute then "/" ++ names else if p.parts.isEmpty then "." else names

/-- The text of a path up to its last name. It is empty for a single name, and there is none for
the root and the empty path. -/
def parentText? (s : String) : Option String :=
  let isSlash (c : Char) := c == '/'
  let named := s.toList.reverse.dropWhile isSlash
  if named.isEmpty then none
  else
    let above := (named.dropWhile (!isSlash ·)).dropWhile isSlash
    some <|
      if above.isEmpty && s.toList.head? == some '/' then "/" else String.ofList above.reverse

end FilePath

/-!
## Streams of bytes

A stream is what its reads bring, one after another, until it ends: bytes, or a fault of the device.
-/

inductive IoFault where
  | noEntry
  | exists
  | notDirectory
  | isDirectory
  | addressNotAvailable
  | notText
  | notDatabase
  | other (text : String)
  deriving DecidableEq

def IoFault.message : IoFault → String
  | noEntry => "No such file or directory (os error 2)"
  | .exists => "File exists (os error 17)"
  | notDirectory => "Not a directory (os error 20)"
  | isDirectory => "Is a directory (os error 21)"
  | addressNotAvailable => "Cannot assign requested address (os error 99)"
  | notText => "stream did not contain valid UTF-8"
  | notDatabase => "file is not a database"
  | other text => text

inductive Read where
  | bytes (b : ByteArray)
  | fault (f : IoFault)

abbrev Stream :=
  List Read

namespace Stream

def ofBytes (b : ByteArray) : Stream :=
  [.bytes b]

def length : Stream → Nat
  | [] => 0
  | .bytes b :: r => b.size + length r
  | .fault _ :: r => length r

/-- All bytes up to the end, unless a read fails. -/
def collect (s : Stream) (acc : ByteArray) : Except IoFault ByteArray :=
  match s with
  | [] => .ok acc
  | .bytes b :: r => collect r (acc ++ b)
  | .fault f :: _ => .error f

def readAll (s : Stream) : Except IoFault ByteArray :=
  s.collect .empty

/-- The reads that bring the first `n` bytes. What comes after them is not looked at. -/
def takeBytes : Nat → Stream → Stream
  | _, [] => []
  | n, .bytes b :: r =>
    if n = 0 then []
    else if b.size < n then .bytes b :: takeBytes (n - b.size) r
    else [.bytes (b.extract 0 n)]
  | n, .fault f :: _ => if n = 0 then [] else [.fault f]

def bufferSize : Nat :=
  65536

/-- The buffers that some bytes fill. -/
def buffers (b : ByteArray) : List ByteArray :=
  (List.range ((b.size + bufferSize - 1) / bufferSize)).map fun i =>
    b.extract (i * bufferSize) ((i + 1) * bufferSize)

/-- The stream as a reader with a buffer meets it: no read is empty or larger than the buffer. -/
def buffered (s : Stream) : Stream :=
  s.flatMap fun
    | .bytes b => (buffers b).map .bytes
    | .fault f => [.fault f]

end Stream

end BlobDepot

/-!
## Calls

The calls that a program makes of the file system. Each of them either takes effect or fails, and a
file is renamed in one step.
-/

namespace BlobDepot.Files

inductive Op where
  /-- The directory above must be there. -/
  | makeDirectory (path : FilePath)
  /-- Makes an empty file, or empties the one that is there. -/
  | create (path : FilePath)
  | append (path : FilePath) (bytes : ByteArray)
  | flush (path : FilePath)
  | sync (path : FilePath)
  | rename (source target : FilePath)
  | remove (path : FilePath)
  | openFile (path : FilePath)
  | size (path : FilePath)
  | isDirectory (path : FilePath)
  /-- A number that has not been given out before. -/
  | freshNumber

@[reducible] def Op.Result : Op → Type
  | .makeDirectory _ | .create _ | .append _ _ | .flush _ | .sync _ | .rename _ _ | .remove _ => Unit
  | .openFile _ => Stream
  | .size _ | .freshNumber => Nat
  | .isDirectory _ => Bool

abbrev interface : Interface :=
  ⟨Op, fun op => Except IoFault op.Result⟩

end BlobDepot.Files

namespace BlobDepot

abbrev FilesM :=
  ExceptT IoFault (Prog Files.interface)

namespace Files

def ask (op : Op) : FilesM op.Result :=
  ExceptT.mk (Prog.perform (I := interface) op)

/-- Makes the directory of the given names, last name first, and the ones above that are missing. It
does no harm if the directory is there. -/
def makeDirectories (isAbsolute : Bool) : List String → FilesM Unit
  | [] => pure ()
  | name :: above => do
    let path : FilePath := ⟨isAbsolute, (name :: above).reverse⟩
    let again (f : IoFault) : FilesM Unit := do
      if ← ask (.isDirectory path) then pure () else throw f
    match ← ExceptT.lift (ask (.makeDirectory path)).run with
    | .ok _ => pure ()
    | .error .noEntry =>
      makeDirectories isAbsolute above
      match ← ExceptT.lift (ask (.makeDirectory path)).run with
      | .ok _ => pure ()
      | .error f => again f
    | .error f => again f

def makePath (p : FilePath) : FilesM Unit :=
  makeDirectories p.isAbsolute p.parts.reverse

end Files

end BlobDepot
