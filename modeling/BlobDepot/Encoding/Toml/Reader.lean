import BlobDepot.Encoding.Toml.Scalar
import BlobDepot.Encoding.Value

/-!
# Reading TOML
-/

/-!
## Tables under construction

A table grows line by line. It may be begun by a header of its own, by the header of a table inside
it, or by a key with dots, and how it was begun decides who may add to it.
-/

namespace BlobDepot.Toml

inductive Origin where
  /-- By a header of its own, once and for all. -/
  | header
  /-- By the header of a table inside it. Its own header may still follow. -/
  | innerHeader
  /-- By a key with dots. -/
  | dotted
  deriving DecidableEq

inductive Node where
  /-- A value is complete. -/
  | value (t : Tree)
  | table (origin : Origin) (fields : List (String × Node))
  /-- A list of tables, of which the newest stands apart. -/
  | tables (newest : List (String × Node)) (older : List (List (String × Node)))

abbrev Fields :=
  List (String × Node)

namespace Fields

def get? (key : String) (fields : Fields) : Option Node :=
  (fields.find? (·.1 == key)).map (·.2)

def set (key : String) (node : Node) (fields : Fields) : Fields :=
  if (fields.get? key).isSome then
    fields.map fun f => if f.1 == key then (key, node) else f
  else fields ++ [(key, node)]

/-- Changes the table at the end of a path. Tables on the way that are missing are begun. A key with
dots does not enter a table that has its own header, and of a list of tables the newest is
entered. -/
def update (dotted : Bool) (change : Origin → Fields → Option Fields) :
    List String → Origin → Fields → Option Fields
  | [], origin, fields => change origin fields
  | key :: path, _, fields =>
    match fields.get? key with
    | none => do
      let origin := if dotted then Origin.dotted else .innerHeader
      let inner ← update dotted change path origin []
      pure (fields.set key (.table origin inner))
    | some (.value _) => none
    | some (.table origin inner) =>
      if dotted && origin = .header then none
      else do
        let inner ← update dotted change path origin inner
        pure (fields.set key (.table origin inner))
    | some (.tables newest older) => do
      let newest ← update dotted change path .header newest
      pure (fields.set key (.tables newest older))

/-- Adds a value under a new key. A key with dots adds to tables that such keys have begun, and to
no others. -/
def insert (path : List String) (key : String) (t : Tree) (fields : Fields) : Option Fields :=
  update true (fun origin fields =>
    if decide (origin = .dotted) == path.isEmpty then none
    else if (fields.get? key).isSome then none
    else some (fields.set key (.value t))) path .header fields

def begin (path : List String) (key : String) (fields : Fields) : Option Fields :=
  update false (fun _ fields =>
    match fields.get? key with
    | none => some (fields.set key (.table .header []))
    | some (.table .innerHeader inner) => some (fields.set key (.table .header inner))
    | some _ => none) path .header fields

/-- Adds an empty table to a list of tables. -/
def beginItem (path : List String) (key : String) (fields : Fields) : Option Fields :=
  update false (fun _ fields =>
    match fields.get? key with
    | none => some (fields.set key (.tables [] []))
    | some (.tables newest older) => some (fields.set key (.tables [] (newest :: older)))
    | some _ => none) path .header fields

end Fields

mutual

def Node.tree : Node → Tree
  | .value t => t
  | .table _ fields => .record (fieldTrees fields) none
  | .tables newest older =>
    .list ((.record (fieldTrees newest) none :: itemTrees older).reverse) none none

def fieldTrees : List (String × Node) → List (Label × Tree)
  | [] => []
  | (key, node) :: r => (.text key, node.tree) :: fieldTrees r

def itemTrees : List (List (String × Node)) → List Tree
  | [] => []
  | fields :: r => .record (fieldTrees fields) none :: itemTrees r

end

def Fields.tree (fields : Fields) : Tree :=
  .record (fieldTrees fields) none

/-!
## Lines

A text is a list of lines, each of which adds a value or begins a table.
-/

open Reading

/-! ### Values -/

/-- A key, split into the path of its table and its last part, and a value. -/
def assignment (value : Reading Tree) : Reading (List String × String × Tree) := do
  let path ← key
  symbol '='
  spaces
  let t ← value
  pure (path.dropLast, path.getLastD "", t)

/-- The items of a list, between gaps. A separator may follow the last one. -/
def items (value : Reading Tree) : Reading (List Tree) :=
  (do
    let l ← separated (symbol ',') do
      gap
      let t ← value
      gap
      pure t
    discard (optional (symbol ','))
    pure l) <|> pure []

def list (value : Reading Tree) : Reading Tree := do
  symbol '['
  let l ← items value
  gap
  symbol ']'
  pure (.list l none none)

/-- A table on one line. -/
def record (value : Reading Tree) : Reading Tree := do
  symbol '\x7b'
  let l ← separated (symbol ',') (do
    let a ← assignment value
    spaces
    pure a) <|> pure []
  spaces
  symbol '\x7d'
  let fields ← l.foldlM (fun fields (path, key, t) => Fields.insert path key t fields) []
  pure (Fields.tree fields)

/-- A value in which lists and tables lie within each other no deeper than so many levels. -/
def value : Nat → Reading Tree
  | 0 => Tree.text <$> quotedText <|> scalar
  | room + 1 =>
    Tree.text <$> quotedText <|> list (value room) <|> record (value room) <|> scalar

/-! ### Lines -/

inductive Line where
  | blank
  | header (path : List String) (key : String)
  | itemHeader (path : List String) (key : String)
  | field (path : List String) (key : String) (t : Tree)

def readItemHeader : Reading Line := do
  word ['[', '[']
  let path ← key
  word [']', ']']
  pure (.itemHeader path.dropLast (path.getLastD ""))

def readHeader : Reading Line := do
  symbol '['
  let path ← key
  symbol ']'
  pure (.header path.dropLast (path.getLastD ""))

def readField : Reading Line := do
  let (path, key, t) ← assignment (value (depth - 1))
  pure (.field path key t)

def readLine : Reading Line := do
  if ← atEnd then failure
  spaces
  let l ← readItemHeader <|> readHeader <|> readField <|> pure .blank
  lineRest
  pure l

def byteOrderMark : Char :=
  Char.ofNat 0xfeff

def readLines? (s : List Char) : Option (List Line) :=
  let s := if s.head? = some byteOrderMark then s.drop 1 else s
  match many readLine s with
  | some (l, []) => some l
  | _ => none

/-- The tables that have been begun, and the path of the one that lines add to. -/
structure Document where
  fields : Fields
  current : List String

namespace Document

def add (d : Document) : Line → Option Document
  | .blank => some d
  | .header path key => do
    pure ⟨← d.fields.begin path key, path ++ [key]⟩
  | .itemHeader path key => do
    pure ⟨← d.fields.beginItem path key, path ++ [key]⟩
  | .field path key t => do
    let fields ← d.fields.update false (fun _ => Fields.insert path key t) d.current .header
    pure { d with fields }

end Document

def read? (s : String) : Option Tree := do
  let d ← (← readLines? s.toList).foldlM Document.add ⟨[], []⟩
  pure d.fields.tree

end BlobDepot.Toml
