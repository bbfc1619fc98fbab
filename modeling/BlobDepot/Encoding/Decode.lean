import BlobDepot.Encoding.Value
import BlobDepot.SortedMap

/-!
# Decoding of trees

Decoders for the common kinds of values. A record is read from named fields in any order, or from a
list of its fields in their own order.
-/

namespace BlobDepot

inductive DecodeError where
  /-- The text is well formed and is not what is asked for. -/
  | unfit
  | malformed
  | cutShort
  deriving DecidableEq

def Fault.error : Fault → DecodeError
  | malformed => .malformed
  | cutShort => .cutShort

abbrev Decoder (α : Type) :=
  Tree → Except DecodeError α

namespace Decoder

def clear : Option Fault → Except DecodeError Unit
  | none => .ok ()
  | some f => .error f.error

/-- What is said of a tree that is not of the kind asked for. -/
def unfit {α : Type} : Decoder α
  | .refused f _ _ => .error f.error
  | _ => .error .unfit

def text : Decoder String
  | .text s => .ok s
  | t => unfit t

def bool : Decoder Bool
  | .bool b => .ok b
  | t => unfit t

def int (low high : Int) : Decoder Int
  | .int n => if low ≤ n ∧ n ≤ high then .ok n else .error .unfit
  | t => unfit t

def int64 : Decoder Int :=
  int Word.minInt64 Word.maxInt64

def nat64 : Decoder Nat := fun t =>
  Int.toNat <$> int 0 Word.maxNat64 t

def list {α : Type} (item : Decoder α) : Decoder (List α)
  | .list items stop _ => do
    let xs ← items.mapM item
    clear stop
    pure xs
  | t => unfit t

def mapFields {α : Type} (value : Decoder α) :
    List (Label × Tree) → Except DecodeError (List (String × α))
  | [] => .ok []
  | (.refused f _, _) :: _ => .error f.error
  | (.text name, t) :: r => do
    let x ← value t
    pure ((name, x) :: (← mapFields value r))

/-- A record of any names. Of two values of one name the last one stands. -/
def map {α : Type} (value : Decoder α) : Decoder (SortedMap String α)
  | .record fields stop => do
    let xs ← mapFields value fields
    clear stop
    pure (SortedMap.ofList xs)
  | t => unfit t

/-! ## Records -/

/-- A field that a record knows: its name, and what is wrong with a value for it. -/
structure Slot where
  name : String
  complaint : Tree → Option DecodeError

def Slot.of {α : Type} (name : String) (value : Decoder α) : Slot :=
  ⟨name, fun t =>
    match value t with
    | .ok _ => none
    | .error e => some e⟩

/-- The values that have been met, by name. -/
abbrev Found :=
  List (String × Tree)

def Found.get? (found : Found) (name : String) : Option Tree :=
  (found.find? (·.1 == name)).map (·.2)

/-- Takes the value of a slot, if nothing is wrong with it. -/
def Slot.take (slot : Slot) (t : Tree) (found : Found) : Except DecodeError Found :=
  match slot.complaint t with
  | some e => .error e
  | none => .ok ((slot.name, t) :: found)

/-- Meets fields in the order of the text. A name must not come twice, and one that is unknown is
passed over. -/
def takeFields (slots : List Slot) : List (Label × Tree) → Found → Except DecodeError Found
  | [], found => .ok found
  | (.refused f _, _) :: _, _ => .error f.error
  | (.text name, t) :: r, found =>
    match slots.find? (·.name == name) with
    | some slot =>
      if (found.get? name).isSome then .error .unfit
      else do takeFields slots r (← slot.take t found)
    | none => do
      clear t.skipFault
      takeFields slots r found

/-- Meets items, each of which belongs to a slot. -/
def takeItems : List Slot → List Tree → Option Fault → Option Fault → Found →
    Except DecodeError Found
  | [], [], stop, _, found => do
    clear stop
    pure found
  | [], _ :: _, _, unread, found => do
    clear unread
    pure found
  | _ :: _, [], stop, _, found => do
    clear stop
    pure found
  | slot :: slots, t :: r, stop, unread, found => do
    takeItems slots r stop unread (← slot.take t found)

def fields (slots : List Slot) : Decoder Found
  | .record l stop => do
    let found ← takeFields slots l []
    clear stop
    pure found
  | .list items stop unread => takeItems slots items stop unread []
  | t => unfit t

def Found.required {α : Type} (found : Found) (name : String) (value : Decoder α) :
    Except DecodeError α :=
  match found.get? name with
  | some t => value t
  | none => .error .unfit

def Found.optional {α : Type} (found : Found) (name : String) (value : Decoder α) (default : α) :
    Except DecodeError α :=
  match found.get? name with
  | some t => value t
  | none => .ok default

/-! ## Names of cases -/

/-- One of a few cases, told by its name alone or by a record with the name and nothing. -/
def case {α : Type} (ofName? : String → Option α) : Decoder α
  | .text s => named s
  | .record fields stop =>
    match fields with
    | [] => .error (stop.getD .malformed).error
    | (.refused f _, _) :: _ => .error f.error
    | (.text s, t) :: r => do
      let x ← named s
      match t with
      | .null => pure ()
      | t => unfit t
      if r.isEmpty then
        clear stop
        pure x
      else .error .malformed
  | .refused f _ bare => .error (if bare then .malformed else f.error)
  | _ => .error .malformed
where
  named (s : String) : Except DecodeError α :=
    match ofName? s with
    | some x => .ok x
    | none => .error .unfit

end Decoder

end BlobDepot
