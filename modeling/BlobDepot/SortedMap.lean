/-!
# Sorted finite maps

A finite map is the list of its entries in increasing order of key. The order is part of the type:
an enumeration needs no sorting, and maps with the same look-ups are the same value.
-/

namespace BlobDepot

section
variable {κ ν : Type} [Ord κ]

/-- Keys increase strictly from left to right. -/
def Ascending (l : List (κ × ν)) : Prop :=
  l.Pairwise fun a b => compare a.1 b.1 = .lt

structure SortedMap (κ ν : Type) [Ord κ] where
  entries : List (κ × ν)
  ascending : Ascending entries

/-- A finite set is a map to the one-point type. -/
abbrev SortedSet (κ : Type) [Ord κ] := SortedMap κ Unit

instance [DecidableEq κ] [DecidableEq ν] : DecidableEq (SortedMap κ ν) := fun a b =>
  if h : a.entries = b.entries then
    isTrue (by cases a; cases b; cases h; rfl)
  else
    isFalse fun e => h (by rw [e])

/-! ## Entry lists -/

/-- Puts an entry at its place, in front of the first greater key and over an equal one. -/
def insertEntry (k : κ) (v : ν) : List (κ × ν) → List (κ × ν)
  | [] => [(k, v)]
  | e :: r =>
    match compare k e.1 with
    | .lt => (k, v) :: e :: r
    | .eq => (k, v) :: r
    | .gt => e :: insertEntry k v r

theorem mem_of_mem_insertEntry {k : κ} {v : ν} {a : κ × ν} :
    ∀ {l : List (κ × ν)}, a ∈ insertEntry k v l → a = (k, v) ∨ a ∈ l
  | [], h => by simpa [insertEntry] using h
  | e :: r, h => by
    unfold insertEntry at h
    split at h
    · simpa [or_assoc] using h
    · rcases List.mem_cons.1 h with h | h
      · exact .inl h
      · exact .inr (List.mem_cons_of_mem _ h)
    · rcases List.mem_cons.1 h with h | h
      · exact .inr (h ▸ List.mem_cons_self)
      · exact (mem_of_mem_insertEntry h).imp id (List.mem_cons_of_mem _)

theorem ascending_insertEntry [Std.TransOrd κ] [Std.LawfulEqOrd κ] (k : κ) (v : ν) :
    ∀ {l : List (κ × ν)}, Ascending l → Ascending (insertEntry k v l)
  | [], _ => by simp [insertEntry, Ascending]
  | e :: r, h => by
    have hr : ∀ a ∈ r, compare e.1 a.1 = .lt := (List.pairwise_cons.1 h).1
    have hp : Ascending r := (List.pairwise_cons.1 h).2
    unfold insertEntry
    split
    · rename_i hlt
      refine List.pairwise_cons.2 ⟨fun a ha => ?_, h⟩
      rcases List.mem_cons.1 ha with rfl | ha
      · exact hlt
      · exact Std.TransCmp.lt_trans hlt (hr a ha)
    · rename_i heq
      have : k = e.1 := Std.LawfulEqCmp.eq_of_compare heq
      exact List.pairwise_cons.2 ⟨fun a ha => this ▸ hr a ha, hp⟩
    · rename_i hgt
      refine List.pairwise_cons.2 ⟨fun a ha => ?_, ascending_insertEntry k v hp⟩
      rcases mem_of_mem_insertEntry ha with rfl | ha
      · exact Std.OrientedCmp.gt_iff_lt.1 hgt
      · exact hr a ha

namespace SortedMap

def empty : SortedMap κ ν := ⟨[], List.Pairwise.nil⟩

instance : Inhabited (SortedMap κ ν) := ⟨empty⟩

def get? (m : SortedMap κ ν) (k : κ) : Option ν :=
  (m.entries.find? fun e => compare k e.1 == .eq).map (·.2)

def contains (m : SortedMap κ ν) (k : κ) : Bool :=
  (m.get? k).isSome

def insert [Std.TransOrd κ] [Std.LawfulEqOrd κ] (m : SortedMap κ ν) (k : κ) (v : ν) :
    SortedMap κ ν :=
  ⟨insertEntry k v m.entries, ascending_insertEntry k v m.ascending⟩

def erase (m : SortedMap κ ν) (k : κ) : SortedMap κ ν :=
  ⟨m.entries.filter fun e => compare k e.1 != .eq, m.ascending.filter _⟩

def keys (m : SortedMap κ ν) : List κ :=
  m.entries.map (·.1)

def values (m : SortedMap κ ν) : List ν :=
  m.entries.map (·.2)

def size (m : SortedMap κ ν) : Nat :=
  m.entries.length

def isEmpty (m : SortedMap κ ν) : Bool :=
  m.entries.isEmpty

/-- Of several entries with one key the last one stands. -/
def ofList [Std.TransOrd κ] [Std.LawfulEqOrd κ] (l : List (κ × ν)) : SortedMap κ ν :=
  l.foldl (fun m e => m.insert e.1 e.2) empty

end SortedMap

namespace SortedSet

def add [Std.TransOrd κ] [Std.LawfulEqOrd κ] (s : SortedSet κ) (k : κ) : SortedSet κ :=
  s.insert k ()

def toList (s : SortedSet κ) : List κ :=
  s.keys

def ofList [Std.TransOrd κ] [Std.LawfulEqOrd κ] (l : List κ) : SortedSet κ :=
  l.foldl add .empty

end SortedSet

end

end BlobDepot
