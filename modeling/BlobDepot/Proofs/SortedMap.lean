import BlobDepot.SortedMap
import Mathlib.Data.List.Perm.Basic

/-!
# Look-ups in sorted maps

A sorted map is known by its look-ups: `ext_get?`. Each operation is described by what it does to
them, so that later proofs need not look at entries.
-/

namespace BlobDepot

section
variable {κ ν : Type} [Ord κ]

/-! ## Entry lists -/

theorem mem_insertEntry_self (k : κ) (v : ν) : ∀ l : List (κ × ν), (k, v) ∈ insertEntry k v l
  | [] => List.mem_singleton_self _
  | e :: r => by
    unfold insertEntry
    split
    · exact List.mem_cons_self
    · exact List.mem_cons_self
    · exact List.mem_cons_of_mem _ (mem_insertEntry_self k v r)

theorem insertEntry_of_gt [Std.OrientedOrd κ] {k : κ} (v : ν) {l : List (κ × ν)} (h : ∀ e ∈ l, compare e.1 k = .lt) :
    insertEntry k v l = l ++ [(k, v)] := by
  induction l with
  | nil => rfl
  | cons e r ih =>
    obtain ⟨he, hr⟩ := List.forall_mem_cons.mp h
    rw [insertEntry, Std.OrientedCmp.gt_iff_lt.mpr he]
    exact congrArg (e :: ·) (ih hr)

section
variable [Std.LawfulEqOrd κ]

theorem not_compare_lt_self (k : κ) : compare k k ≠ .lt := by
  rw [Std.ReflOrd.compare_self]; decide

theorem mem_insertEntry_of_ne {k : κ} {a : κ × ν} (v : ν) (hne : a.1 ≠ k) :
    ∀ {l : List (κ × ν)}, a ∈ l → a ∈ insertEntry k v l
  | e :: r, h => by
    unfold insertEntry
    split
    · exact List.mem_cons_of_mem _ h
    · rename_i heq
      rcases List.mem_cons.mp h with rfl | h
      · exact absurd (Std.LawfulEqOrd.eq_of_compare heq).symm hne
      · exact List.mem_cons_of_mem _ h
    · rcases List.mem_cons.mp h with rfl | h
      · exact List.mem_cons_self
      · exact List.mem_cons_of_mem _ (mem_insertEntry_of_ne v hne h)

theorem Ascending.eq_of_key {l : List (κ × ν)} (h : Ascending l) {a b : κ × ν} (ha : a ∈ l) (hb : b ∈ l)
    (hk : a.1 = b.1) : a = b := by
  induction l with
  | nil => cases ha
  | cons e r ih =>
    obtain ⟨he, hr⟩ := List.pairwise_cons.mp h
    rcases List.mem_cons.mp ha with rfl | ha' <;> rcases List.mem_cons.mp hb with rfl | hb'
    · rfl
    · exact absurd (hk ▸ he b hb') (not_compare_lt_self _)
    · exact absurd (hk.symm ▸ he a ha') (not_compare_lt_self _)
    · exact ih hr ha' hb'

theorem Ascending.nodup {l : List (κ × ν)} (h : Ascending l) : l.Nodup := by
  refine List.Pairwise.imp (fun {a b} hab e => ?_) h
  subst e; exact not_compare_lt_self _ hab

end

/-! ## Maps -/

namespace SortedMap

theorem ext_entries {a b : SortedMap κ ν} (h : a.entries = b.entries) : a = b := by
  cases a; cases b; cases h; rfl

@[simp] theorem get?_empty (k : κ) : (empty : SortedMap κ ν).get? k = none := rfl

@[simp] theorem contains_empty (k : κ) : (empty : SortedMap κ ν).contains k = false := rfl

theorem contains_iff {m : SortedMap κ ν} {k : κ} : m.contains k = true ↔ ∃ v, m.get? k = some v :=
  Option.isSome_iff_exists

theorem contains_eq_false_iff {m : SortedMap κ ν} {k : κ} : m.contains k = false ↔ m.get? k = none := by
  unfold contains; simp

section
variable [Std.LawfulEqOrd κ]

theorem get?_eq_some_iff {m : SortedMap κ ν} {k : κ} {v : ν} : m.get? k = some v ↔ (k, v) ∈ m.entries := by
  unfold get?
  rw [Option.map_eq_some_iff]
  constructor
  · intro hin
    obtain ⟨e, he, rfl⟩ := hin
    have hk : k = e.1 := Std.LawfulEqOrd.eq_of_compare (by simpa using List.find?_some he)
    exact hk ▸ List.mem_of_find?_eq_some he
  · intro h
    cases hf : m.entries.find? fun e => compare k e.1 == .eq with
    | none =>
      have := List.find?_eq_none.mp hf (k, v) h
      simp at this
    | some e =>
      have hk : k = e.1 := Std.LawfulEqOrd.eq_of_compare (by simpa using List.find?_some hf)
      have := m.ascending.eq_of_key (List.mem_of_find?_eq_some hf) h hk.symm
      exact ⟨e, rfl, by rw [this]⟩

theorem get?_eq_none_iff {m : SortedMap κ ν} {k : κ} : m.get? k = none ↔ ∀ v, (k, v) ∉ m.entries := by
  rw [Option.eq_none_iff_forall_ne_some]
  exact forall_congr' fun v => not_congr get?_eq_some_iff

theorem get?_erase [DecidableEq κ] (m : SortedMap κ ν) (k j : κ) :
    (m.erase k).get? j = if j = k then none else m.get? j := by
  refine Option.ext fun v => ?_
  rw [get?_eq_some_iff]
  unfold erase
  rw [List.mem_filter, ← get?_eq_some_iff]
  by_cases h : j = k
  · subst h; simp
  · have : compare k j ≠ .eq := fun e => h (Std.LawfulEqOrd.eq_of_compare e).symm
    simp [h, this]

theorem erase_eq_self [DecidableEq κ] {m : SortedMap κ ν} {k : κ} (h : m.contains k = false) : m.erase k = m := by
  refine ext_entries (List.filter_eq_self.mpr fun e he => ?_)
  have hne : k ≠ e.1 := fun hk => get?_eq_none_iff.mp (contains_eq_false_iff.mp h) e.2 (hk ▸ he)
  simpa using hne

@[simp] theorem contains_erase [DecidableEq κ] {m : SortedMap κ ν} {k j : κ} :
    (m.erase k).contains j = true ↔ j ≠ k ∧ m.contains j = true := by
  rw [contains_iff, contains_iff, get?_erase]
  by_cases h : j = k <;> simp [h]

theorem mem_keys_iff {m : SortedMap κ ν} {k : κ} : k ∈ m.keys ↔ m.contains k = true := by
  unfold keys
  rw [contains_iff, List.mem_map]
  constructor
  · intro hin
    obtain ⟨e, he, rfl⟩ := hin
    exact ⟨e.2, get?_eq_some_iff.mpr he⟩
  · intro hin
    obtain ⟨v, hv⟩ := hin
    exact ⟨(k, v), get?_eq_some_iff.mp hv, rfl⟩

theorem mem_values_iff {m : SortedMap κ ν} {v : ν} : v ∈ m.values ↔ ∃ k, m.get? k = some v := by
  unfold values
  rw [List.mem_map]
  constructor
  · intro hin
    obtain ⟨e, he, rfl⟩ := hin
    exact ⟨e.1, get?_eq_some_iff.mpr he⟩
  · intro hin
    obtain ⟨k, hk⟩ := hin
    exact ⟨(k, v), get?_eq_some_iff.mp hk, rfl⟩

theorem isEmpty_iff {m : SortedMap κ ν} : m.isEmpty = true ↔ ∀ k, m.contains k = false := by
  unfold isEmpty
  rw [List.isEmpty_iff]
  constructor
  · intro h k
    rw [contains_eq_false_iff, get?_eq_none_iff]
    intro v; rw [h]; simp
  · intro h
    refine List.eq_nil_iff_forall_not_mem.mpr fun e he => ?_
    have := get?_eq_some_iff.mpr he
    rw [contains_eq_false_iff.mp (h e.1)] at this
    cases this

end

section
variable [Std.TransOrd κ] [Std.LawfulEqOrd κ]

/-- Two lists in strictly increasing order with the same elements are the same list. -/
theorem ext_get? {a b : SortedMap κ ν} (h : ∀ k, a.get? k = b.get? k) : a = b := by
  have hmem : ∀ e, e ∈ a.entries ↔ e ∈ b.entries := fun (k, v) => by
    rw [← get?_eq_some_iff, ← get?_eq_some_iff, h]
  have hp : a.entries.Perm b.entries :=
    (List.perm_ext_iff_of_nodup a.ascending.nodup b.ascending.nodup).mpr hmem
  refine ext_entries (hp.eq_of_pairwise (fun x y _ _ hxy hyx => ?_) a.ascending b.ascending)
  exact absurd (Std.TransCmp.lt_trans hxy hyx) (not_compare_lt_self _)

@[simp] theorem get?_insert_self (m : SortedMap κ ν) (k : κ) (v : ν) : (m.insert k v).get? k = some v :=
  get?_eq_some_iff.mpr (mem_insertEntry_self k v _)

theorem get?_insert_of_ne (m : SortedMap κ ν) {k j : κ} (v : ν) (h : j ≠ k) :
    (m.insert k v).get? j = m.get? j := by
  refine Option.ext fun w => ?_
  rw [get?_eq_some_iff, get?_eq_some_iff]
  constructor
  · intro hm
    rcases mem_of_mem_insertEntry hm with he | hm
    · exact absurd (congrArg Prod.fst he) h
    · exact hm
  · exact mem_insertEntry_of_ne v h

theorem get?_insert [DecidableEq κ] (m : SortedMap κ ν) (k j : κ) (v : ν) :
    (m.insert k v).get? j = if j = k then some v else m.get? j := by
  by_cases h : j = k
  · rw [h, get?_insert_self, if_pos rfl]
  · rw [get?_insert_of_ne m v h, if_neg h]

/-- An entry that is there already is inserted in vain. -/
theorem insert_eq_self [DecidableEq κ] {m : SortedMap κ ν} {k : κ} {v : ν} (h : m.get? k = some v) :
    m.insert k v = m := by
  apply ext_get?
  intro j
  rw [get?_insert]
  split
  · next hj => rw [hj, h]
  · rfl

theorem contains_insert [DecidableEq κ] {m : SortedMap κ ν} {k j : κ} {v : ν} :
    (m.insert k v).contains j = true ↔ j = k ∨ m.contains j = true := by
  rw [contains_iff, contains_iff, get?_insert]
  by_cases h : j = k <;> simp [h]

end

section
variable [Std.TransOrd κ] [Std.LawfulEqOrd κ]

/-- A map is made again of its entries. -/
theorem ofList_entries (m : SortedMap κ ν) : ofList m.entries = m := by
  have hfold : ∀ (l : List (κ × ν)) (m : SortedMap κ ν), Ascending (m.entries ++ l) →
      (l.foldl (fun m e => m.insert e.1 e.2) m).entries = m.entries ++ l := by
    intro l
    induction l with
    | nil => exact fun m _ => (List.append_nil _).symm
    | cons e r ih =>
      intro m h
      have hsmaller : ∀ a ∈ m.entries, compare a.1 e.1 = .lt := fun a ha =>
        (List.pairwise_append.mp h).2.2 a ha e List.mem_cons_self
      have hentries : (m.insert e.1 e.2).entries = m.entries ++ [e] := insertEntry_of_gt e.2 hsmaller
      rw [List.foldl_cons, ih _ (by rwa [hentries, List.append_assoc]), hentries, List.append_assoc]
      rfl
  exact ext_entries (hfold m.entries empty m.ascending)

end

end SortedMap

/-! ## Sets -/

namespace SortedSet

theorem get?_eq_some_iff_contains {s : SortedSet κ} {k : κ} : s.get? k = some () ↔ s.contains k = true := by
  rw [SortedMap.contains_iff]
  exact ⟨fun h => ⟨(), h⟩, fun ⟨_, h⟩ => h⟩

variable [Std.TransOrd κ] [Std.LawfulEqOrd κ]

theorem ext_contains {a b : SortedSet κ} (h : ∀ k, a.contains k = true ↔ b.contains k = true) : a = b := by
  refine SortedMap.ext_get? fun k => Option.ext fun u => ?_
  rw [get?_eq_some_iff_contains, get?_eq_some_iff_contains, h]

variable [DecidableEq κ]

@[simp] theorem contains_add {s : SortedSet κ} {k j : κ} :
    (add s k).contains j = true ↔ j = k ∨ s.contains j = true := by
  rw [← get?_eq_some_iff_contains, ← get?_eq_some_iff_contains, add, SortedMap.get?_insert]
  by_cases h : j = k <;> simp [h]

theorem contains_foldl_add {k : κ} : ∀ {l : List κ} {s : SortedSet κ},
    (l.foldl add s).contains k = true ↔ k ∈ l ∨ s.contains k = true
  | [], s => by simp
  | a :: l, s => by
    rw [List.foldl_cons, contains_foldl_add, contains_add, List.mem_cons]
    tauto

@[simp] theorem contains_ofList {l : List κ} {k : κ} : (ofList l).contains k = true ↔ k ∈ l := by
  rw [ofList, contains_foldl_add]; simp

/-- A set is made again of its elements. -/
theorem ofList_keys (s : SortedSet κ) : ofList s.keys = s :=
  ext_contains fun k => by rw [contains_ofList, SortedMap.mem_keys_iff]

end SortedSet

end

end BlobDepot
