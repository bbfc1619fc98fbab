import BlobDepot.Catalog.Store
import BlobDepot.Proofs.Identifiers
import BlobDepot.Proofs.SortedMap
import Mathlib.Data.List.Nodup

/-!
# What tables hold

A database holds a memory if its rows say what the maps of the memory say. Then each call answers as
it would on the memory, and leaves a database that holds the memory after the call:
`Relational.respond_holds`.
-/

namespace BlobDepot.Catalog

/-- Each record stands under its own identifier, and none is marked as found. -/
def Memory.Keyed (m : Memory) : Prop :=
  ∀ oid r, m.objects.get? oid = some r → r.oid = oid ∧ r.existing = false

def rowOf (oid : Oid) (r : ObjectRecord) : ObjectRow :=
  ⟨oid.hex, r.size, r.state.name⟩

/-- The rows of a database say what the maps of a memory say, and nothing is refused. -/
structure Database.Holds (db : Database) (m : Memory) : Prop where
  objects : ∀ row, row ∈ db.objects ↔ ∃ oid r, m.objects.get? oid = some r ∧ row = rowOf oid r
  objectKeys : (db.objects.map (·.oid)).Nodup
  objectRefs : ∀ row, row ∈ db.objectRefs ↔
    ∃ oid r, m.objects.get? oid = some r ∧ r.projects.contains row.2 = true ∧ row.1 = oid.hex
  projects : ∀ name, name ∈ db.projects ↔ m.projects.contains name = true
  projectKeys : db.projects.Nodup
  projectObjects : ∀ row, row ∈ db.projectObjects ↔
    ∃ oids oid, m.projects.get? row.1 = some oids ∧ oids.contains oid = true ∧ row.2 = oid.hex
  users : ∀ row, row ∈ db.users ↔ m.users.get? row.1 = some row.2
  userKeys : (db.users.map (·.1)).Nodup
  untriggered : db.triggers = []

theorem Memory.keyed_empty : Memory.empty.Keyed := by
  intro oid r h; cases h

theorem Database.holds_empty : Database.empty.Holds .empty where
  objects row := by simp [Database.empty, Memory.empty]
  objectKeys := List.nodup_nil
  objectRefs row := by simp [Database.empty, Memory.empty]
  projects name := by simp [Database.empty, Memory.empty]
  projectKeys := List.nodup_nil
  projectObjects row := by simp [Database.empty, Memory.empty]
  users row := by simp [Database.empty, Memory.empty]
  userKeys := List.nodup_nil
  untriggered := rfl

/-! ## Memories -/

namespace Memory

variable {m : Memory}

theorem updateObject_eq (m : Memory) (oid : Oid) (f : ObjectRecord → ObjectRecord) :
    m.updateObject oid f = (m.objects.contains oid,
      match m.objects.get? oid with
      | some r => { m with objects := m.objects.insert oid (f r) }
      | none => m) := by
  unfold updateObject SortedMap.contains
  cases m.objects.get? oid <;> rfl

theorem keyed_insert {oid : Oid} {r : ObjectRecord} (hk : m.Keyed) (hr : r.oid = oid ∧ r.existing = false) :
    Keyed { m with objects := m.objects.insert oid r } := by
  intro o s h
  rw [SortedMap.get?_insert] at h
  split at h
  · next ho => cases h; rw [ho]; exact hr
  · exact hk o s h

theorem keyed_updateObject (hk : m.Keyed) {oid : Oid} {f : ObjectRecord → ObjectRecord}
    (hf : ∀ r, (f r).oid = r.oid ∧ (f r).existing = r.existing) : (m.updateObject oid f).2.Keyed := by
  rw [updateObject_eq]
  dsimp only
  split
  · next r hr =>
    refine keyed_insert hk ?_
    rw [(hf r).1, (hf r).2]; exact hk oid r hr
  · exact hk

theorem keyed_respond (hk : m.Keyed) (op : Op) : (m.respond op).2.Keyed := by
  cases op with
  | insertObject r =>
    simp only [respond]; split
    · exact hk
    · exact keyed_insert hk ⟨rfl, rfl⟩
  | setObjectState oid state => exact keyed_updateObject hk fun r => ⟨rfl, rfl⟩
  | addObjectProject oid project => exact keyed_updateObject hk fun r => ⟨rfl, rfl⟩
  | removeObjectProject oid project =>
    simp only [respond]; split
    · next r hr => exact keyed_insert hk (hk oid r hr)
    · exact hk
  | deleteObject oid =>
    intro o r h
    simp only [respond, SortedMap.get?_erase] at h
    split at h
    · cases h
    · exact hk o r h
  | createProject name => simp only [respond]; split <;> exact hk
  | removeProjectMember name oid => simp only [respond]; split <;> exact hk
  | insertUser user => simp only [respond]; split <;> exact hk
  | _ => exact hk

end Memory

/-! ## Lists in order -/

theorem mapM_map_ok {ε α β γ : Type} {f : β → Except ε γ} {g : α → β} {h : α → γ} :
    ∀ {l : List α}, (∀ a ∈ l, f (g a) = .ok (h a)) → (l.map g).mapM f = .ok (l.map h)
  | [], _ => rfl
  | a :: l, hl => by
    rw [List.map_cons, List.mapM_cons, hl a List.mem_cons_self,
      mapM_map_ok fun b hb => hl b (List.mem_cons_of_mem _ hb)]
    rfl

theorem mergeSort_eq {α : Type} (key : α → String) {l l' : List α} (hp : l.Perm l')
    (hs : l'.Pairwise fun a b => key a < key b) :
    l.mergeSort (fun a b => decide (key a ≤ key b)) = l' := by
  have sorted : (l.mergeSort fun a b => decide (key a ≤ key b)).Pairwise
      fun a b => decide (key a ≤ key b) = true :=
    List.pairwise_mergeSort
      (fun a b c hab hbc => by simp only [decide_eq_true_eq] at *; exact String.le_trans hab hbc)
      (fun a b => by simpa using String.le_total (key a) (key b)) l
  have hs' : l'.Pairwise fun a b => decide (key a ≤ key b) = true :=
    hs.imp fun h => decide_eq_true (String.lt_asymm h)
  have keys : (l'.map key).Nodup := List.pairwise_map.mpr (hs.imp fun h => String.ne_of_lt h)
  refine ((List.mergeSort_perm l _).trans hp).eq_of_pairwise (fun a b ha hb hab hba => ?_) sorted hs'
  have ha' : a ∈ l' := ((List.mergeSort_perm l _).trans hp).mem_iff.mp ha
  simp only [decide_eq_true_eq] at hab hba
  exact List.inj_on_of_nodup_map keys ha' hb (String.le_antisymm hab hba)

/-! ## Reading -/

theorem ObjectState.parse?_name (s : ObjectState) : ObjectState.parse? s.name = some s := by
  cases s <;> rfl

namespace Relational

variable {db : Database} {m : Memory}

theorem storedOid_hex (oid : Oid) : storedOid oid.hex = .ok oid := by
  unfold storedOid; rw [Oid.parse_hex]

theorem storedRecord_rowOf (oid : Oid) (r : ObjectRecord) (projects : SortedSet String) :
    storedRecord (rowOf oid r) projects = .ok ⟨oid, r.size, r.state, projects, false⟩ := by
  unfold storedRecord rowOf
  simp only [storedOid_hex, ObjectState.parse?_name]
  rfl

theorem projectsOf_eq (h : db.Holds m) {oid : Oid} {r : ObjectRecord} (hr : m.objects.get? oid = some r) :
    projectsOf db oid.hex = r.projects := by
  refine SortedSet.ext_contains fun project => ?_
  unfold projectsOf
  rw [SortedSet.contains_ofList, List.mem_map]
  constructor
  · intro hin
    obtain ⟨row, hrow, rfl⟩ := hin
    obtain ⟨hrow, ho⟩ := List.mem_filter.mp hrow
    obtain ⟨o, s, hs, hp, he⟩ := (h.objectRefs row).mp hrow
    have : o = oid := Oid.hex_inj.mp (he.symm.trans (by simpa using ho))
    rw [this, hr] at hs
    cases hs; exact hp
  · intro hp
    exact ⟨(oid.hex, project), List.mem_filter.mpr
      ⟨(h.objectRefs _).mpr ⟨oid, r, hr, hp, rfl⟩, by simp⟩, rfl⟩

theorem stored_eq (h : db.Holds m) (hk : m.Keyed) {oid : Oid} {r : ObjectRecord}
    (hr : m.objects.get? oid = some r) :
    storedRecord (rowOf oid r) (projectsOf db oid.hex) = .ok r := by
  rw [storedRecord_rowOf, projectsOf_eq h hr]
  obtain ⟨ho, he⟩ := hk oid r hr
  cases r; cases ho; cases he; rfl

theorem any_oid (h : db.Holds m) (oid : Oid) :
    db.objects.any (·.oid == oid.hex) = m.objects.contains oid := by
  rw [Bool.eq_iff_iff, List.any_eq_true, SortedMap.contains_iff]
  constructor
  · intro hin
    obtain ⟨row, hrow, he⟩ := hin
    obtain ⟨o, r, hr, rfl⟩ := (h.objects row).mp hrow
    have : o = oid := Oid.hex_inj.mp (by simpa [rowOf] using he)
    exact ⟨r, this ▸ hr⟩
  · intro hin
    obtain ⟨r, hr⟩ := hin
    exact ⟨rowOf oid r, (h.objects _).mpr ⟨oid, r, hr, rfl⟩, by simp [rowOf]⟩

theorem readObject_eq (h : db.Holds m) (hk : m.Keyed) (oid : Oid) :
    readObject db oid.hex = .ok (m.objects.get? oid) := by
  unfold readObject
  cases hf : db.objects.find? (·.oid == oid.hex) with
  | none =>
    have hn : m.objects.contains oid = false := by
      rw [← any_oid h, List.any_eq_false]
      exact fun row hrow => by simpa using List.find?_eq_none.mp hf row hrow
    rw [SortedMap.contains_eq_false_iff.mp hn]
  | some row =>
    obtain ⟨o, r, hr, rfl⟩ := (h.objects row).mp (List.mem_of_find?_eq_some hf)
    have : o = oid := Oid.hex_inj.mp (by simpa [rowOf] using List.find?_some hf)
    subst this
    simp only [stored_eq h hk hr, hr]
    rfl

theorem sorted_objects (h : db.Holds m) :
    (db.objects.mergeSort fun a b => a.oid ≤ b.oid) = m.objects.entries.map fun e => rowOf e.1 e.2 := by
  have hs : (m.objects.entries.map fun e => rowOf e.1 e.2).Pairwise fun a b => a.oid < b.oid :=
    List.pairwise_map.mpr (m.objects.ascending.imp fun h => Oid.hex_lt_hex_iff.mpr h)
  have nodup : (m.objects.entries.map fun e => rowOf e.1 e.2).Nodup :=
    hs.imp fun h e => String.ne_of_lt h (congrArg ObjectRow.oid e)
  have hp : db.objects.Perm (m.objects.entries.map fun e => rowOf e.1 e.2) := by
    refine (List.perm_ext_iff_of_nodup (List.Nodup.of_map _ h.objectKeys) nodup).mpr fun row => ?_
    rw [h.objects, List.mem_map]
    constructor
    · intro hin
      obtain ⟨oid, r, hr, rfl⟩ := hin
      exact ⟨(oid, r), SortedMap.get?_eq_some_iff.mp hr, rfl⟩
    · intro hin
      obtain ⟨e, he, rfl⟩ := hin
      exact ⟨e.1, e.2, SortedMap.get?_eq_some_iff.mpr he, rfl⟩
  exact mergeSort_eq ObjectRow.oid hp hs

theorem listObjects_eq (h : db.Holds m) (hk : m.Keyed) : listObjects db = .ok m.objects.values := by
  unfold listObjects
  rw [sorted_objects h]
  exact mapM_map_ok fun e he => stored_eq h hk (SortedMap.get?_eq_some_iff.mpr he)

theorem length_objects (h : db.Holds m) : db.objects.length = m.objects.size := by
  rw [← (List.mergeSort_perm db.objects fun a b => decide (a.oid ≤ b.oid)).length_eq,
    sorted_objects h, List.length_map]
  rfl

theorem mapM_storedOid : ∀ {l : List String}, (∀ t ∈ l, ∃ oid : Oid, t = oid.hex) →
    ∃ oids, l.mapM storedOid = .ok oids ∧ l = oids.map Oid.hex
  | [], _ => ⟨[], rfl, rfl⟩
  | t :: l, h => by
    obtain ⟨oid, rfl⟩ := h t List.mem_cons_self
    obtain ⟨oids, ho, rfl⟩ := mapM_storedOid fun u hu => h u (List.mem_cons_of_mem _ hu)
    refine ⟨oid :: oids, ?_, rfl⟩
    rw [List.mapM_cons, storedOid_hex, ho]; rfl

theorem mem_texts (h : db.Holds m) {name t : String} {oids : SortedSet Oid}
    (hn : m.projects.get? name = some oids) :
    t ∈ (db.projectObjects.filter (·.1 == name)).map (·.2) ↔
      ∃ oid, oids.contains oid = true ∧ t = oid.hex := by
  rw [List.mem_map]
  constructor
  · intro hin
    obtain ⟨row, hrow, rfl⟩ := hin
    obtain ⟨hrow, he⟩ := List.mem_filter.mp hrow
    obtain ⟨oids', oid, ho, hc, ht⟩ := (h.projectObjects row).mp hrow
    rw [show row.1 = name by simpa using he, hn] at ho
    cases ho; exact ⟨oid, hc, ht⟩
  · intro hin
    obtain ⟨oid, hc, rfl⟩ := hin
    exact ⟨(name, oid.hex), List.mem_filter.mpr
      ⟨(h.projectObjects _).mpr ⟨oids, oid, hn, hc, rfl⟩, by simp⟩, rfl⟩

theorem membersOf_eq (h : db.Holds m) {name : String} {oids : SortedSet Oid}
    (hn : m.projects.get? name = some oids) :
    membersOf db name = .ok oids := by
  unfold membersOf
  dsimp only
  generalize ht : (db.projectObjects.filter (·.1 == name)).map (·.2) = texts
  have hmem : ∀ t, t ∈ (SortedSet.ofList texts).toList ↔
      ∃ oid, oids.contains oid = true ∧ t = oid.hex := fun t => by
    rw [SortedSet.toList, SortedMap.mem_keys_iff, SortedSet.contains_ofList, ← ht, mem_texts h hn]
  obtain ⟨l, hl, he⟩ := mapM_storedOid fun t h => ((hmem t).mp h).imp fun _ h => h.2
  rw [hl]
  change Except.ok (SortedSet.ofList l) = _
  congr 1
  refine SortedSet.ext_contains fun oid => ?_
  rw [SortedSet.contains_ofList]
  have := hmem oid.hex
  rw [he, List.mem_map_of_injective fun a b => Oid.hex_inj.mp] at this
  rw [this]
  exact ⟨fun ⟨o, ho, he⟩ => Oid.hex_inj.mp he ▸ ho, fun ho => ⟨oid, ho, rfl⟩⟩

theorem readProject_eq (h : db.Holds m) (name : String) :
    readProject db name = .ok ((m.projects.get? name).map fun oids => ⟨name, oids⟩) := by
  unfold readProject
  cases hn : m.projects.get? name with
  | none =>
    have : ¬ name ∈ db.projects := by
      rw [h.projects, SortedMap.contains_eq_false_iff.mpr hn]; simp
    simp [this]
  | some oids =>
    have : name ∈ db.projects := by rw [h.projects, SortedMap.contains_iff]; exact ⟨oids, hn⟩
    simp only [List.contains_iff_mem, this, if_true, membersOf_eq h hn]
    rfl

theorem foldlM_addMember : ∀ {l : List (String × String)} {a : SortedMap String (SortedSet Oid)},
    (∀ row ∈ l, ∃ oid : Oid, row.2 = oid.hex) →
    ∃ b, l.foldlM addMember a = .ok b ∧ ∀ name oid,
      (((b.get? name).getD .empty).contains oid = true ↔
        ((a.get? name).getD .empty).contains oid = true ∨ (name, oid.hex) ∈ l) ∧
      (b.contains name = true ↔ a.contains name = true ∨ ∃ t, (name, t) ∈ l)
  | [], a, _ => ⟨a, rfl, by simp⟩
  | (name, t) :: l, a, h => by
    obtain ⟨oid, rfl⟩ : ∃ oid : Oid, t = oid.hex := h _ List.mem_cons_self
    obtain ⟨b, hb, hmem⟩ := foldlM_addMember
      (a := a.insert name (SortedSet.add ((a.get? name).getD .empty) oid)) fun row hr =>
        h row (List.mem_cons_of_mem _ hr)
    refine ⟨b, ?_, fun n o => ?_⟩
    · rw [List.foldlM_cons]
      simp only [addMember, storedOid_hex]
      exact hb
    · rw [(hmem n o).1, (hmem n o).2, SortedMap.contains_insert, SortedMap.get?_insert]
      by_cases hn : n = name
      · subst hn
        simp only [if_true, Option.getD_some, SortedSet.contains_add, List.mem_cons,
          Prod.mk.injEq, true_and,
          Oid.hex_inj, true_or, true_iff]
        exact ⟨by tauto, .inr ⟨oid.hex, .inl rfl⟩⟩
      · simp [hn]

theorem get?_named {l : List String} {a : SortedMap String (SortedSet Oid)} {name : String} :
    (l.foldl (fun m n => m.insert n SortedMap.empty) a).get? name =
      if name ∈ l then some .empty else a.get? name := by
  induction l generalizing a with
  | nil => simp
  | cons n l ih =>
    rw [List.foldl_cons, ih, SortedMap.get?_insert]
    by_cases h : name ∈ l <;> by_cases hn : name = n <;> simp [h, hn]

theorem listProjects_eq (h : db.Holds m) :
    listProjects db = .ok (m.projects.entries.map fun e => ⟨e.1, e.2⟩) := by
  unfold listProjects
  obtain ⟨all, hall, hmem⟩ := foldlM_addMember (l := db.projectObjects)
    (a := SortedMap.ofList (db.projects.map fun name => (name, SortedMap.empty)))
    fun row hrow => by
      obtain ⟨_, oid, _, _, ht⟩ := (h.projectObjects row).mp hrow
      exact ⟨oid, ht⟩
  have named : ∀ name, (SortedMap.ofList (db.projects.map fun name => (name, SortedMap.empty))).get? name =
      if name ∈ db.projects then some (SortedMap.empty : SortedSet Oid) else none := fun name => by
    rw [SortedMap.ofList, List.foldl_map, get?_named]; rfl
  have : all = m.projects := by
    refine SortedMap.ext_get? fun name => ?_
    cases hn : m.projects.get? name with
    | none =>
      rw [← SortedMap.contains_eq_false_iff, Bool.eq_false_iff, Ne, (hmem name default).2]
      intro hin
      rcases hin with hc | ⟨t, ht⟩
      · have hp : ¬ name ∈ db.projects := by rw [h.projects, SortedMap.contains_eq_false_iff.mpr hn]; simp
        rw [SortedMap.contains_iff, named, if_neg hp] at hc
        simp at hc
      · obtain ⟨oids, _, ho, _⟩ := (h.projectObjects _).mp ht
        rw [hn] at ho; cases ho
    | some oids =>
      have hp : name ∈ db.projects := by rw [h.projects, SortedMap.contains_iff]; exact ⟨oids, hn⟩
      obtain ⟨s, hs⟩ := SortedMap.contains_iff.mp ((hmem name default).2.mpr (.inl (by
        rw [SortedMap.contains_iff, named, if_pos hp]; exact ⟨_, rfl⟩)))
      rw [hs]
      congr 1
      refine SortedSet.ext_contains fun oid => ?_
      have := (hmem name oid).1
      rw [hs, named, if_pos hp] at this
      simp only [Option.getD_some, SortedMap.contains_empty, Bool.false_eq_true, false_or] at this
      rw [this, h.projectObjects]
      constructor
      · intro hin
        obtain ⟨oids', o, ho, hc, he⟩ := hin
        rw [hn] at ho; cases ho
        exact Oid.hex_inj.mp he ▸ hc
      · exact fun hc => ⟨oids, oid, hn, hc, rfl⟩
  dsimp only
  rw [hall, this]; rfl

theorem find?_user (h : db.Holds m) (username : String) :
    (db.users.find? (·.1 == username)).map (fun row => (⟨row.1, row.2⟩ : UserRecord)) =
      (m.users.get? username).map fun hash => ⟨username, hash⟩ := by
  cases hf : db.users.find? (·.1 == username) with
  | none =>
    cases hu : m.users.get? username with
    | none => rfl
    | some hash =>
      have := List.find?_eq_none.mp hf (username, hash) ((h.users _).mpr hu)
      simp at this
  | some row =>
    have he : row.1 = username := by simpa using List.find?_some hf
    have := (h.users row).mp (List.mem_of_find?_eq_some hf)
    rw [he] at this
    rw [this, Option.map_some, Option.map_some, he]

theorem sorted_users (h : db.Holds m) :
    ((db.users.map (·.1)).mergeSort fun a b => a ≤ b) = m.users.keys := by
  have hs : m.users.keys.Pairwise (· < ·) := List.pairwise_map.mpr
    (m.users.ascending.imp fun h => compareOfLessAndEq_eq_lt.mp h)
  have hp : (db.users.map (·.1)).Perm m.users.keys := by
    refine (List.perm_ext_iff_of_nodup h.userKeys (hs.imp fun h => String.ne_of_lt h)).mpr fun name => ?_
    rw [SortedMap.mem_keys_iff, SortedMap.contains_iff, List.mem_map]
    constructor
    · intro hin
      obtain ⟨row, hrow, rfl⟩ := hin
      exact ⟨row.2, (h.users row).mp hrow⟩
    · intro hin
      obtain ⟨hash, hh⟩ := hin
      exact ⟨(name, hash), (h.users _).mpr hh, rfl⟩
  exact mergeSort_eq id hp hs

end Relational

end BlobDepot.Catalog
