import BlobDepot.Proofs.Runs
import BlobDepot.Proofs.Tables

/-!
# What transactions do

Without triggers no statement is refused. Each transaction of a catalog changes the rows as the call
changes the maps of the memory that the database holds, and answers alike.
-/

namespace BlobDepot.Catalog

/-! ## Statements -/

namespace Transaction

variable {ρ : Type} {db : Database} {table : Table} {rows : Database → List ρ}
  {put : Database → List ρ → Database}

theorem run_refuseTriggered_iff {event : Event} {x : Unit × Database} : (refuseTriggered event table).run db = .ok x ↔
    (db.triggers.find? fun t => t.event = event && t.table = table) = none ∧ x = ((), db) := by
  unfold refuseTriggered
  rw [StateT.run_bind, StateT.run_get, pure_bind]
  dsimp only
  cases db.triggers.find? fun t => t.event = event && t.table = table with
  | some t =>
    constructor <;> intro h
    · cases h
    · cases h.1
  | none =>
    constructor <;> intro h
    · cases h
      exact ⟨rfl, rfl⟩
    · rw [h.2]
      rfl

theorem run_refuseTriggered (ht : db.triggers = []) (event : Event) (table : Table) :
    (refuseTriggered event table).run db = .ok ((), db) :=
  run_refuseTriggered_iff.mpr ⟨by rw [ht]; rfl, rfl⟩

theorem run_insertNew_iff {same : ρ → Bool} {row : ρ} {x : Bool × Database} :
    (insertNew table rows put same row).run db = .ok x ↔
      (db.triggers.find? fun t => t.event = .insert && t.table = table) = none ∧
        x = (!(rows db).any same, if (rows db).any same then db else put db (rows db ++ [row])) := by
  unfold insertNew
  rw [StateT.run_bind]
  cases hrefused : (refuseTriggered .insert table).run db with
  | error message =>
    constructor <;> intro h
    · cases h
    · rw [run_refuseTriggered_iff.mpr ⟨h.1, rfl⟩] at hrefused
      cases hrefused
  | ok y =>
    obtain ⟨hadmitted, rfl⟩ := run_refuseTriggered_iff.mp hrefused
    show (if (rows db).any same then pure false
      else do set (put db (rows db ++ [row])); pure true : Transaction Bool).run db = _ ↔ _
    rw [and_iff_right hadmitted, eq_comm]
    cases (rows db).any same <;> exact ⟨fun h => Except.ok.inj h, fun h => congrArg Except.ok h⟩

theorem run_insertNew (table : Table) (rows : Database → List ρ) (put : Database → List ρ → Database)
    (ht : db.triggers = []) (same : ρ → Bool) (row : ρ) :
    (insertNew table rows put same row).run db =
      .ok (!(rows db).any same, if (rows db).any same then db else put db (rows db ++ [row])) :=
  run_insertNew_iff.mpr ⟨by rw [ht]; rfl, rfl⟩

theorem run_deleteWhere (ht : db.triggers = []) (hput : put db (rows db) = db) {which : ρ → Bool} :
    (deleteWhere table rows put which).run db =
      .ok ((rows db).any which, put db ((rows db).filter (!which ·))) := by
  unfold deleteWhere
  show (if (rows db).any which then do
      refuseTriggered .delete table
      set (put db ((rows db).filter (!which ·)))
      pure true
    else pure false : Transaction Bool).run db = _
  cases hw : (rows db).any which with
  | true =>
    rw [if_pos rfl, StateT.run_bind, run_refuseTriggered ht]; rfl
  | false =>
    have : (rows db).filter (!which ·) = rows db :=
      List.filter_eq_self.mpr fun row h => by simpa using List.any_eq_false.mp hw row h
    rw [this, hput]; rfl

theorem run_updateWhere (ht : db.triggers = []) (hput : put db (rows db) = db) {which : ρ → Bool}
    {f : ρ → ρ} :
    (updateWhere table rows put which f).run db =
      .ok ((rows db).any which, put db ((rows db).map fun r => if which r then f r else r)) := by
  unfold updateWhere
  show (if (rows db).any which then do
      refuseTriggered .update table
      set (put db ((rows db).map fun r => if which r then f r else r))
      pure true
    else pure false : Transaction Bool).run db = _
  cases hw : (rows db).any which with
  | true =>
    rw [if_pos rfl, StateT.run_bind, run_refuseTriggered ht]; rfl
  | false =>
    have : ((rows db).map fun r => if which r then f r else r) = rows db :=
      (List.map_congr_left fun row h => if_neg (List.any_eq_false.mp hw row h)).trans (List.map_id _)
    rw [this, hput]; rfl

theorem run_insertAbsent [BEq ρ] [LawfulBEq ρ] (table : Table) (rows : Database → List ρ)
    (put : Database → List ρ → Database) (ht : db.triggers = []) (hput : put db (rows db) = db) (row : ρ) :
    ∃ added rows', (insertNew table rows put (· == row) row).run db = .ok (added, put db rows') ∧
      ∀ r, r ∈ rows' ↔ r ∈ rows db ∨ r = row := by
  have hrun := run_insertNew table rows put ht (· == row) row
  cases h : (rows db).any (· == row) with
  | true =>
    have hm : row ∈ rows db := by simpa using h
    rw [h, if_pos rfl] at hrun
    refine ⟨false, rows db, hrun.trans (by rw [hput]; rfl), fun r => ⟨.inl, ?_⟩⟩
    intro hin
    rcases hin with h | rfl
    · exact h
    · exact hm
  | false =>
    rw [h] at hrun
    exact ⟨true, _, hrun, fun r => by simp⟩

theorem run_insertRefs (oid : String) : ∀ (l : List String) {db : Database}, db.triggers = [] →
    ∃ refs, (l.forM fun project => do let _ ← insertObjectRef oid project : Transaction Unit).run db =
        .ok ((), putObjectRefs db refs) ∧
      ∀ row, row ∈ refs ↔ row ∈ db.objectRefs ∨ ∃ project ∈ l, row = (oid, project)
  | [], db, _ => ⟨db.objectRefs, rfl, by simp⟩
  | project :: l, db, ht => by
    obtain ⟨added, refs₁, hr₁, hmem₁⟩ := run_insertAbsent .objectRefs Database.objectRefs putObjectRefs ht
      rfl (oid, project)
    obtain ⟨refs, hr, hmem⟩ := run_insertRefs oid l (show (putObjectRefs db refs₁).triggers = [] from ht)
    refine ⟨refs, ?_, fun row => ?_⟩
    · show ((insertObjectRef oid project >>= fun _ => pure ()) >>= fun _ =>
        l.forM fun project => do let _ ← insertObjectRef oid project : Transaction Unit).run db = _
      unfold insertObjectRef at hr ⊢
      rw [StateT.run_bind, StateT.run_bind, hr₁]
      exact hr
    · rw [hmem]
      show row ∈ refs₁ ∨ _ ↔ _
      rw [hmem₁]
      simp [or_assoc]

end Transaction

/-! ## Rows after a statement -/

namespace Database.Holds

variable {db : Database} {m : Memory}

theorem insertObject (h : db.Holds m) {r : ObjectRecord} (hn : m.objects.get? r.oid = none)
    {refs : List (String × String)}
    (hrefs : ∀ row, row ∈ refs ↔ row ∈ db.objectRefs ∨
      ∃ project ∈ r.projects.keys, row = (r.oid.hex, project)) :
    (Transaction.putObjectRefs (Transaction.putObjects db
      (db.objects ++ [⟨r.oid.hex, r.size, r.state.name⟩])) refs).Holds
      { m with objects := m.objects.insert r.oid { r with existing := false } } := by
  have get : ∀ {oid s}, (m.objects.insert r.oid { r with existing := false }).get? oid = some s ↔
      m.objects.get? oid = some s ∨ oid = r.oid ∧ s = { r with existing := false } := fun {oid s} => by
    rw [SortedMap.get?_insert]
    by_cases ho : oid = r.oid
    · subst ho; simp [hn, eq_comm]
    · simp [ho]
  refine { h with objects := fun row => ?_, objectKeys := ?_, objectRefs := fun row => ?_ }
  · simp only [Transaction.putObjectRefs, Transaction.putObjects, List.mem_append, List.mem_singleton,
      h.objects, get]
    constructor
    · intro hin
      rcases hin with ⟨oid, s, hs, rfl⟩ | rfl
      · exact ⟨oid, s, .inl hs, rfl⟩
      · exact ⟨r.oid, _, .inr ⟨rfl, rfl⟩, rfl⟩
    · intro hin
      obtain ⟨oid, s, hs | ⟨rfl, rfl⟩, rfl⟩ := hin
      · exact .inl ⟨oid, s, hs, rfl⟩
      · exact .inr rfl
  · show (List.map ObjectRow.oid (db.objects ++ [_])).Nodup
    rw [List.map_append, List.map_singleton]
    refine List.nodup_append.mpr ⟨h.objectKeys, List.nodup_singleton _, fun a ha b hb => ?_⟩
    rw [List.mem_singleton.mp hb]
    intro hin
    subst hin
    obtain ⟨row, hrow, he⟩ := List.mem_map.mp ha
    obtain ⟨oid, s, hs, rfl⟩ := (h.objects row).mp hrow
    rw [Oid.hex_inj.mp he, hn] at hs
    cases hs
  · show row ∈ refs ↔ _
    rw [hrefs, h.objectRefs]
    simp only [get, SortedMap.mem_keys_iff]
    constructor
    · intro hin
      rcases hin with ⟨oid, s, hs, hp, he⟩ | ⟨project, hp, rfl⟩
      · exact ⟨oid, s, .inl hs, hp, he⟩
      · exact ⟨r.oid, _, .inr ⟨rfl, rfl⟩, hp, rfl⟩
    · intro hin
      obtain ⟨oid, s, hs | ⟨rfl, rfl⟩, hp, he⟩ := hin
      · exact .inl ⟨oid, s, hs, hp, he⟩
      · exact .inr ⟨row.2, hp, by rw [← he]⟩

/-- Where the record of an object changes, rows change that say it. -/
theorem updateObject (h : db.Holds m) {oid : Oid} {r r' : ObjectRecord} (hr : m.objects.get? oid = some r)
    (rows : List ObjectRow) {refs : List (String × String)}
    (hrows : ∀ row, row ∈ rows ↔ row.oid ≠ oid.hex ∧ row ∈ db.objects ∨ row = rowOf oid r')
    (hkeys : rows.map (·.oid) = db.objects.map (·.oid))
    (hrefs : ∀ row, row ∈ refs ↔
      row.1 ≠ oid.hex ∧ row ∈ db.objectRefs ∨ row.1 = oid.hex ∧ r'.projects.contains row.2 = true) :
    (Transaction.putObjectRefs (Transaction.putObjects db rows) refs).Holds
      { m with objects := m.objects.insert oid r' } := by
  have get : ∀ {o s}, (m.objects.insert oid r').get? o = some s ↔
      o ≠ oid ∧ m.objects.get? o = some s ∨ o = oid ∧ s = r' := fun {o s} => by
    rw [SortedMap.get?_insert]
    by_cases ho : o = oid
    · simp [ho, eq_comm]
    · simp [ho]
  refine { h with
    objects := fun row => ?_, objectKeys := hkeys ▸ h.objectKeys, objectRefs := fun row => ?_ }
  · show row ∈ rows ↔ _
    rw [hrows, h.objects]
    simp only [get]
    constructor
    · intro hin
      rcases hin with ⟨hne, o, s, hs, rfl⟩ | rfl
      · exact ⟨o, s, .inl ⟨fun e => hne (congrArg Oid.hex e), hs⟩, rfl⟩
      · exact ⟨oid, r', .inr ⟨rfl, rfl⟩, rfl⟩
    · intro hin
      obtain ⟨o, s, ⟨hne, hs⟩ | ⟨rfl, rfl⟩, rfl⟩ := hin
      · exact .inl ⟨fun e => hne (Oid.hex_inj.mp e), o, s, hs, rfl⟩
      · exact .inr rfl
  · show row ∈ refs ↔ _
    rw [hrefs, h.objectRefs]
    simp only [get]
    constructor
    · intro hin
      rcases hin with ⟨hne, o, s, hs, hp, he⟩ | ⟨he, hp⟩
      · exact ⟨o, s, .inl ⟨fun e => hne (he.trans (congrArg Oid.hex e)), hs⟩, hp, he⟩
      · exact ⟨oid, r', .inr ⟨rfl, rfl⟩, hp, he⟩
    · intro hin
      obtain ⟨o, s, ⟨hne, hs⟩ | ⟨rfl, rfl⟩, hp, he⟩ := hin
      · exact .inl ⟨fun e => hne (Oid.hex_inj.mp (he.symm.trans e)), o, s, hs, hp, he⟩
      · exact .inr ⟨he, hp⟩

theorem row_eq (h : db.Holds m) {oid : Oid} {r : ObjectRecord} (hr : m.objects.get? oid = some r)
    {row : ObjectRow} :
    row ∈ db.objects ∧ row.oid = oid.hex ↔ row = rowOf oid r := by
  constructor
  · intro hin
    obtain ⟨hrow, he⟩ := hin
    obtain ⟨o, s, hs, rfl⟩ := (h.objects row).mp hrow
    have ho : o = oid := Oid.hex_inj.mp he
    rw [ho, hr] at hs
    cases hs; rw [ho]
  · intro hin
    subst hin
    exact ⟨(h.objects _).mpr ⟨oid, r, hr, rfl⟩, rfl⟩

theorem ref_iff (h : db.Holds m) {oid : Oid} {r : ObjectRecord} (hr : m.objects.get? oid = some r)
    {project : String} :
    (oid.hex, project) ∈ db.objectRefs ↔ r.projects.contains project = true := by
  rw [h.objectRefs]
  constructor
  · intro hin
    obtain ⟨o, s, hs, hp, he⟩ := hin
    have ho : oid = o := Oid.hex_inj.mp he
    rw [← ho, hr] at hs
    cases hs; exact hp
  · exact fun hp => ⟨oid, r, hr, hp, rfl⟩

theorem row_iff (h : db.Holds m) {oid : Oid} {r : ObjectRecord} (hr : m.objects.get? oid = some r)
    {row : ObjectRow} :
    row ∈ db.objects ↔ row.oid ≠ oid.hex ∧ row ∈ db.objects ∨ row = rowOf oid r := by
  rw [← h.row_eq hr]
  by_cases ho : row.oid = oid.hex <;> simp [ho]

theorem ref_none (h : db.Holds m) {oid : Oid} (hr : m.objects.get? oid = none) {row : String × String}
    (hrow : row ∈ db.objectRefs) : row.1 ≠ oid.hex := by
  obtain ⟨o, s, hs, -, he⟩ := (h.objectRefs row).mp hrow
  intro e
  rw [Oid.hex_inj.mp (he.symm.trans e), hr] at hs
  cases hs

theorem setObjectState (h : db.Holds m) (oid : Oid) (state : ObjectState) :
    (Transaction.putObjects db (db.objects.map fun row =>
        if row.oid == oid.hex then { row with state := state.name } else row)).Holds
      (m.updateObject oid fun r => { r with state }).2 := by
  rw [Memory.updateObject_eq]
  cases hr : m.objects.get? oid with
  | some r =>
    refine h.updateObject hr _ (fun row => ?_) ?_ fun row => ?_
    · rw [List.mem_map]
      constructor
      · intro hin
        obtain ⟨row, hrow, rfl⟩ := hin
        by_cases ho : row.oid = oid.hex
        · rw [if_pos (by simpa using ho), (h.row_eq hr).mp ⟨hrow, ho⟩]; exact .inr rfl
        · rw [if_neg (by simpa using ho)]; exact .inl ⟨ho, hrow⟩
      · intro hin
        rcases hin with ⟨ho, hrow⟩ | rfl
        · exact ⟨row, hrow, if_neg (by simpa using ho)⟩
        · exact ⟨rowOf oid r, ((h.row_eq hr).mpr rfl).1, if_pos (by simp [rowOf])⟩
    · rw [List.map_map]
      exact List.map_congr_left fun row _ => by by_cases ho : row.oid = oid.hex <;> simp [ho]
    · by_cases ho : row.1 = oid.hex
      · simp only [ho, ne_eq, not_true_eq_false, false_and, true_and, false_or]
        rw [← h.ref_iff hr, ← ho]
      · simp [ho]
  | none =>
    have : (db.objects.map fun row =>
        if row.oid == oid.hex then { row with state := state.name } else row) =
        db.objects := by
      refine (List.map_congr_left fun row hrow => if_neg ?_).trans (List.map_id _)
      obtain ⟨o, s, hs, rfl⟩ := (h.objects row).mp hrow
      intro e
      have ho : o = oid := Oid.hex_inj.mp (by simpa [rowOf] using e)
      rw [ho, hr] at hs; cases hs
    rw [this]; exact h

theorem addObjectProject (h : db.Holds m) {oid : Oid} {r : ObjectRecord} (hr : m.objects.get? oid = some r)
    {project : String} {refs : List (String × String)}
    (hrefs : ∀ row, row ∈ refs ↔ row ∈ db.objectRefs ∨ row = (oid.hex, project)) :
    (Transaction.putObjectRefs db refs).Holds
      { m with
        objects := m.objects.insert oid { r with projects := SortedSet.add r.projects project } } := by
  refine h.updateObject hr db.objects (fun row => h.row_iff hr) rfl fun row => ?_
  rw [hrefs, SortedSet.contains_add, ← h.ref_iff hr]
  by_cases ho : row.1 = oid.hex
  · simp [← ho, Prod.ext_iff, or_comm]
  · simp [ho, Prod.ext_iff]

theorem removeObjectProject (h : db.Holds m) {oid : Oid} {r : ObjectRecord}
    (hr : m.objects.get? oid = some r)
    (project : String) :
    (Transaction.putObjectRefs db (db.objectRefs.filter (!(· == (oid.hex, project)) ·))).Holds
      { m with objects := m.objects.insert oid { r with projects := r.projects.erase project } } := by
  refine h.updateObject hr db.objects (fun row => h.row_iff hr) rfl fun row => ?_
  rw [List.mem_filter, SortedMap.contains_erase, ← h.ref_iff hr]
  by_cases ho : row.1 = oid.hex
  · simp [← ho, Prod.ext_iff, and_comm]
  · simp [ho, Prod.ext_iff]

theorem deleteObject (h : db.Holds m) (oid : Oid) :
    (Transaction.putObjectRefs (Transaction.putObjects db (db.objects.filter (!·.oid == oid.hex)))
        (db.objectRefs.filter (!·.1 == oid.hex))).Holds
      { m with objects := m.objects.erase oid } := by
  have get : ∀ {o s}, (m.objects.erase oid).get? o = some s ↔ o ≠ oid ∧ m.objects.get? o = some s :=
    fun {o s} => by rw [SortedMap.get?_erase]; by_cases ho : o = oid <;> simp [ho]
  refine { h with objects := fun row => ?_, objectKeys := ?_, objectRefs := fun row => ?_ }
  · show row ∈ db.objects.filter _ ↔ _
    rw [List.mem_filter, h.objects]
    simp only [get]
    constructor
    · intro hin
      obtain ⟨⟨o, s, hs, rfl⟩, hne⟩ := hin
      exact ⟨o, s, ⟨by intro hin; subst hin; simp [rowOf] at hne, hs⟩, rfl⟩
    · intro hin
      obtain ⟨o, s, ⟨hne, hs⟩, rfl⟩ := hin
      exact ⟨⟨o, s, hs, rfl⟩, by simpa [rowOf, Oid.hex_inj] using hne⟩
  · exact h.objectKeys.sublist (List.filter_sublist.map _)
  · show row ∈ db.objectRefs.filter _ ↔ _
    rw [List.mem_filter, h.objectRefs]
    simp only [get]
    constructor
    · intro hin
      obtain ⟨⟨o, s, hs, hp, he⟩, hne⟩ := hin
      exact ⟨o, s, ⟨by intro hin; subst hin; simp [he] at hne, hs⟩, hp, he⟩
    · intro hin
      obtain ⟨o, s, ⟨hne, hs⟩, hp, he⟩ := hin
      exact ⟨⟨o, s, hs, hp, he⟩, by simpa [he, Oid.hex_inj] using hne⟩

theorem insertProject (h : db.Holds m) {name : String} (hn : m.projects.get? name = none) :
    (Transaction.putProjects db (db.projects ++ [name])).Holds
      { m with projects := m.projects.insert name .empty } := by
  have hname : ¬ name ∈ db.projects := by rw [h.projects, SortedMap.contains_eq_false_iff.mpr hn]; simp
  refine { h with projects := fun other => ?_, projectKeys := ?_, projectObjects := fun row => ?_ }
  · show other ∈ db.projects ++ [name] ↔ _
    rw [List.mem_append, List.mem_singleton, h.projects, SortedMap.contains_insert, or_comm]
  · refine List.nodup_append.mpr ⟨h.projectKeys, List.nodup_singleton _, fun a ha b hb => ?_⟩
    rw [List.mem_singleton.mp hb]
    exact fun e => hname (e ▸ ha)
  · show row ∈ db.projectObjects ↔ _
    rw [h.projectObjects]
    simp only [SortedMap.get?_insert]
    by_cases hr : row.1 = name
    · simp [hr, hn]
    · simp [hr]

/-- Where the members of a project change, rows change that say it. -/
theorem updateProject (h : db.Holds m) {name : String} {oids oids' : SortedSet Oid}
    (hp : m.projects.get? name = some oids) {rows : List (String × String)}
    (hrows : ∀ row, row ∈ rows ↔ row.1 ≠ name ∧ row ∈ db.projectObjects ∨
      row.1 = name ∧ ∃ oid, oids'.contains oid = true ∧ row.2 = oid.hex) :
    (Transaction.putProjectObjects db rows).Holds { m with projects := m.projects.insert name oids' } := by
  refine { h with projects := fun other => ?_, projectObjects := fun row => ?_ }
  · show other ∈ db.projects ↔ _
    rw [h.projects, SortedMap.contains_insert]
    refine ⟨.inr, ?_⟩
    intro hin
    rcases hin with rfl | h
    · exact SortedMap.contains_iff.mpr ⟨oids, hp⟩
    · exact h
  · show row ∈ rows ↔ _
    rw [hrows, h.projectObjects]
    simp only [SortedMap.get?_insert]
    by_cases hr : row.1 = name <;> simp [hr]

theorem member_iff (h : db.Holds m) {name : String} {oids : SortedSet Oid}
    (hp : m.projects.get? name = some oids)
    {row : String × String} (hr : row.1 = name) :
    row ∈ db.projectObjects ↔ ∃ oid, oids.contains oid = true ∧ row.2 = oid.hex := by
  rw [h.projectObjects, hr, hp]; simp

theorem addMember (h : db.Holds m) {name : String} {oids : SortedSet Oid}
    (hp : m.projects.get? name = some oids)
    {oid : Oid} {rows : List (String × String)}
    (hrows : ∀ row, row ∈ rows ↔ row ∈ db.projectObjects ∨ row = (name, oid.hex)) :
    (Transaction.putProjectObjects db rows).Holds
      { m with projects := m.projects.insert name (SortedSet.add oids oid) } := by
  refine h.updateProject hp fun row => ?_
  rw [hrows]
  by_cases hr : row.1 = name
  · rw [h.member_iff hp hr]
    simp only [hr, ne_eq, not_true_eq_false, false_and, true_and, false_or, SortedSet.contains_add,
      Prod.ext_iff]
    constructor
    · intro hin
      rcases hin with ⟨o, ho, he⟩ | he
      · exact ⟨o, .inr ho, he⟩
      · exact ⟨oid, .inl rfl, he⟩
    · intro hin
      obtain ⟨o, rfl | ho, he⟩ := hin
      · exact .inr he
      · exact .inl ⟨o, ho, he⟩
  · simp [hr, Prod.ext_iff]

theorem removeMember (h : db.Holds m) {name : String} {oids : SortedSet Oid}
    (hp : m.projects.get? name = some oids)
    (oid : Oid) :
    (Transaction.putProjectObjects db (db.projectObjects.filter (!(· == (name, oid.hex)) ·))).Holds
      { m with projects := m.projects.insert name (oids.erase oid) } := by
  refine h.updateProject hp fun row => ?_
  rw [List.mem_filter]
  by_cases hr : row.1 = name
  · rw [h.member_iff hp hr]
    simp only [hr, ne_eq, not_true_eq_false, false_and, true_and, false_or, SortedMap.contains_erase]
    constructor
    · intro hin
      obtain ⟨⟨o, ho, he⟩, hne⟩ := hin
      refine ⟨o, ⟨?_, ho⟩, he⟩
      intro hin
      subst hin
      simp [Prod.ext_iff, hr, he] at hne
    · intro hin
      obtain ⟨o, ⟨hne, ho⟩, he⟩ := hin
      exact ⟨⟨o, ho, he⟩, by simpa [Prod.ext_iff, hr, he, Oid.hex_inj] using hne⟩
  · simp [hr, Prod.ext_iff]

theorem insertUser (h : db.Holds m) {username hash : String} (hn : m.users.get? username = none) :
    (Transaction.putUsers db (db.users ++ [(username, hash)])).Holds
      { m with users := m.users.insert username hash } := by
  refine { h with users := fun row => ?_, userKeys := ?_ }
  · show row ∈ db.users ++ [(username, hash)] ↔ _
    rw [List.mem_append, List.mem_singleton, h.users, SortedMap.get?_insert]
    by_cases hr : row.1 = username
    · simp [hr, hn, Prod.ext_iff, eq_comm]
    · simp [hr, Prod.ext_iff]
  · show (List.map (·.1) (db.users ++ [(username, hash)])).Nodup
    rw [List.map_append]
    refine List.nodup_append.mpr ⟨h.userKeys, List.nodup_singleton _, fun a ha b hb => ?_⟩
    rw [List.mem_singleton.mp hb]
    intro hin
    subst hin
    obtain ⟨row, hrow, he⟩ := List.mem_map.mp ha
    have := (h.users row).mp hrow
    rw [he, hn] at this
    cases this

theorem deleteUser (h : db.Holds m) (username : String) :
    (Transaction.putUsers db (db.users.filter (!·.1 == username))).Holds
      { m with users := m.users.erase username } := by
  refine { h with users := fun row => ?_, userKeys := h.userKeys.sublist (List.filter_sublist.map _) }
  show row ∈ db.users.filter _ ↔ _
  rw [List.mem_filter, h.users, SortedMap.get?_erase]
  by_cases hr : row.1 = username <;> simp [hr]

theorem any_user (h : db.Holds m) (username : String) :
    db.users.any (·.1 == username) = m.users.contains username := by
  rw [Bool.eq_iff_iff, List.any_eq_true, SortedMap.contains_iff]
  constructor
  · intro hin
    obtain ⟨row, hrow, he⟩ := hin
    exact ⟨row.2, (by simpa using he : row.1 = username) ▸ (h.users row).mp hrow⟩
  · intro hin
    obtain ⟨hash, hh⟩ := hin
    exact ⟨(username, hash), (h.users _).mpr hh, by simp⟩

theorem any_project (h : db.Holds m) (name : String) :
    db.projects.any (· == name) = m.projects.contains name := by
  rw [Bool.eq_iff_iff, ← h.projects]; simp

theorem any_member (h : db.Holds m) {name : String} {oids : SortedSet Oid}
    (hp : m.projects.get? name = some oids)
    (oid : Oid) : db.projectObjects.any (· == (name, oid.hex)) = oids.contains oid := by
  rw [Bool.eq_iff_iff]
  have : (name, oid.hex) ∈ db.projectObjects ↔ oids.contains oid = true := by
    rw [h.member_iff hp rfl]
    exact ⟨fun ⟨o, ho, he⟩ => Oid.hex_inj.mp he ▸ ho, fun ho => ⟨oid, ho, rfl⟩⟩
  rw [← this]; simp

theorem any_ref (h : db.Holds m) {oid : Oid} {r : ObjectRecord} (hr : m.objects.get? oid = some r)
    (project : String) :
    db.objectRefs.any (· == (oid.hex, project)) = r.projects.contains project := by
  rw [Bool.eq_iff_iff, ← h.ref_iff hr]; simp

end Database.Holds

/-! ## Calls -/

namespace Relational

variable {α : Type} {db : Database} {m : Memory}

theorem run_write {t : Transaction α} {x : α × Database} (h : t.run db = .ok x) :
    (write t).run db = .ok x := by
  show (t.run db).mapError refusal = _
  rw [h]; rfl

theorem run_query {f : Database → Except CatalogError α} {x : α} (h : f db = .ok x) :
    (query f).run db = .ok (x, db) := by
  show (f db).map (·, db) = _
  rw [h]; rfl

theorem run_insertObject (h : db.Holds m) (r : ObjectRecord) :
    ∃ db', (respond (.insertObject r)).run db = .ok ((m.respond (.insertObject r)).1, db') ∧
      db'.Holds (m.respond (.insertObject r)).2 := by
  have hrun := Transaction.run_insertNew .objects Database.objects Transaction.putObjects h.untriggered
    (·.oid == r.oid.hex) ⟨r.oid.hex, r.size, r.state.name⟩
  rw [any_oid h] at hrun
  cases hc : m.objects.contains r.oid with
  | true =>
    rw [hc] at hrun
    simp only [Memory.respond, hc, if_true]
    refine ⟨db, run_write ?_, h⟩
    rw [StateT.run_bind]
    unfold Transaction.insertObject
    rw [hrun]; rfl
  | false =>
    rw [hc] at hrun
    simp only [Memory.respond, hc, Bool.false_eq_true, if_false]
    have ht : (Transaction.putObjects db
        (db.objects ++ [⟨r.oid.hex, r.size, r.state.name⟩])).triggers = [] :=
      h.untriggered
    obtain ⟨refs, hr, hmem⟩ := Transaction.run_insertRefs r.oid.hex r.projects.keys ht
    refine ⟨_, run_write ?_, h.insertObject (SortedMap.contains_eq_false_iff.mp hc) hmem⟩
    rw [StateT.run_bind]
    unfold Transaction.insertObject
    rw [hrun]
    show StateT.run (do r.projects.keys.forM _; pure true : Transaction Bool)
        (Transaction.putObjects db _) = _
    rw [StateT.run_bind, hr]
    rfl

theorem run_addObjectProject (h : db.Holds m) (oid : Oid) (project : String) :
    ∃ db', (respond (.addObjectProject oid project)).run db =
        .ok ((m.respond (.addObjectProject oid project)).1, db') ∧
      db'.Holds (m.respond (.addObjectProject oid project)).2 := by
  simp only [Memory.respond, Memory.updateObject_eq]
  cases hr : m.objects.get? oid with
  | none =>
    refine ⟨db, run_write ?_, h⟩
    show StateT.run (if db.objects.any (·.oid == oid.hex) then _ else pure false : Transaction Bool) db = _
    rw [any_oid h, SortedMap.contains_eq_false_iff.mpr hr]; rfl
  | some r =>
    have hc : m.objects.contains oid = true := SortedMap.contains_iff.mpr ⟨r, hr⟩
    obtain ⟨added, refs, hrun, hmem⟩ := Transaction.run_insertAbsent .objectRefs Database.objectRefs
      Transaction.putObjectRefs h.untriggered rfl (oid.hex, project)
    refine ⟨_, run_write ?_, h.addObjectProject hr hmem⟩
    show StateT.run (if db.objects.any (·.oid == oid.hex) then
        do let _ ← Transaction.insertObjectRef oid.hex project; pure true
      else pure false : Transaction Bool) db = _
    unfold Transaction.insertObjectRef
    rw [any_oid h, hc, if_pos rfl, StateT.run_bind, hrun]; rfl

theorem run_deleteObject (h : db.Holds m) (oid : Oid) :
    ∃ db', (respond (.deleteObject oid)).run db = .ok ((m.respond (.deleteObject oid)).1, db') ∧
      db'.Holds (m.respond (.deleteObject oid)).2 := by
  refine ⟨_, run_write ?_, h.deleteObject oid⟩
  rw [StateT.run_bind, Transaction.run_deleteWhere h.untriggered rfl, any_oid h]
  show StateT.run (do let _ ← Transaction.deleteWhere _ _ _ _; pure _ : Transaction Bool)
      (Transaction.putObjects db _) = _
  rw [StateT.run_bind, Transaction.run_deleteWhere (by exact h.untriggered) rfl]; rfl

theorem run_insertProject (h : db.Holds m) (name : String) :
    ∃ db', (Transaction.insertProject name).run db = .ok (!m.projects.contains name, db') ∧
      db'.projectObjects = db.projectObjects ∧
      db'.Holds { m with projects :=
        if m.projects.contains name then m.projects else m.projects.insert name .empty } := by
  have hrun := Transaction.run_insertNew .projects Database.projects Transaction.putProjects h.untriggered
    (· == name) name
  rw [h.any_project] at hrun
  cases hc : m.projects.contains name with
  | true => rw [hc] at hrun; exact ⟨db, hrun, rfl, h⟩
  | false => rw [hc] at hrun; exact ⟨_, hrun, rfl, h.insertProject (SortedMap.contains_eq_false_iff.mp hc)⟩

theorem run_addProjectMember (h : db.Holds m) (name : String) (oid : Oid) :
    ∃ db', (respond (.addProjectMember name oid)).run db = .ok ((), db') ∧
      db'.Holds (m.respond (.addProjectMember name oid)).2 := by
  obtain ⟨db₁, hrun₁, -, h₁⟩ := run_insertProject h name
  obtain ⟨added, rows, hrun₂, hmem⟩ := Transaction.run_insertAbsent .projectObjects Database.projectObjects
    Transaction.putProjectObjects h₁.untriggered rfl (name, oid.hex)
  have hget : ({ m with projects :=
      if m.projects.contains name then m.projects else m.projects.insert name .empty } :
      Memory).projects.get? name = some ((m.projects.get? name).getD .empty) := by
    cases hp : m.projects.get? name with
    | none => simp [SortedMap.contains_eq_false_iff.mpr hp]
    | some oids => simp [SortedMap.contains_iff.mpr ⟨oids, hp⟩, hp]
  have h₂ := h₁.addMember hget hmem
  have : (if m.projects.contains name then m.projects else m.projects.insert name .empty).insert name
      (SortedSet.add ((m.projects.get? name).getD .empty) oid) =
      m.projects.insert name (SortedSet.add ((m.projects.get? name).getD .empty) oid) :=
    SortedMap.ext_get? fun other => by
      simp only [SortedMap.get?_insert]
      split
      · rfl
      · next hne => split <;> simp [SortedMap.get?_insert, hne]
  dsimp only at h₂
  rw [this] at h₂
  refine ⟨_, run_write ?_, h₂⟩
  rw [StateT.run_bind, hrun₁]
  show StateT.run (do let _ ← Transaction.insertProjectObject name oid.hex : Transaction Unit) db₁ = _
  unfold Transaction.insertProjectObject
  rw [StateT.run_bind, hrun₂]; rfl

/-- A call on a database answers as it would on the memory that the database holds, and leaves one that
holds the memory after it. -/
theorem respond_holds (h : db.Holds m) (hk : m.Keyed) (op : Op) :
    ∃ db', (respond op).run db = .ok ((m.respond op).1, db') ∧ db'.Holds (m.respond op).2 := by
  cases op with
  | readObject oid => exact ⟨db, run_query (readObject_eq h hk oid), h⟩
  | insertObject r => exact run_insertObject h r
  | setObjectState oid state =>
    refine ⟨_, run_write (Transaction.run_updateWhere h.untriggered rfl) |>.trans ?_,
      h.setObjectState oid state⟩
    rw [any_oid h]; simp only [Memory.respond, Memory.updateObject_eq]
  | addObjectProject oid project => exact run_addObjectProject h oid project
  | removeObjectProject oid project =>
    have hrun : (respond (.removeObjectProject oid project)).run db = .ok (_, _) :=
      run_write (Transaction.run_deleteWhere h.untriggered rfl)
    simp only [Memory.respond]
    cases hr : m.objects.get? oid with
    | some r =>
      rw [h.any_ref hr] at hrun
      exact ⟨_, hrun, h.removeObjectProject hr project⟩
    | none =>
      have hne : ∀ row ∈ db.objectRefs, ¬ (row == (oid.hex, project)) = true := fun row hrow e =>
        h.ref_none hr hrow (congrArg Prod.fst (eq_of_beq e))
      rw [List.any_eq_false.mpr hne,
        List.filter_eq_self.mpr fun row hrow => by simpa using hne row hrow] at hrun
      exact ⟨_, hrun, h⟩
  | deleteObject oid => exact run_deleteObject h oid
  | listObjects => exact ⟨db, run_query (listObjects_eq h hk), h⟩
  | countObjects => exact ⟨db, run_query (congrArg Except.ok (length_objects h)), h⟩
  | readProject name => exact ⟨db, run_query (readProject_eq h name), h⟩
  | createProject name =>
    obtain ⟨db', hrun, -, h'⟩ := run_insertProject h name
    refine ⟨db', run_write hrun |>.trans ?_, ?_⟩
    · simp only [Memory.respond]; cases m.projects.contains name <;> rfl
    · simp only [Memory.respond]
      cases hc : m.projects.contains name <;> rw [hc] at h' <;> exact h'
  | addProjectMember name oid => exact run_addProjectMember h name oid
  | removeProjectMember name oid =>
    have hrun : (respond (.removeProjectMember name oid)).run db = .ok (_, _) :=
      run_write (Transaction.run_deleteWhere h.untriggered rfl)
    simp only [Memory.respond]
    cases hp : m.projects.get? name with
    | some oids =>
      rw [h.any_member hp] at hrun
      exact ⟨_, hrun, h.removeMember hp oid⟩
    | none =>
      have hne : ∀ row ∈ db.projectObjects, ¬ (row == (name, oid.hex)) = true := fun row hrow e => by
        obtain ⟨oids, _, ho, -⟩ := (h.projectObjects row).mp hrow
        rw [eq_of_beq e, hp] at ho
        cases ho
      rw [List.any_eq_false.mpr hne,
        List.filter_eq_self.mpr fun row hrow => by simpa using hne row hrow] at hrun
      exact ⟨_, hrun, h⟩
  | listProjects => exact ⟨db, run_query (listProjects_eq h), h⟩
  | readUser username => exact ⟨db, run_query (congrArg Except.ok (find?_user h username)), h⟩
  | insertUser user =>
    have hrun : (respond (.insertUser user)).run db = .ok (_, _) :=
      run_write (Transaction.run_insertNew _ _ _ h.untriggered _ _)
    rw [h.any_user] at hrun
    simp only [Memory.respond]
    cases hc : m.users.contains user.username with
    | true => rw [hc] at hrun; exact ⟨_, hrun, h⟩
    | false => rw [hc] at hrun; exact ⟨_, hrun, h.insertUser (SortedMap.contains_eq_false_iff.mp hc)⟩
  | deleteUser username =>
    refine ⟨_, run_write (Transaction.run_deleteWhere h.untriggered rfl) |>.trans ?_, h.deleteUser username⟩
    rw [h.any_user]; rfl
  | listUsernames => exact ⟨db, run_query (congrArg Except.ok (sorted_users h)), h⟩
  | close => exact ⟨db, rfl, h⟩

theorem handle_of_run {op : Op} {x : op.Result} {db' : Database} (hop : op ≠ .close)
    (h : (respond op).run db = .ok (x, db')) : handle op (.ofDatabase db) = (.ok x, .ofDatabase db') := by
  unfold handle
  split
  · exact absurd rfl hop
  · simp only [ofDatabase, if_true, h]

end Relational

/-! ## Backings -/

inductive Backing.Holds : Backing → Memory → Prop
  | memory {m : Memory} : m.Keyed → Holds (.memory m) m
  | relational {db : Database} {m : Memory} : m.Keyed → db.Holds m → Holds (.relational (.ofDatabase db)) m

theorem Backing.Holds.keyed {b : Backing} {m : Memory} (h : b.Holds m) : m.Keyed := by
  cases h with
  | memory hk => exact hk
  | relational hk _ => exact hk

/-- A call of a catalog that is not closed answers as it would on the memory that the catalog holds. -/
theorem Backing.handle_holds {b : Backing} {m : Memory} (h : b.Holds m) {op : Op} (hop : op ≠ .close) :
    (Backing.handle op b).1 = .ok (m.respond op).1 ∧ (Backing.handle op b).2.Holds (m.respond op).2 := by
  cases h with
  | memory hk => exact ⟨rfl, .memory (Memory.keyed_respond hk op)⟩
  | @relational db _ hk h =>
    obtain ⟨db', hrun, h'⟩ := Relational.respond_holds h hk op
    simp only [Backing.handle, Relational.handle_of_run hop hrun]
    exact ⟨trivial, .relational (Memory.keyed_respond hk op) h'⟩

/-- A query leaves the catalog as it is. -/
theorem Backing.handle_query {op : Op} {f : Database → Except CatalogError op.Result} (hop : op ≠ .close)
    (hm : ∀ m : Memory, (m.respond op).2 = m) (hr : Relational.respond op = Relational.query f) (b : Backing) :
    (Backing.handle op b).2 = b := by
  cases b with
  | memory m => exact congrArg Backing.memory (hm m)
  | relational t =>
    have hrun : (Relational.respond op).run t.database = (f t.database).map (·, t.database) := by
      rw [hr]
      rfl
    simp only [Backing.handle, Relational.handle, hrun]
    cases f t.database <;> split <;> rfl

theorem Backing.handle_readUser (user : String) (b : Backing) : (Backing.handle (.readUser user) b).2 = b :=
  handle_query (by simp) (fun _ => rfl) rfl b

theorem Backing.handle_readObject (oid : Oid) (b : Backing) : (Backing.handle (.readObject oid) b).2 = b :=
  handle_query (by simp) (fun _ => rfl) rfl b

theorem Backing.handle_listProjects (b : Backing) : (Backing.handle .listProjects b).2 = b :=
  handle_query (by simp) (fun _ => rfl) rfl b

/-! ## Calls that may fail -/

def failure (op : Op) (x : interface.Answer op) : Prop :=
  ∃ e, x = Except.error e

theorem Backing.Holds.step {b b' : Backing} {m : Memory} {op : Op} {x : interface.Answer op} (h : b.Holds m)
    (hop : op ≠ .close) (ht : Handler.orFailing failure Backing.handle op b x b') :
    ∃ m', Handler.orFailing failure Memory.handle op m x m' ∧ b'.Holds m' := by
  obtain ⟨ha, hs⟩ := Backing.handle_holds h hop
  exact Handler.orFailing_related Backing.Holds h ha hs ht

def Plausible : (op : Op) → interface.Answer op → Prop
  | .readObject oid, Except.ok (some r) => r.oid = oid
  | _, _ => True

theorem plausible_of_handle {m m' : Memory} {op : Op} {x : interface.Answer op} (hk : m.Keyed)
    (ht : Handler.orFailing failure Memory.handle op m x m') : Plausible op x := by
  rcases ht with ht | ⟨⟨e, rfl⟩, -⟩
  · obtain ⟨rfl, -⟩ := Prod.mk.inj ht
    cases op with
    | readObject oid =>
      show Plausible (.readObject oid) (Except.ok (m.objects.get? oid))
      cases ho : m.objects.get? oid with
      | none => trivial
      | some r => exact (hk oid r ho).1
    | _ => trivial
  · cases op <;> trivial

end BlobDepot.Catalog
