import BlobDepot.Catalog.Store
import BlobDepot.Proofs.SortedMap

/-!
# What calls change

A record stays where it is, with its size, until it is deleted. Its state, its projects and the members of
projects change by calls that say so.
-/

namespace BlobDepot.Catalog.Memory

def Member (m : Memory) (project : String) (oid : Oid) : Prop :=
  ∃ oids, m.projects.get? project = some oids ∧ oids.contains oid = true

def Refers (m : Memory) (oid : Oid) (project : String) : Prop :=
  ∃ r, m.objects.get? oid = some r ∧ r.projects.contains project = true

def Committed (m : Memory) (oid : Oid) : Prop :=
  ∃ r, m.objects.get? oid = some r ∧ r.isCommitted = true

instance (m : Memory) (oid : Oid) (project : String) : Decidable (m.Refers oid project) :=
  decidable_of_iff ((m.objects.get? oid).any (·.projects.contains project) = true) (Option.any_eq_true _ _)

instance (m : Memory) (oid : Oid) : Decidable (m.Committed oid) :=
  decidable_of_iff ((m.objects.get? oid).any (·.isCommitted) = true) (Option.any_eq_true _ _)

variable {m : Memory} {oid : Oid} {r r' : ObjectRecord} {op : Op} {project : String}

/-! ## Records -/

theorem contains_pending {size : Int} {p : String} :
    (ObjectRecord.pending oid size project).projects.contains p = true ↔ project ≠ "" ∧ p = project := by
  unfold ObjectRecord.pending
  by_cases hp : project = ""
  · simp [hp]
  · simp [hp]

theorem objects_updateObject (o : Oid) (f : ObjectRecord → ObjectRecord) :
    (m.updateObject o f).2.objects.get? oid =
      if oid = o then (m.objects.get? oid).map f else m.objects.get? oid := by
  unfold updateObject
  cases ho : m.objects.get? o with
  | none =>
    by_cases h : oid = o
    · simp [h, ho]
    · simp [h]
  | some r =>
    show (m.objects.insert o (f r)).get? oid = _
    rw [SortedMap.get?_insert]
    by_cases h : oid = o
    · simp [h, ho]
    · simp [h]

theorem fst_updateObject (m : Memory) (o : Oid) (f : ObjectRecord → ObjectRecord) :
    (m.updateObject o f).1 = m.objects.contains o := by
  unfold updateObject SortedMap.contains
  cases m.objects.get? o <;> rfl

theorem users_updateObject (m : Memory) (o : Oid) (f : ObjectRecord → ObjectRecord) :
    (m.updateObject o f).2.users = m.users := by
  unfold updateObject
  split <;> rfl

theorem objects_removeObjectProject (o : Oid) (project : String) :
    (m.respond (.removeObjectProject o project)).2.objects.get? oid = if oid = o
      then (m.objects.get? oid).map fun r => { r with projects := r.projects.erase project }
      else m.objects.get? oid := by
  simp only [respond]
  cases ho : m.objects.get? o with
  | none =>
    by_cases h : oid = o
    · simp [h, ho]
    · simp [h]
  | some r =>
    show (m.objects.insert o _).get? oid = _
    rw [SortedMap.get?_insert]
    by_cases h : oid = o
    · simp [h, ho]
    · simp [h]

theorem objects_insertObject (s : ObjectRecord) :
    (m.respond (.insertObject s)).2.objects.get? oid = if m.objects.contains s.oid = false ∧ oid = s.oid
      then some { s with existing := false } else m.objects.get? oid := by
  simp only [respond]
  cases hc : m.objects.contains s.oid with
  | true => simp
  | false =>
    show (m.objects.insert s.oid _).get? oid = _
    rw [SortedMap.get?_insert]
    simp

theorem objects_respond_of_other (h : ∀ s, op ≠ .insertObject s) (h₁ : ∀ o s, op ≠ .setObjectState o s)
    (h₂ : ∀ o p, op ≠ .addObjectProject o p) (h₃ : ∀ o p, op ≠ .removeObjectProject o p)
    (h₄ : ∀ o, op ≠ .deleteObject o) : (m.respond op).2.objects = m.objects := by
  cases op with
  | insertObject s => exact absurd rfl (h s)
  | setObjectState o s => exact absurd rfl (h₁ o s)
  | addObjectProject o p => exact absurd rfl (h₂ o p)
  | removeObjectProject o p => exact absurd rfl (h₃ o p)
  | deleteObject o => exact absurd rfl (h₄ o)
  | createProject name => simp only [respond]; split <;> rfl
  | removeProjectMember name o => simp only [respond]; split <;> rfl
  | insertUser user => simp only [respond]; split <;> rfl
  | _ => rfl

/-- What a call makes of the record under an identifier. -/
structure Successor (oid : Oid) (op : Op) (r r' : ObjectRecord) : Prop where
  size : r'.size = r.size
  state : r'.state = r.state ∨ op = .setObjectState oid r'.state
  kept : ∀ project, r.projects.contains project = true →
    r'.projects.contains project = true ∨ op = .removeObjectProject oid project
  gained : ∀ project, r'.projects.contains project = true →
    r.projects.contains project = true ∨ op = .addObjectProject oid project

theorem Successor.refl (oid : Oid) (op : Op) (r : ObjectRecord) : Successor oid op r r :=
  ⟨rfl, .inl rfl, fun _ h => .inl h, fun _ h => .inl h⟩

theorem successor (op : Op) (hr : m.objects.get? oid = some r) (hd : op ≠ .deleteObject oid) :
    ∃ r', (m.respond op).2.objects.get? oid = some r' ∧ Successor oid op r r' := by
  cases op with
  | insertObject s =>
    refine ⟨r, ?_, .refl _ _ _⟩
    rw [objects_insertObject, if_neg]
    · exact hr
    · intro h
      rw [← h.2, SortedMap.contains_iff.mpr ⟨r, hr⟩] at h
      cases h.1
  | setObjectState o state =>
    show ∃ r', (m.updateObject o _).2.objects.get? oid = some r' ∧ _
    rw [objects_updateObject, hr]
    by_cases ho : oid = o
    · subst ho
      rw [if_pos rfl]
      exact ⟨_, rfl, rfl, .inr rfl, fun _ h => .inl h, fun _ h => .inl h⟩
    · rw [if_neg ho]
      exact ⟨r, rfl, .refl _ _ _⟩
  | addObjectProject o project =>
    show ∃ r', (m.updateObject o _).2.objects.get? oid = some r' ∧ _
    rw [objects_updateObject, hr]
    by_cases ho : oid = o
    · subst ho
      rw [if_pos rfl]
      refine ⟨_, rfl, rfl, .inl rfl, fun p h => .inl ?_, fun p h => ?_⟩
      · exact SortedSet.contains_add.mpr (.inr h)
      · rcases SortedSet.contains_add.mp h with rfl | h
        · exact .inr rfl
        · exact .inl h
    · rw [if_neg ho]
      exact ⟨r, rfl, .refl _ _ _⟩
  | removeObjectProject o project =>
    rw [objects_removeObjectProject, hr]
    by_cases ho : oid = o
    · subst ho
      rw [if_pos rfl]
      refine ⟨_, rfl, rfl, .inl rfl, fun p h => ?_, fun p h => .inl (SortedMap.contains_erase.mp h).2⟩
      by_cases hp : p = project
      · exact .inr (by rw [hp])
      · exact .inl (SortedMap.contains_erase.mpr ⟨hp, h⟩)
    · rw [if_neg ho]
      exact ⟨r, rfl, .refl _ _ _⟩
  | deleteObject o =>
    have ho : oid ≠ o := by intro e; exact hd (by rw [e])
    refine ⟨r, ?_, .refl _ _ _⟩
    show (m.objects.erase o).get? oid = _
    rw [SortedMap.get?_erase, if_neg ho, hr]
  | _ =>
    refine ⟨r, ?_, .refl _ _ _⟩
    rw [objects_respond_of_other] <;> first | exact hr | simp

theorem refers_respond : (m.respond op).2.Refers oid project ↔ match op with
    | .insertObject s => m.Refers oid project ∨
      (m.objects.contains s.oid = false ∧ oid = s.oid ∧ s.projects.contains project = true)
    | .addObjectProject o p => m.Refers oid project ∨
      (m.objects.contains o = true ∧ oid = o ∧ project = p)
    | .removeObjectProject o p => m.Refers oid project ∧ ¬ (oid = o ∧ project = p)
    | .deleteObject o => m.Refers oid project ∧ oid ≠ o
    | _ => m.Refers oid project := by
  unfold Refers
  cases op with
  | insertObject s =>
    simp only [objects_insertObject]
    by_cases h : m.objects.contains s.oid = false ∧ oid = s.oid
    · obtain ⟨hc, rfl⟩ := h
      simp [hc, SortedMap.contains_eq_false_iff.mp hc]
    · rw [if_neg h]
      constructor
      · exact .inl
      · rintro (h' | ⟨hc, ho, -⟩)
        · exact h'
        · exact absurd ⟨hc, ho⟩ h
  | setObjectState o state =>
    show (∃ r, (m.updateObject o _).2.objects.get? oid = some r ∧ _) ↔ _
    rw [objects_updateObject]
    by_cases ho : oid = o
    · rw [if_pos ho]
      simp
    · rw [if_neg ho]
  | addObjectProject o p =>
    show (∃ r, (m.updateObject o _).2.objects.get? oid = some r ∧ _) ↔ _
    rw [objects_updateObject]
    by_cases ho : oid = o
    · subst ho
      cases hr : m.objects.get? oid with
      | none => simp [SortedMap.contains_eq_false_iff.mpr hr]
      | some r => simp [SortedMap.contains_iff.mpr ⟨r, hr⟩, or_comm]
    · simp [ho]
  | removeObjectProject o p =>
    rw [objects_removeObjectProject]
    by_cases ho : oid = o
    · subst ho
      cases hr : m.objects.get? oid with
      | none => simp
      | some r => simp [and_comm]
    · simp [ho]
  | deleteObject o =>
    show (∃ r, (m.objects.erase o).get? oid = some r ∧ _) ↔ _
    rw [SortedMap.get?_erase]
    by_cases ho : oid = o
    · simp [ho]
    · simp [ho]
  | _ => rw [objects_respond_of_other] <;> simp

theorem refers_addObjectProject (hr : m.objects.get? oid = some r) (project : String) :
    (m.respond (.addObjectProject oid project)).2.Refers oid project := by
  rw [refers_respond]
  exact .inr ⟨SortedMap.contains_iff.mpr ⟨r, hr⟩, rfl, rfl⟩

theorem objects_deleteObject (oid : Oid) : (m.respond (.deleteObject oid)).2.objects.get? oid = none := by
  show (m.objects.erase oid).get? oid = _
  rw [SortedMap.get?_erase, if_pos rfl]

theorem committed_respond : (m.respond op).2.Committed oid ↔ match op with
    | .insertObject s => m.Committed oid ∨
      (m.objects.contains s.oid = false ∧ oid = s.oid ∧ s.isCommitted = true)
    | .setObjectState o state =>
      if oid = o then m.objects.contains oid = true ∧ state = .committed else m.Committed oid
    | .deleteObject o => m.Committed oid ∧ oid ≠ o
    | _ => m.Committed oid := by
  unfold Committed
  cases op with
  | insertObject s =>
    simp only [objects_insertObject]
    by_cases h : m.objects.contains s.oid = false ∧ oid = s.oid
    · obtain ⟨hc, rfl⟩ := h
      simp [hc, SortedMap.contains_eq_false_iff.mp hc, ObjectRecord.isCommitted]
    · rw [if_neg h]
      constructor
      · exact .inl
      · rintro (h' | ⟨hc, ho, -⟩)
        · exact h'
        · exact absurd ⟨hc, ho⟩ h
  | setObjectState o state =>
    show (∃ r, (m.updateObject o _).2.objects.get? oid = some r ∧ _) ↔ _
    rw [objects_updateObject]
    by_cases ho : oid = o
    · subst ho
      cases hr : m.objects.get? oid with
      | none => simp [SortedMap.contains_eq_false_iff.mpr hr]
      | some r =>
        cases state <;>
          simp [SortedMap.contains_iff.mpr ⟨r, hr⟩, ObjectRecord.isCommitted, ObjectState.isCommitted]
    · simp [ho]
  | addObjectProject o p =>
    show (∃ r, (m.updateObject o _).2.objects.get? oid = some r ∧ _) ↔ _
    rw [objects_updateObject]
    by_cases ho : oid = o
    · rw [if_pos ho]
      simp [ObjectRecord.isCommitted]
    · rw [if_neg ho]
  | removeObjectProject o p =>
    rw [objects_removeObjectProject]
    by_cases ho : oid = o
    · rw [if_pos ho]
      simp [ObjectRecord.isCommitted]
    · rw [if_neg ho]
  | deleteObject o =>
    show (∃ r, (m.objects.erase o).get? oid = some r ∧ _) ↔ _
    rw [SortedMap.get?_erase]
    by_cases ho : oid = o
    · simp [ho]
    · simp [ho]
  | _ => rw [objects_respond_of_other] <;> simp

theorem origin (hn : m.objects.get? oid = none) (h : (m.respond op).2.objects.get? oid = some r') :
    ∃ s, op = .insertObject s ∧ s.oid = oid ∧ r' = { s with existing := false } := by
  cases op with
  | insertObject s =>
    rw [objects_insertObject] at h
    split at h
    · next hs => exact ⟨s, rfl, hs.2.symm, (Option.some.inj h).symm⟩
    · rw [hn] at h; cases h
  | setObjectState o state =>
    change (m.updateObject o _).2.objects.get? oid = _ at h
    rw [objects_updateObject, hn] at h
    split at h <;> cases h
  | addObjectProject o project =>
    change (m.updateObject o _).2.objects.get? oid = _ at h
    rw [objects_updateObject, hn] at h
    split at h <;> cases h
  | removeObjectProject o project =>
    rw [objects_removeObjectProject, hn] at h
    split at h <;> cases h
  | deleteObject o =>
    change (m.objects.erase o).get? oid = _ at h
    rw [SortedMap.get?_erase, hn] at h
    split at h <;> cases h
  | _ =>
    rw [objects_respond_of_other, hn] at h <;> first | cases h | simp

/-! ## Projects -/

theorem projects_respond (name : String) : (m.respond op).2.projects.get? name = match op with
    | .createProject p => if name = p ∧ m.projects.contains p = false then some .empty else
      m.projects.get? name
    | .addProjectMember p oid =>
      if name = p then some (SortedSet.add ((m.projects.get? p).getD .empty) oid) else m.projects.get? name
    | .removeProjectMember p oid =>
      if name = p then (m.projects.get? p).map (·.erase oid) else m.projects.get? name
    | _ => m.projects.get? name := by
  cases op with
  | insertObject s => simp only [respond]; split <;> rfl
  | setObjectState o s => simp only [respond, updateObject]; split <;> rfl
  | addObjectProject o p => simp only [respond, updateObject]; split <;> rfl
  | removeObjectProject o p => simp only [respond]; split <;> rfl
  | insertUser user => simp only [respond]; split <;> rfl
  | createProject p =>
    simp only [respond]
    cases hc : m.projects.contains p with
    | true => simp
    | false => simp [SortedMap.get?_insert]
  | addProjectMember p oid => simp only [respond, SortedMap.get?_insert]
  | removeProjectMember p oid =>
    simp only [respond]
    cases hp : m.projects.get? p with
    | none =>
      by_cases hn : name = p
      · simp [hn, hp]
      · simp [hn]
    | some oids => simp [SortedMap.get?_insert]
  | _ => rfl

theorem member_respond : (m.respond op).2.Member project oid ↔ match op with
    | .addProjectMember p o => m.Member project oid ∨ (project = p ∧ oid = o)
    | .removeProjectMember p o => m.Member project oid ∧ ¬ (project = p ∧ oid = o)
    | _ => m.Member project oid := by
  unfold Member
  cases op with
  | createProject p =>
    rw [projects_respond]
    dsimp only
    by_cases hp : project = p ∧ m.projects.contains p = false
    · obtain ⟨rfl, hc⟩ := hp
      simp [hc, SortedMap.contains_eq_false_iff.mp hc]
    · rw [if_neg hp]
  | addProjectMember p o =>
    rw [projects_respond]
    dsimp only
    by_cases hp : project = p
    · subst hp
      cases hr : m.projects.get? project with
      | none => simp
      | some oids => simp [or_comm]
    · simp [hp]
  | removeProjectMember p o =>
    rw [projects_respond]
    dsimp only
    by_cases hp : project = p
    · subst hp
      cases hr : m.projects.get? project with
      | none => simp
      | some oids => simp [and_comm]
    · simp [hp]
  | _ => rw [projects_respond]

theorem Member.respond (h : m.Member project oid) (hd : op ≠ .removeProjectMember project oid) :
    (m.respond op).2.Member project oid := by
  rw [member_respond]
  split
  · exact .inl h
  · refine ⟨h, fun e => ?_⟩
    obtain ⟨rfl, rfl⟩ := e
    exact hd rfl
  · exact h

theorem member_addProjectMember (m : Memory) (project : String) (oid : Oid) :
    (m.respond (.addProjectMember project oid)).2.Member project oid := by
  rw [member_respond]
  exact .inr ⟨rfl, rfl⟩

/-- A member is added in vain. -/
theorem respond_addProjectMember (h : m.Member project oid) :
    (m.respond (.addProjectMember project oid)).2 = m := by
  obtain ⟨oids, hp, hc⟩ := h
  have hadd : SortedSet.add oids oid = oids := by
    apply SortedSet.ext_contains
    intro o
    rw [SortedSet.contains_add]
    exact ⟨fun ho => ho.elim (fun e => e ▸ hc) id, .inr⟩
  simp only [respond, hp, Option.getD_some, hadd, SortedMap.insert_eq_self hp]

theorem contains_project_respond (h : m.projects.contains project = true) :
    (m.respond op).2.projects.contains project = true := by
  obtain ⟨oids, hp⟩ := SortedMap.contains_iff.mp h
  rw [SortedMap.contains_iff, projects_respond]
  split
  · split
    · exact ⟨_, rfl⟩
    · exact ⟨_, hp⟩
  · split
    · exact ⟨_, rfl⟩
    · exact ⟨_, hp⟩
  · next p o =>
    split
    · next hn => rw [← hn, hp]; exact ⟨_, rfl⟩
    · exact ⟨_, hp⟩
  · exact ⟨_, hp⟩

end BlobDepot.Catalog.Memory
