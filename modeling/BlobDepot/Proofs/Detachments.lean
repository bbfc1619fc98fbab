import BlobDepot.Proofs.Agreement

/-!
# What a removal reports

A removal takes an object out of a project, and does to the record what its answer says, also where records and
projects disagree. A failed one changes nothing: `removed_as_reported`.
-/

namespace BlobDepot

open Catalog (Backing Memory Op)
open Prog

/-! ## Taking out what is not there -/

namespace Catalog

variable {oid : Oid} {project : String} {m : Memory}

namespace Memory

theorem respond_removeProjectMember_iff : (m.respond (.removeProjectMember project oid)).1 = true ↔
    m.Member project oid := by
  unfold Member
  simp only [respond]
  cases m.projects.get? project <;> simp

theorem respond_removeObjectProject_iff : (m.respond (.removeObjectProject oid project)).1 = true ↔
    m.Refers oid project := by
  unfold Refers
  simp only [respond]
  cases m.objects.get? oid <;> simp

theorem respond_removeProjectMember_absent (h : ¬ m.Member project oid) :
    m.respond (.removeProjectMember project oid) = (false, m) := by
  refine Prod.ext (Bool.eq_false_iff.mpr (mt respond_removeProjectMember_iff.mp h)) ?_
  simp only [respond]
  cases hp : m.projects.get? project with
  | none => rfl
  | some oids =>
    have hc : oids.contains oid = false := Bool.eq_false_iff.mpr fun hc => h ⟨oids, hp, hc⟩
    simp only [SortedMap.erase_eq_self hc, SortedMap.insert_eq_self hp]

theorem respond_removeObjectProject_absent (h : ¬ m.Refers oid project) :
    m.respond (.removeObjectProject oid project) = (false, m) := by
  refine Prod.ext (Bool.eq_false_iff.mpr (mt respond_removeObjectProject_iff.mp h)) ?_
  simp only [respond]
  cases hr : m.objects.get? oid with
  | none => rfl
  | some r =>
    have hc : r.projects.contains project = false := Bool.eq_false_iff.mpr fun hc => h ⟨r, hr, hc⟩
    simp only [SortedMap.erase_eq_self hc, SortedMap.insert_eq_self hr]

end Memory

/-- Where no rows are deleted, the database stays as it is. -/
theorem Relational.eq_of_write_deleteWhere {ρ : Type} {table : Table} {rows : Database → List ρ}
    {put : Database → List ρ → Database} {which : ρ → Bool} {db db' : Database}
    (h : (write (Transaction.deleteWhere table rows put which)).run db = .ok (false, db')) : db' = db := by
  change ((if (rows db).any which then do
      Transaction.refuseTriggered .delete table
      set (put db ((rows db).filter (!which ·)))
      pure true
    else pure false : Transaction Bool).run db).mapError refusal = _ at h
  split at h
  · rw [StateT.run_bind] at h
    cases hrefused : (Transaction.refuseTriggered .delete table).run db with
    | error message =>
      rw [hrefused] at h
      cases h
    | ok x =>
      rw [hrefused] at h
      cases h
  · cases h
    rfl

/-- A call that leaves the memory alone leaves the catalog alone that holds it, if its statements do. -/
theorem Backing.handle_eq_self {b : Backing} (hb : b.Holds m) {op : Op} {x : op.Result} (hop : op ≠ .close)
    (hm : m.respond op = (x, m)) (hr : ∀ db db', (Relational.respond op).run db = .ok (x, db') → db' = db) :
    Backing.handle op b = (.ok x, b) := by
  cases hb with
  | memory _ => simp only [Backing.handle, Memory.handle, hm]
  | @relational db _ hk hdb =>
    obtain ⟨db', hrun, -⟩ := Relational.respond_holds hdb hk op
    rw [hm] at hrun
    have hsame := hr db db' hrun
    subst hsame
    simp only [Backing.handle, Relational.handle_of_run hop hrun]

theorem Backing.handle_removeProjectMember_absent {b : Backing} (hb : b.Holds m) (h : ¬ m.Member project oid) :
    Backing.handle (.removeProjectMember project oid) b = (.ok false, b) :=
  handle_eq_self hb (by simp) (Memory.respond_removeProjectMember_absent h) fun _ _ =>
    Relational.eq_of_write_deleteWhere

theorem Backing.handle_removeObjectProject_absent {b : Backing} (hb : b.Holds m) (h : ¬ m.Refers oid project) :
    Backing.handle (.removeObjectProject oid project) b = (.ok false, b) :=
  handle_eq_self hb (by simp) (Memory.respond_removeObjectProject_absent h) fun _ _ =>
    Relational.eq_of_write_deleteWhere

end Catalog

/-! ## Out of a project -/

namespace Ledger

variable {oid : Oid} {project : String} {m m' : Memory} {r : ObjectRecord}

/-- The object has left the project, and `left` is what there is of its record. Nothing else is different. -/
structure Parts (oid : Oid) (project : String) (left : Option ObjectRecord) (m m' : Memory) : Prop where
  members : ∀ p o, m'.Member p o ↔ m.Member p o ∧ ¬ (p = project ∧ o = oid)
  projects : ∀ p, m'.projects.contains p = m.projects.contains p
  record : m'.objects.get? oid = left
  objects : ∀ o, o ≠ oid → m'.objects.get? o = m.objects.get? o
  users : m'.users = m.users

/-- The object belongs to another project too, by its record or by the project's list. -/
def Elsewhere (m : Memory) (oid : Oid) (project : String) : Prop :=
  ∃ other, other ≠ project ∧ (m.Refers oid other ∨ m.Member other oid)

/-- What a removal answers and what it leaves. -/
inductive Removal (oid : Oid) (project : String) (m : Memory) : Except CatalogError Bool → Memory → Prop
  | unknown : m.objects.get? oid = none → ¬ m.Member project oid →
      Removal oid project m (.error (.objectNotFound oid.hex)) m
  | apart {r : ObjectRecord} : m.objects.get? oid = some r → ¬ m.Member project oid → ¬ m.Refers oid project →
      Removal oid project m
        (.error (.invalidRequest ("object " ++ oid.hex ++ " is not part of project " ++ project))) m
  | stray {m' : Memory} : m.objects.get? oid = none → m.Member project oid → Parts oid project none m m' →
      Removal oid project m (.ok false) m'
  | kept {m' : Memory} {r : ObjectRecord} : m.objects.get? oid = some r →
      m.Member project oid ∨ m.Refers oid project → Elsewhere m oid project →
        Parts oid project (some { r with projects := r.projects.erase project }) m m' →
          Removal oid project m (.ok false) m'
  | deleted {m' : Memory} {r : ObjectRecord} : m.objects.get? oid = some r →
      m.Member project oid ∨ m.Refers oid project → ¬ Elsewhere m oid project →
        Parts oid project none m m' → Removal oid project m (.ok true) m'

theorem wasPart_fst : (wasPart m oid project).1 = true ↔ m.Member project oid :=
  Memory.respond_removeProjectMember_iff

theorem wasPart_snd : (wasPart m oid project).2 = true ↔ m.Refers oid project := by
  unfold wasPart
  dsimp only
  rw [Memory.respond_removeObjectProject_iff, Memory.refers_respond]

theorem objects_removeProjectMember (m : Memory) (project : String) (oid : Oid) :
    (m.respond (.removeProjectMember project oid)).2.objects = m.objects :=
  Memory.objects_respond_of_other (by simp) (by simp) (by simp) (by simp) (by simp)

theorem parts_parted (m : Memory) (oid : Oid) (project : String) :
    Parts oid project ((m.objects.get? oid).map fun r => { r with projects := r.projects.erase project }) m
      (parted m oid project) where
  members p o := by
    unfold parted
    rw [Memory.member_respond, Memory.member_respond]
  projects p := by
    unfold parted
    rw [Bool.eq_iff_iff, SortedMap.contains_iff, SortedMap.contains_iff, Memory.projects_respond,
      Memory.projects_respond]
    dsimp only
    split
    · next hp => simp [hp]
    · rfl
  record := by
    unfold parted
    rw [Memory.objects_removeObjectProject, if_pos rfl, objects_removeProjectMember]
  objects o ho := by
    unfold parted
    rw [Memory.objects_removeObjectProject, if_neg ho, objects_removeProjectMember]
  users := by
    unfold parted
    simp only [Memory.respond]
    split <;> split <;> rfl

theorem Parts.delete {left : Option ObjectRecord} (h : Parts oid project left m m') :
    Parts oid project none m (m'.respond (.deleteObject oid)).2 where
  members p o := by
    rw [Memory.member_respond]
    exact h.members p o
  projects := h.projects
  record := Memory.objects_deleteObject oid
  objects o ho := by
    rw [← h.objects o ho]
    show (m'.objects.erase oid).get? o = _
    rw [SortedMap.get?_erase, if_neg ho]
  users := h.users

theorem parted_eq_self (h : ¬ m.Member project oid) (h' : ¬ m.Refers oid project) : parted m oid project = m := by
  unfold parted
  rw [Memory.respond_removeProjectMember_absent h, Memory.respond_removeObjectProject_absent h']

theorem isEmpty_listed_iff : ((m.respond .listProjects).1.filter (·.contains oid)).isEmpty = true ↔
    ∀ p, ¬ m.Member p oid := by
  simp only [List.isEmpty_iff, List.filter_eq_nil_iff, Memory.respond, List.mem_map]
  constructor
  · intro h p hmember
    obtain ⟨oids, ho, hc⟩ := hmember
    exact h _ ⟨_, SortedMap.get?_eq_some_iff.mp ho, rfl⟩ hc
  · rintro h - ⟨e, he, rfl⟩ hc
    exact h e.1 ⟨e.2, SortedMap.get?_eq_some_iff.mpr he, hc⟩

theorem elsewhere_iff (hr : m.objects.get? oid = some r) : Elsewhere m oid project ↔
    ¬ ((r.projects.erase project).isEmpty = true ∧
      (((parted m oid project).respond .listProjects).1.filter (·.contains oid)).isEmpty = true) := by
  have hempty : (r.projects.erase project).isEmpty = true ↔ ∀ other, ¬ (other ≠ project ∧ m.Refers oid other) := by
    simp [SortedMap.isEmpty_iff, Memory.Refers, hr, ← Bool.not_eq_true]
  have hlisted : (((parted m oid project).respond .listProjects).1.filter (·.contains oid)).isEmpty = true ↔
      ∀ other, ¬ (other ≠ project ∧ m.Member other oid) := by
    simp only [isEmpty_listed_iff, (parts_parted m oid project).members, and_true]
    exact forall_congr' fun other => not_congr and_comm
  rw [hempty, hlisted, ← forall_and, not_forall]
  exact exists_congr fun other => by tauto

/-! ## On a catalog -/

variable {b : Backing}

def detached (b : Backing) (oid : Oid) (project : String) : Backing :=
  (Backing.handle (.removeObjectProject oid project) (Backing.handle (.removeProjectMember project oid) b).2).2

theorem detached_holds (hb : b.Holds m) (oid : Oid) (project : String) :
    (detached b oid project).Holds (parted m oid project) :=
  (Backing.handle_holds (Backing.handle_holds hb (by simp)).2 (by simp)).2

theorem detached_eq_self (hb : b.Holds m) (hmember : ¬ m.Member project oid) (hrefers : ¬ m.Refers oid project) :
    detached b oid project = b := by
  unfold detached
  rw [Backing.handle_removeProjectMember_absent hb hmember, Backing.handle_removeObjectProject_absent hb hrefers]

theorem run_ask_bind {σ β : Type} {h : Handler Catalog.interface σ} {op : Op} {s : σ} {x : op.Result}
    (hx : (h op s).1 = .ok x) (k : op.Result → CatalogM β) :
    (Catalog.ask op >>= k).run.run h s = (k x).run.run h (h op s).2 := by
  have hask : (Catalog.ask op).run.run h s = (.ok x, (h op s).2) := Prod.ext hx rfl
  rw [run_run_bind, hask]

theorem run_removeFromProject_detached (hb : b.Holds m) (oid : Oid) (project : String) :
    (removeFromProject oid project).run.run Backing.handle b =
      (conclude oid project (wasPart m oid project).1 (wasPart m oid project).2
        ((parted m oid project).objects.get? oid)).run.run Backing.handle (detached b oid project) := by
  obtain ⟨hmember, hb₁⟩ := Backing.handle_holds hb (show Op.removeProjectMember project oid ≠ .close by simp)
  obtain ⟨hrefers, hb₂⟩ := Backing.handle_holds hb₁ (show Op.removeObjectProject oid project ≠ .close by simp)
  obtain ⟨hread, -⟩ := Backing.handle_holds hb₂ (show Op.readObject oid ≠ .close by simp)
  rw [removeFromProject_eq, Projects.removeObject, run_ask_bind hmember, run_ask_bind hrefers, run_ask_bind hread,
    Backing.handle_readObject]
  rfl

theorem run_conclude_part (hb : b.Holds m) {w h : Bool} (hpart : w = true ∨ h = true) (r : ObjectRecord) :
    (conclude oid project w h (some r)).run.run Backing.handle b =
      if r.projects.isEmpty = true ∧ ((m.respond .listProjects).1.filter (·.contains oid)).isEmpty = true then
        (.ok (m.objects.contains oid), (Backing.handle (.deleteObject oid) b).2)
      else (.ok false, b) := by
  have hnot : (!w && !h) = false := by rcases hpart with rfl | rfl <;> simp
  have hlist := (Backing.handle_holds hb (show Op.listProjects ≠ .close by simp)).1
  have hreferencing : (Projects.referencing oid).run.run Backing.handle b =
      (.ok (((m.respond .listProjects).1.filter (·.contains oid)).map (·.name)), b) := by
    rw [Projects.referencing, Projects.list, run_ask_bind hlist, Backing.handle_listProjects]
    rfl
  unfold conclude
  dsimp only
  simp only [hnot, Bool.false_eq_true, if_false]
  by_cases hempty : r.projects.isEmpty = true
  · simp only [hempty, Bool.not_true, Bool.false_eq_true, if_false, true_and]
    rw [run_run_bind, hreferencing]
    dsimp only
    rw [List.isEmpty_map]
    split
    · next hlisted =>
      rw [if_neg (by simpa using hlisted)]
      rfl
    · next hlisted =>
      rw [if_pos (by simpa using hlisted)]
      exact Prod.ext (Backing.handle_holds hb (show Op.deleteObject oid ≠ .close by simp)).1 rfl
  · simp only [hempty, Bool.not_false, if_true]
    rfl

def refusal (m : Memory) (oid : Oid) (project : String) : CatalogError :=
  if m.objects.contains oid then .invalidRequest ("object " ++ oid.hex ++ " is not part of project " ++ project)
  else .objectNotFound oid.hex

/-- A removal that does not find the object in the project changes nothing at all. -/
theorem run_removeFromProject_apart (hb : b.Holds m) (hmember : ¬ m.Member project oid)
    (hrefers : ¬ m.Refers oid project) :
    (removeFromProject oid project).run.run Backing.handle b = (.error (refusal m oid project), b) := by
  have hfirst : (wasPart m oid project).1 = false := Bool.eq_false_iff.mpr (mt wasPart_fst.mp hmember)
  have hsecond : (wasPart m oid project).2 = false := Bool.eq_false_iff.mpr (mt wasPart_snd.mp hrefers)
  rw [run_removeFromProject_detached hb, detached_eq_self hb hmember hrefers, parted_eq_self hmember hrefers, hfirst,
    hsecond, refusal]
  cases hr : m.objects.get? oid with
  | none =>
    rw [SortedMap.contains_eq_false_iff.mpr hr]
    rfl
  | some r =>
    rw [SortedMap.contains_iff.mpr ⟨r, hr⟩]
    rfl

theorem removal_refusal (hmember : ¬ m.Member project oid) (hrefers : ¬ m.Refers oid project) :
    Removal oid project m (.error (refusal m oid project)) m := by
  unfold refusal
  cases hr : m.objects.get? oid with
  | none =>
    rw [SortedMap.contains_eq_false_iff.mpr hr]
    exact .unknown hr hmember
  | some r =>
    rw [SortedMap.contains_iff.mpr ⟨r, hr⟩]
    exact .apart hr hmember hrefers

/-- A removal that finds the object in the project takes it out, and deletes the record or not. -/
theorem run_removeFromProject_part (hb : b.Holds m) (h : m.Member project oid ∨ m.Refers oid project) :
    ∃ x m', (removeFromProject oid project).run.run Backing.handle b =
        (.ok x, if x then (Backing.handle (.deleteObject oid) (detached b oid project)).2 else detached b oid project) ∧
      ((removeFromProject oid project).run.run Backing.handle b).2.Holds m' ∧ Removal oid project m (.ok x) m' := by
  have hparts := parts_parted m oid project
  have hdetached := detached_holds hb oid project
  rw [run_removeFromProject_detached hb, hparts.record]
  cases hr : m.objects.get? oid with
  | none =>
    rw [hr] at hparts
    have hmember : m.Member project oid := h.resolve_right fun hrefers => by simp [Memory.Refers, hr] at hrefers
    unfold conclude
    simp only [Option.map_none, wasPart_fst.mpr hmember, if_true]
    exact ⟨false, _, rfl, hdetached, .stray hr hmember hparts⟩
  | some r =>
    rw [hr] at hparts
    have hpart : (wasPart m oid project).1 = true ∨ (wasPart m oid project).2 = true :=
      h.imp wasPart_fst.mpr wasPart_snd.mpr
    have hcontains := SortedMap.contains_iff.mpr ⟨_, hparts.record⟩
    rw [Option.map_some, run_conclude_part hdetached hpart, hcontains]
    by_cases helse : Elsewhere m oid project
    · rw [if_neg ((elsewhere_iff hr).mp helse)]
      exact ⟨false, _, rfl, hdetached, .kept hr h helse hparts⟩
    · rw [if_pos (not_not.mp (mt (elsewhere_iff hr).mpr helse))]
      have hholds := (Backing.handle_holds hdetached (show Op.deleteObject oid ≠ .close by simp)).2
      exact ⟨true, _, rfl, hholds, .deleted hr h helse hparts.delete⟩

theorem removal_of_holds (hb : b.Holds m) (oid : Oid) (project : String) :
    ∃ m', ((removeFromProject oid project).run.run Backing.handle b).2.Holds m' ∧
      Removal oid project m ((removeFromProject oid project).run.run Backing.handle b).1 m' ∧
        (∀ e, ((removeFromProject oid project).run.run Backing.handle b).1 = .error e →
          ((removeFromProject oid project).run.run Backing.handle b).2 = b) := by
  by_cases hpart : m.Member project oid ∨ m.Refers oid project
  · obtain ⟨x, m', hrun, hholds, hremoval⟩ := run_removeFromProject_part hb hpart
    refine ⟨m', hholds, ?_, fun e he => ?_⟩
    · rw [hrun]
      exact hremoval
    · rw [hrun] at he
      cases he
  · obtain ⟨hmember, hrefers⟩ := not_or.mp hpart
    rw [run_removeFromProject_apart hb hmember hrefers]
    exact ⟨m, hb, removal_refusal hmember hrefers, fun _ _ => rfl⟩

/-- The catalogs that calls lead to, from an empty one in memory or in tables on, before they are closed. -/
inductive Reached : Backing → Prop
  | memory : Reached (.memory .empty)
  | relational : Reached (.relational .empty)
  | call {b : Backing} (op : Op) : Reached b → op ≠ .close → Reached (Backing.handle op b).2

theorem Reached.holds (h : Reached b) : ∃ m, b.Holds m := by
  induction h with
  | memory => exact ⟨_, .memory Catalog.Memory.keyed_empty⟩
  | relational => exact ⟨_, .relational Catalog.Memory.keyed_empty Catalog.Database.holds_empty⟩
  | call op _ hop ih =>
    obtain ⟨m, hm⟩ := ih
    exact ⟨_, (Backing.handle_holds hm hop).2⟩

/-- A removal does what it reports, whatever calls came before it. -/
theorem removed_as_reported (h : Reached b) (oid : Oid) (project : String) :
    ∃ m m', b.Holds m ∧ ((removeFromProject oid project).run.run Backing.handle b).2.Holds m' ∧
      Removal oid project m ((removeFromProject oid project).run.run Backing.handle b).1 m' ∧
        (∀ e, ((removeFromProject oid project).run.run Backing.handle b).1 = .error e →
          ((removeFromProject oid project).run.run Backing.handle b).2 = b) := by
  obtain ⟨m, hb⟩ := h.holds
  obtain ⟨m', hremoval⟩ := removal_of_holds hb oid project
  exact ⟨m, m', hb, hremoval⟩

theorem removed_as_reported_of_claim :
    let b := (Backing.handle (.insertObject (.pending default 3 "p"))
      (Backing.handle (.addProjectMember "p" default) (.relational .empty)).2).2
    Reached b ∧ ∃ m m', b.Holds m ∧
      ((removeFromProject default "p").run.run Backing.handle b).2.Holds m' ∧ Removal default "p" m (.ok true) m' := by
  intro b
  have hb : Reached b := (Reached.relational.call _ (by simp)).call _ (by simp)
  obtain ⟨m, m', hm, hm', hremoval, -⟩ := removed_as_reported hb default "p"
  have hdeleted : ((removeFromProject default "p").run.run Backing.handle b).1 = .ok true := by decide +kernel
  rw [hdeleted] at hremoval
  exact ⟨hb, m, m', hm, hm', hremoval⟩

end Ledger

end BlobDepot
