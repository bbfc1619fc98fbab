import BlobDepot.Proofs.Detachments
import BlobDepot.Proofs.Interchange
import BlobDepot.Proofs.Lifecycle

/-!
# Operations on different objects

What the ledger does with an object follows from the record of the object and the projects that list it, and all that
it changes besides is that projects come to be. So operations on two objects may be done in either order:
`done_in_either_order`.
-/

namespace BlobDepot

open Catalog (Backing Memory Op)
open Prog hiding bind_assoc

namespace Catalog

/-! ## Memories that tell the same of an object -/

namespace Memory

structure Agree (oid : Oid) (m m' : Memory) : Prop where
  record : m'.objects.get? oid = m.objects.get? oid
  members : ∀ project, m'.Member project oid ↔ m.Member project oid

/-- Nothing is different but what is told of an object, and that the named projects have come to be. -/
structure Differ (oid : Oid) (named : String → Prop) (m m' : Memory) : Prop where
  records : ∀ o, o ≠ oid → m'.objects.get? o = m.objects.get? o
  members : ∀ project o, o ≠ oid → (m'.Member project o ↔ m.Member project o)
  projects : ∀ project, m'.projects.contains project = true ↔ m.projects.contains project = true ∨ named project
  users : m'.users = m.users

section
variable {oid o : Oid} {m m' m₁ m₁' : Memory} {named named' : String → Prop} {op : Op}

theorem Agree.refl (oid : Oid) (m : Memory) : Agree oid m m :=
  ⟨rfl, fun _ => Iff.rfl⟩

theorem Agree.contains (h : Agree oid m m') : m'.objects.contains oid = m.objects.contains oid := by
  unfold SortedMap.contains
  rw [h.record]

theorem Differ.refl (oid : Oid) (m : Memory) : Differ oid (fun _ => False) m m :=
  ⟨fun _ _ => rfl, fun _ _ _ => Iff.rfl, fun _ => (or_false _).symm ▸ Iff.rfl, rfl⟩

theorem Differ.trans (h : Differ oid named m m₁) (h' : Differ oid named' m₁ m') :
    Differ oid (fun project => named project ∨ named' project) m m' where
  records o ho := (h'.records o ho).trans (h.records o ho)
  members project o ho := (h'.members project o ho).trans (h.members project o ho)
  projects project := by rw [h'.projects, h.projects, or_assoc]
  users := h'.users.trans h.users

theorem Differ.agree (h : Differ oid named m m') (ho : o ≠ oid) : Agree o m m' :=
  ⟨h.records o ho, fun project => h.members project o ho⟩

theorem Agree.symm (h : Agree oid m m') : Agree oid m' m :=
  ⟨h.record.symm, fun project => (h.members project).symm⟩

theorem Agree.trans (h : Agree oid m m₁) (h' : Agree oid m₁ m') : Agree oid m m' :=
  ⟨h'.record.trans h.record, fun project => (h'.members project).trans (h.members project)⟩

/-- Memories that tell the same of all objects, and have the same projects and users, are the same. -/
theorem eq_of_agree (hagree : ∀ o, Agree o m m')
    (hprojects : ∀ project, m'.projects.contains project = true ↔ m.projects.contains project = true)
    (husers : m'.users = m.users) : m' = m := by
  have hobjects : m'.objects = m.objects := SortedMap.ext_get? fun o => (hagree o).record
  have hlists : m'.projects = m.projects := by
    apply SortedMap.ext_get?
    intro project
    cases hp : m.projects.get? project with
    | none =>
      rw [← SortedMap.contains_eq_false_iff, Bool.eq_false_iff] at hp ⊢
      exact mt (hprojects project).mp hp
    | some oids =>
      obtain ⟨oids', hp'⟩ := SortedMap.contains_iff.mp
        ((hprojects project).mpr (SortedMap.contains_iff.mpr ⟨_, hp⟩))
      have hoids : oids' = oids := by
        apply SortedSet.ext_contains
        intro o
        simpa [Member, hp, hp'] using (hagree o).members project
      rw [hp', hoids]
  cases m
  cases m'
  cases hobjects
  cases hlists
  cases husers
  rfl

end

end Memory

/-! ## Calls about an object -/

namespace Op

def About (oid : Oid) : Op → Prop
  | readObject o | setObjectState o _ | addObjectProject o _ | removeObjectProject o _ | deleteObject o
  | addProjectMember _ o | removeProjectMember _ o => o = oid
  | insertObject r => r.oid = oid
  | _ => False

def Names : Op → String → Prop
  | addProjectMember name _, project => project = name
  | _, _ => False

end Op

namespace Memory

variable {oid : Oid} {m m' : Memory} {op : Op}

theorem answer_of_agree (h : Agree oid m m') (hop : op.About oid) : (m'.respond op).1 = (m.respond op).1 := by
  cases op with
  | readObject o =>
    cases hop
    exact h.record
  | insertObject r =>
    cases hop
    simp only [respond, h.contains]
    split <;> rfl
  | setObjectState o state =>
    cases hop
    simp only [respond, fst_updateObject, h.contains]
  | addObjectProject o project =>
    cases hop
    simp only [respond, fst_updateObject, h.contains]
  | removeObjectProject o project =>
    cases hop
    simp only [respond, h.record]
    split <;> rfl
  | deleteObject o =>
    cases hop
    exact h.contains
  | addProjectMember project o => rfl
  | removeProjectMember project o =>
    cases hop
    rw [Bool.eq_iff_iff, respond_removeProjectMember_iff, respond_removeProjectMember_iff]
    exact h.members project
  | _ => cases hop

theorem Agree.respond (h : Agree oid m m') (hop : op.About oid) :
    Agree oid (m.respond op).2 (m'.respond op).2 where
  record := by
    cases op with
    | insertObject r =>
      cases hop
      rw [objects_insertObject, objects_insertObject, h.contains, h.record]
    | setObjectState o state =>
      show (m'.updateObject o _).2.objects.get? oid = (m.updateObject o _).2.objects.get? oid
      rw [objects_updateObject, objects_updateObject, h.record]
    | addObjectProject o project =>
      show (m'.updateObject o _).2.objects.get? oid = (m.updateObject o _).2.objects.get? oid
      rw [objects_updateObject, objects_updateObject, h.record]
    | removeObjectProject o project =>
      rw [objects_removeObjectProject, objects_removeObjectProject, h.record]
    | deleteObject o =>
      cases hop
      rw [objects_deleteObject, objects_deleteObject]
    | _ =>
      rw [objects_respond_of_other, objects_respond_of_other, h.record] <;> simp
  members project := by
    rw [member_respond, member_respond, h.members]

def listing (m : Memory) (oid : Oid) : List String :=
  ((m.respond .listProjects).1.filter (·.contains oid)).map (·.name)

theorem mem_listing {project : String} : project ∈ m.listing oid ↔ m.Member project oid := by
  simp only [listing, respond, List.mem_map, List.mem_filter]
  constructor
  · rintro ⟨_, ⟨⟨e, he, rfl⟩, hc⟩, rfl⟩
    exact ⟨e.2, SortedMap.get?_eq_some_iff.mpr he, hc⟩
  · rintro ⟨oids, ho, hc⟩
    exact ⟨⟨project, oids⟩, ⟨⟨(project, oids), SortedMap.get?_eq_some_iff.mp ho, rfl⟩, hc⟩, rfl⟩

theorem listing_ascending (m : Memory) (oid : Oid) : (m.listing oid).Pairwise fun a b => compare a b = .lt := by
  refine List.pairwise_map.mpr (List.Pairwise.filter _ ?_)
  exact List.pairwise_map.mpr m.projects.ascending

theorem listing_of_agree (h : Agree oid m m') : m'.listing oid = m.listing oid := by
  have hirrefl : ∀ {l : List String}, l.Pairwise (fun a b => compare a b = .lt) → l.Nodup := by
    intro l hl
    refine hl.imp fun {a b} hab hsame => ?_
    subst hsame
    exact not_compare_lt_self _ hab
  have hperm : (m'.listing oid).Perm (m.listing oid) := by
    refine (List.perm_ext_iff_of_nodup (hirrefl (listing_ascending m' oid)) (hirrefl (listing_ascending m oid))).mpr ?_
    intro project
    rw [mem_listing, mem_listing, h.members]
  refine hperm.eq_of_pairwise (fun a b _ _ hab hba => ?_) (listing_ascending m' oid) (listing_ascending m oid)
  exact absurd (Std.TransCmp.lt_trans hab hba) (not_compare_lt_self _)

theorem differ_respond (m : Memory) (hop : op.About oid) : Differ oid op.Names m (m.respond op).2 where
  records o ho := by
    cases op with
    | insertObject r =>
      cases hop
      rw [objects_insertObject, if_neg (fun h => ho h.2)]
    | setObjectState p state =>
      cases hop
      exact (objects_updateObject _ _).trans (if_neg ho)
    | addObjectProject p project =>
      cases hop
      exact (objects_updateObject _ _).trans (if_neg ho)
    | removeObjectProject p project =>
      cases hop
      rw [objects_removeObjectProject, if_neg ho]
    | deleteObject p =>
      cases hop
      show (m.objects.erase _).get? o = _
      rw [SortedMap.get?_erase, if_neg ho]
    | _ => rw [objects_respond_of_other] <;> simp
  members project o ho := by
    rw [member_respond]
    cases op with
    | addProjectMember p o' =>
      cases hop
      simp [ho]
    | removeProjectMember p o' =>
      cases hop
      simp [ho]
    | _ => rfl
  projects project := by
    rw [SortedMap.contains_iff, SortedMap.contains_iff, projects_respond]
    cases op with
    | addProjectMember p o =>
      show _ ↔ _ ∨ project = p
      by_cases hp : project = p
      · simp [hp]
      · simp [hp]
    | removeProjectMember p o =>
      show _ ↔ _ ∨ False
      by_cases hp : project = p
      · simp [hp]
      · simp [hp]
    | createProject p => cases hop
    | _ => exact (or_false _).symm ▸ Iff.rfl
  users := by
    cases op with
    | insertObject r => simp only [respond]; split <;> rfl
    | setObjectState o state => exact users_updateObject _ _ _
    | addObjectProject o project => exact users_updateObject _ _ _
    | removeObjectProject o project => simp only [respond]; split <;> rfl
    | removeProjectMember p o => simp only [respond]; split <;> rfl
    | insertUser user => cases hop
    | deleteUser user => cases hop
    | createProject p => cases hop
    | _ => rfl

end Memory

/-! ## Programs about an object -/

section
variable {oid : Oid} {α β ε : Type}

/-- The result and what becomes of the object follow from what is told of it, and nothing else is changed. -/
def Local (oid : Oid) (p : Prog interface α) : Prop :=
  ∀ m m' : Memory, m.Keyed → m'.Keyed → m.Agree oid m' →
    (p.run Memory.handle m').1 = (p.run Memory.handle m).1 ∧
    (p.run Memory.handle m).2.Agree oid (p.run Memory.handle m').2 ∧
    ∃ named, m.Differ oid named (p.run Memory.handle m).2 ∧ m'.Differ oid named (p.run Memory.handle m').2

theorem keyed_run (p : Prog interface α) {m : Memory} (hk : m.Keyed) : (p.run Memory.handle m).2.Keyed :=
  (calls_any p).run_keeps Memory.Keyed (fun op _ _ hk => Memory.keyed_respond hk op) hk

theorem local_done (oid : Oid) (a : α) : Local oid (.done a) :=
  fun m m' _ _ h => ⟨rfl, h, _, .refl oid m, .refl oid m'⟩

theorem local_perform {op : Op} (hop : op.About oid) : Local oid (perform (I := interface) op) :=
  fun m m' _ _ h => ⟨congrArg Except.ok (Memory.answer_of_agree h hop), h.respond hop, _,
    Memory.differ_respond m hop, Memory.differ_respond m' hop⟩

theorem local_bind {p : Prog interface α} {k : α → Prog interface β} (hp : Local oid p)
    (hk : ∀ m : Memory, m.Keyed → Local oid (k (p.run Memory.handle m).1)) : Local oid (p.bind k) := by
  intro m m' hm hm' h
  obtain ⟨hresult, hagree, named, hdiffer, hdiffer'⟩ := hp m m' hm hm' h
  obtain ⟨hresult₂, hagree₂, named₂, hdiffer₂, hdiffer₂'⟩ := hk m hm _ _ (keyed_run p hm) (keyed_run p hm') hagree
  rw [run_bind, run_bind, hresult]
  exact ⟨hresult₂, hagree₂, _, hdiffer.trans hdiffer₂, hdiffer'.trans hdiffer₂'⟩

/-- What comes next need only be local after what may have been the result. -/
theorem local_run_bind {p : ExceptT ε (Prog interface) α} {k : α → ExceptT ε (Prog interface) β}
    (hp : Local oid p.run)
    (hk : ∀ (m : Memory) a, m.Keyed → (p.run.run Memory.handle m).1 = .ok a → Local oid (k a).run) :
    Local oid (p >>= k).run := by
  rw [ExceptT.run_bind]
  refine local_bind hp fun m hm => ?_
  cases hx : (p.run.run Memory.handle m).1 with
  | ok a => exact hk m a hm hx
  | error e => exact local_done oid _

theorem local_run_forM {ι : Type} {g : ι → ExceptT ε (Prog interface) PUnit} (hg : ∀ i, Local oid (g i).run) :
    ∀ l : List ι, Local oid (l.forM g).run
  | [] => local_done oid _
  | i :: l => local_run_bind (k := fun _ => l.forM g) (hg i) fun _ _ _ _ => local_run_forM hg l

theorem local_ask {op : Op} (hop : op.About oid) : Local oid (ask op).run :=
  local_perform hop

/-- Programs about two objects may be run in either order. -/
theorem Local.commute {p : Prog interface α} {q : Prog interface β} {o o' : Oid} (hp : Local o p) (hq : Local o' q)
    (hne : o ≠ o') {m : Memory} (hk : m.Keyed) :
    (p.run Memory.handle (q.run Memory.handle m).2).1 = (p.run Memory.handle m).1 ∧
    (q.run Memory.handle (p.run Memory.handle m).2).1 = (q.run Memory.handle m).1 ∧
    (p.run Memory.handle (q.run Memory.handle m).2).2 = (q.run Memory.handle (p.run Memory.handle m).2).2 := by
  obtain ⟨-, -, named, hpm, -⟩ := hp m m hk hk (.refl o m)
  obtain ⟨hqresult, hqagree, named', hqm, hqp⟩ := hq m _ hk (keyed_run p hk) (hpm.agree hne.symm)
  obtain ⟨hpresult, hpagree, named, hpm, hpq⟩ := hp m _ hk (keyed_run q hk) (hqm.agree hne)
  refine ⟨hpresult, hqresult, Memory.eq_of_agree (fun x => ?_) (fun project => ?_) ?_⟩
  · by_cases ho : x = o
    · subst ho
      exact (hqp.agree hne).symm.trans hpagree
    · by_cases ho' : x = o'
      · subst ho'
        exact hqagree.symm.trans (hpq.agree ho)
      · exact ((hpm.agree ho).trans (hqp.agree ho')).symm.trans ((hqm.agree ho').trans (hpq.agree ho))
  · rw [hpq.projects, hqp.projects, hqm.projects, hpm.projects, or_right_comm]
  · rw [hpq.users, hqp.users, hqm.users, hpm.users]

end

end Catalog

/-! ## Operations of the ledger -/

namespace Ledger

open Catalog (Local local_done local_ask local_run_bind local_run_forM)

variable {oid : Oid}

theorem local_addObject (oid : Oid) (project : String) : Local oid (Projects.addObject oid project).run := by
  unfold Projects.addObject
  split
  · exact local_done oid _
  · exact local_ask rfl

theorem local_join {record : ObjectRecord} (ho : record.oid = oid) (project : String) :
    Local oid (join record project).run := by
  subst ho
  unfold join
  split
  · refine local_run_bind (local_addObject _ _) fun _ _ _ _ => ?_
    exact local_run_bind (local_ask rfl) fun _ _ _ _ => local_done _ _
  · exact local_done _ _

/-- A record that is read is one of the object. -/
theorem local_read_bind {β : Type} {k : Option ObjectRecord → CatalogM β} (hnone : Local oid (k none).run)
    (hsome : ∀ r, r.oid = oid → Local oid (k (some r)).run) :
    Local oid (Catalog.ask (.readObject oid) >>= k).run := by
  refine local_run_bind (local_ask rfl) fun m x hk hx => ?_
  have hread : m.objects.get? oid = x := Except.ok.inj hx
  cases x with
  | none => exact hnone
  | some r => exact hsome r (hk oid r hread).1

theorem local_put (oid : Oid) (size : Int) (project : String) : Local oid (put oid size project).run := by
  unfold put
  split
  · exact local_done oid _
  · refine local_read_bind ?_ fun r hr => local_join hr project
    refine local_run_bind (local_addObject _ _) fun _ _ _ _ => ?_
    refine local_run_bind (local_ask rfl) fun _ inserted _ _ => ?_
    split
    · exact local_done oid _
    · exact local_read_bind (local_done oid _) fun r hr => local_join hr project

theorem local_require_bind {β : Type} {k : ObjectRecord → CatalogM β} (hk : ∀ r, Local oid (k r).run) :
    Local oid (require oid >>= k).run := by
  unfold require
  rw [bind_assoc]
  exact local_read_bind (local_done oid _) fun r _ => hk r

theorem local_commit (oid : Oid) : Local oid (commit oid).run := by
  refine local_require_bind fun r => ?_
  split
  · exact local_done oid _
  · refine local_run_bind (local_run_forM (local_addObject oid) _) fun _ _ _ _ => ?_
    refine local_run_bind (local_ask rfl) fun _ found _ _ => ?_
    split <;> exact local_done oid _

theorem local_get (oid : Oid) : Local oid (get oid).run := by
  refine local_require_bind fun r => ?_
  split <;> exact local_done oid _

theorem local_getPending (oid : Oid) : Local oid (getPending oid).run :=
  local_require_bind fun _ => local_done oid _

theorem local_referencing (oid : Oid) : Local oid (Projects.referencing oid).run := by
  intro m m' _ _ h
  have hrun : ∀ m : Memory, (Projects.referencing oid).run.run Memory.handle m = (.ok (m.listing oid), m) :=
    fun _ => rfl
  rw [hrun, hrun, Memory.listing_of_agree h]
  exact ⟨rfl, h, _, .refl oid m, .refl oid m'⟩

theorem local_conclude (oid : Oid) (project : String) (wasMember hadReference : Bool)
    (found : Option ObjectRecord) : Local oid (conclude oid project wasMember hadReference found).run := by
  unfold conclude
  cases found with
  | none =>
    dsimp only
    split <;> exact local_done oid _
  | some r =>
    dsimp only
    split
    · exact local_done oid _
    · split
      · exact local_done oid _
      · refine local_run_bind (local_referencing oid) fun _ l _ _ => ?_
        split
        · exact local_done oid _
        · exact local_ask rfl

theorem local_removeFromProject (oid : Oid) (project : String) : Local oid (removeFromProject oid project).run := by
  rw [removeFromProject_eq]
  refine local_run_bind (local_ask rfl) fun _ wasMember _ _ => ?_
  refine local_run_bind (local_ask rfl) fun _ hadReference _ _ => ?_
  exact local_run_bind (local_ask rfl) fun _ found _ _ => local_conclude oid project wasMember hadReference found

end Ledger

/-! ## On catalogs -/

namespace Catalog

structure Database.SameRows (db db' : Database) : Prop where
  objects : ∀ row, row ∈ db'.objects ↔ row ∈ db.objects
  objectRefs : ∀ row, row ∈ db'.objectRefs ↔ row ∈ db.objectRefs
  projects : ∀ row, row ∈ db'.projects ↔ row ∈ db.projects
  projectObjects : ∀ row, row ∈ db'.projectObjects ↔ row ∈ db.projectObjects
  users : ∀ row, row ∈ db'.users ↔ row ∈ db.users
  triggers : db'.triggers = db.triggers

theorem Database.SameRows.refl (db : Database) : db.SameRows db :=
  ⟨fun _ => .rfl, fun _ => .rfl, fun _ => .rfl, fun _ => .rfl, fun _ => .rfl, rfl⟩

theorem Database.Holds.sameRows {db db' : Database} {m : Memory} (h : db.Holds m) (h' : db'.Holds m) :
    db.SameRows db' where
  objects row := (h'.objects row).trans (h.objects row).symm
  objectRefs row := (h'.objectRefs row).trans (h.objectRefs row).symm
  projects name := (h'.projects name).trans (h.projects name).symm
  projectObjects row := (h'.projectObjects row).trans (h.projectObjects row).symm
  users row := (h'.users row).trans (h.users row).symm
  triggers := h'.untriggered.trans h.untriggered.symm

namespace Backing

variable {b b' : Backing} {m : Memory} {α : Type}

inductive Alike : Backing → Backing → Prop
  | memory (m : Memory) : Alike (.memory m) (.memory m)
  | relational {db db' : Database} (isOpen : Bool) : db.SameRows db' →
      Alike (.relational ⟨db, isOpen⟩) (.relational ⟨db', isOpen⟩)

theorem Alike.refl : ∀ b, Alike b b
  | .memory m => .memory m
  | .relational ⟨db, isOpen⟩ => .relational isOpen (.refl db)

theorem alike_of_holds (h : b.Holds m) (h' : b'.Holds m) (hname : b.name = b'.name) : Alike b b' := by
  cases h with
  | memory _ =>
    cases h' with
    | memory _ => exact .memory m
    | relational _ _ => simp [name] at hname
  | relational _ hdb =>
    cases h' with
    | memory _ => simp [name] at hname
    | relational _ hdb' => exact .relational true (hdb.sameRows hdb')

theorem name_run (p : Prog interface α) (b : Backing) : (p.run Backing.handle b).2.name = b.name := by
  refine (calls_any p).run_keeps (fun b' : Backing => b'.name = b.name) (fun op b' _ h => ?_) rfl
  rw [← h]
  cases b' <;> rfl

/-- The catalogs that calls lead to, from an empty one in memory or in tables on. It may have been closed. -/
inductive Reachable : Backing → Prop
  | memory : Reachable (.memory .empty)
  | relational : Reachable (.relational .empty)
  | call {b : Backing} (op : Op) : Reachable b → Reachable (Backing.handle op b).2

theorem handle_closed (op : Op) (db : Database) :
    (Backing.handle op (.relational ⟨db, false⟩)).2 = .relational ⟨db, false⟩ := by
  cases op <;> rfl

theorem run_closed (p : Prog interface α) (db : Database) :
    (p.run Backing.handle (.relational ⟨db, false⟩)).2 = .relational ⟨db, false⟩ := by
  refine (calls_any p).run_keeps (fun b : Backing => b = .relational ⟨db, false⟩) (fun op b _ h => ?_) rfl
  rw [h, handle_closed]

theorem Reachable.holds_or_closed (h : Reachable b) :
    (∃ m, b.Holds m) ∨ ∃ db, b = .relational ⟨db, false⟩ := by
  induction h with
  | memory => exact .inl ⟨_, .memory Memory.keyed_empty⟩
  | relational => exact .inl ⟨_, .relational Memory.keyed_empty Database.holds_empty⟩
  | call op _ ih =>
    obtain ⟨m, hm⟩ | ⟨db, rfl⟩ := ih
    · by_cases hop : op = .close
      · subst hop
        cases hm with
        | memory hk => exact .inl ⟨m, .memory hk⟩
        | relational _ _ => exact .inr ⟨_, rfl⟩
      · exact .inl ⟨_, (handle_holds hm hop).2⟩
    · exact .inr ⟨db, handle_closed op db⟩

def Lists (b : Backing) (project : String) (oid : Oid) : Prop :=
  ∃ x, Ledger.Founded b project x ∧ x.contains oid = true

end Backing

end Catalog

namespace Ledger

open Catalog (Local)

inductive Action where
  | put (size : Int) (project : String)
  | commit
  | get
  | getPending
  | remove (project : String)
  deriving DecidableEq

namespace Action

@[reducible] def Answer : Action → Type
  | remove _ => Bool
  | _ => ObjectRecord

def program (oid : Oid) : (x : Action) → CatalogM x.Answer
  | put size project => Ledger.put oid size project
  | commit => Ledger.commit oid
  | get => Ledger.get oid
  | getPending => Ledger.getPending oid
  | remove project => removeFromProject oid project

def run (x : Action) (oid : Oid) (b : Backing) : Except CatalogError x.Answer × Backing :=
  (x.program oid).run.run Backing.handle b

end Action

theorem local_program (oid : Oid) : ∀ x : Action, Local oid (x.program oid).run
  | .put size project => local_put oid size project
  | .commit => local_commit oid
  | .get => local_get oid
  | .getPending => local_getPending oid
  | .remove project => local_removeFromProject oid project

theorem calls_program (oid : Oid) (x : Action) : (x.program oid).run.Calls fun op : Op => op ≠ .close := by
  cases x with
  | put size project => exact calls_put (by simp) (by simp) (by simp) (by simp)
  | commit => exact calls_commit (by simp) (by simp) (by simp)
  | get => exact calls_get (by simp)
  | getPending => exact calls_run_bind (calls_require (by simp)) fun _ => calls_done _
  | remove project => exact calls_removeFromProject (by simp) (by simp) (by simp) (by simp) (by simp)

theorem Action.run_holds {b : Backing} {m : Memory} (hb : b.Holds m) (x : Action) (oid : Oid) :
    (x.run oid b).1 = ((x.program oid).run.run Memory.handle m).1 ∧
      (x.run oid b).2.Holds ((x.program oid).run.run Memory.handle m).2 :=
  (Backing.run_holds (calls_program oid x) hb).2

theorem Action.run_closed (x : Action) (oid : Oid) (db : Catalog.Database) :
    (x.run oid (.relational ⟨db, false⟩)).2 = .relational ⟨db, false⟩ :=
  Backing.run_closed _ db

theorem Action.name_run (x : Action) (oid : Oid) (b : Backing) : (x.run oid b).2.name = b.name :=
  Backing.name_run _ b

/-- Operations on two objects answer the same and leave the same in either order, and one on an object does not touch
the record of another or the projects that list it. -/
theorem done_in_either_order {b : Backing} (hb : b.Reachable) {o o' : Oid} (hne : o ≠ o') (x y : Action) :
    (x.run o (y.run o' b).2).1 = (x.run o b).1 ∧
    (y.run o' (x.run o b).2).1 = (y.run o' b).1 ∧
    (x.run o (y.run o' b).2).2.Alike (y.run o' (x.run o b).2).2 ∧
    (Backing.handle (.readObject o') (x.run o b).2).1 = (Backing.handle (.readObject o') b).1 ∧
    ∀ project, (x.run o b).2.Lists project o' ↔ b.Lists project o' := by
  obtain ⟨m, hm⟩ | ⟨db, rfl⟩ := hb.holds_or_closed
  · obtain ⟨hx, hmx⟩ := x.run_holds hm o
    obtain ⟨hy, hmy⟩ := y.run_holds hm o'
    obtain ⟨hyx, hmyx⟩ := x.run_holds hmy o
    obtain ⟨hxy, hmxy⟩ := y.run_holds hmx o'
    obtain ⟨hsame, hsame', hstate⟩ := (local_program o x).commute (local_program o' y) hne hm.keyed
    obtain ⟨-, -, named, hdiffer, -⟩ := local_program o x m m hm.keyed hm.keyed (.refl o m)
    have hagree := hdiffer.agree hne.symm
    refine ⟨?_, ?_, Backing.alike_of_holds hmyx (hstate ▸ hmxy) ?_, ?_, fun project => ?_⟩
    · rw [hyx, hx, hsame]
    · rw [hxy, hy, hsame']
    · rw [Action.name_run, Action.name_run, Action.name_run, Action.name_run]
    · rw [(Backing.handle_holds hmx (by simp)).1, (Backing.handle_holds hm (by simp)).1]
      exact congrArg Except.ok hagree.record
    · exact (member_iff hmx).symm.trans ((hagree.members project).trans (member_iff hm))
  · rw [Action.run_closed, Action.run_closed, Action.run_closed]
    exact ⟨rfl, rfl, .refl _, rfl, fun _ => .rfl⟩

namespace Sample

def leaving : Oid :=
  default

def joining : Oid :=
  Oid.ofContent .empty

def occupied : Backing :=
  (Backing.handle (.insertObject (.pending leaving 3 "p"))
    (Backing.handle (.addProjectMember "p" leaving) (.relational .empty)).2).2

end Sample

open Sample in
/-- An object leaves its project and is deleted while another comes into the project. -/
theorem done_in_either_order_within_project :
    occupied.Reachable ∧ leaving ≠ joining ∧
    ((Action.remove "p").run leaving ((Action.put 5 "p").run joining occupied).2).1 = .ok true ∧
    ((Action.put 5 "p").run joining ((Action.remove "p").run leaving occupied).2).1 = .ok (.pending joining 5 "p") ∧
    ((Action.remove "p").run leaving ((Action.put 5 "p").run joining occupied).2).2.Alike
      ((Action.put 5 "p").run joining ((Action.remove "p").run leaving occupied).2).2 := by
  have hreached : occupied.Reachable := (Backing.Reachable.relational.call _).call _
  have hne : leaving ≠ joining := by decide +kernel
  obtain ⟨hleaving, hjoining, halike, -⟩ := done_in_either_order hreached hne (.remove "p") (.put 5 "p")
  refine ⟨hreached, hne, ?_, ?_, halike⟩
  · rw [hleaving]
    decide +kernel
  · rw [hjoining]
    decide +kernel

end Ledger

end BlobDepot
