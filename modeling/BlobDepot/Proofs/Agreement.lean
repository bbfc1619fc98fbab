import BlobDepot.Proofs.Interchange
import BlobDepot.Proofs.Removals

/-!
# Records and projects agree

When operations of the service come one after another, a project lists an object exactly when the record of the
object refers to the project: `agreement_after`. What a removal does in case they disagree is never needed.
-/

namespace BlobDepot

open Catalog (Backing Memory Op)
open Prog

/-! ## Operations of the service -/

namespace Service

inductive Call where
  | put (r : ObjectRequest)
  | commit (r : ObjectRequest)
  | get (r : ObjectRequest)
  | getPending (r : ObjectRequest)
  | remove (oid : Oid) (project : String)
  | addProject (name : String)
  deriving DecidableEq

variable (s : Service)

def Call.program : Call → Prog Catalog.interface Unit
  | put r => (fun _ => ()) <$> (s.put r).run
  | commit r => (fun _ => ()) <$> (s.commit r).run
  | get r => (fun _ => ()) <$> (s.get r).run
  | getPending r => (fun _ => ()) <$> (s.getPending r).run
  | remove oid project => (fun _ => ()) <$> (Ledger.removeFromProject oid project).run
  | addProject name => (fun _ => ()) <$> (Projects.create name).run

def session : List Call → Prog Catalog.interface Unit
  | [] => .done ()
  | c :: l => (c.program s).bind fun _ => session l

def after (l : List Call) (b : Backing) : Backing :=
  ((s.session l).run Backing.handle b).2

theorem session_append (l l' : List Call) :
    s.session (l ++ l') = (s.session l).bind fun _ => s.session l' := by
  induction l with
  | nil => rfl
  | cons c l ih =>
    show (c.program s).bind (fun _ => s.session (l ++ l')) = _
    rw [ih]
    exact (bind_assoc _ _ _).symm

theorem after_append (l l' : List Call) (b : Backing) : s.after (l ++ l') b = s.after l' (s.after l b) := by
  unfold after
  rw [session_append, run_bind]

theorem calls_program (c : Call) : (c.program s).Calls fun op : Op => op ≠ .close := by
  cases c with
  | put r =>
    refine calls_map (calls_run_bind (calls_admission (by simp) r) fun oid => ?_)
    exact calls_put (by simp) (by simp) (by simp) (by simp)
  | commit r =>
    refine calls_map (calls_run_bind (calls_admission (by simp) r) fun oid => ?_)
    exact calls_commit (by simp) (by simp) (by simp)
  | get r => exact calls_map (calls_serviceGet (by simp) (by simp) r)
  | getPending r => exact calls_map (calls_serviceGetPending (by simp) (by simp) r)
  | remove oid project =>
    exact calls_map (calls_removeFromProject (by simp) (by simp) (by simp) (by simp) (by simp))
  | addProject name => exact calls_map (calls_create (by simp))

theorem calls_session : ∀ l : List Call, (s.session l).Calls fun op : Op => op ≠ .close
  | [] => calls_done ()
  | c :: l => calls_bind (fun _ => calls_session l) (calls_program s c)

end Service

/-! ## Memories -/

namespace Catalog.Memory

/-- Records stand under their identifiers, no project has the empty name, and no size is negative. -/
structure Tidy (m : Memory) : Prop where
  keyed : m.Keyed
  named : m.projects.contains "" = false
  sizes : ∀ oid r, m.objects.get? oid = some r → 0 ≤ r.size

/-- A project lists exactly the objects whose records refer to it. -/
def Agrees (m : Memory) : Prop :=
  ∀ project oid, m.Member project oid ↔ m.Refers oid project

def Proper : Op → Prop
  | .insertObject r => 0 ≤ r.size
  | .createProject name | .addProjectMember name _ => name ≠ ""
  | _ => True

variable {m : Memory} {oid : Oid} {project : String} {op : Op} {r : ObjectRecord}

theorem named_respond (h : m.projects.contains "" = false) (hop : Proper op) :
    (m.respond op).2.projects.contains "" = false := by
  rw [SortedMap.contains_eq_false_iff] at h ⊢
  rw [projects_respond]
  split
  · next p =>
    rw [if_neg, h]
    intro e
    exact hop e.1.symm
  · next p o =>
    rw [if_neg, h]
    intro e
    exact hop e.symm
  · next p o =>
    split
    · next e => rw [← e, h]; rfl
    · exact h
  · exact h

theorem sizes_respond (h : ∀ oid r, m.objects.get? oid = some r → 0 ≤ r.size) (hop : Proper op) :
    ∀ oid r, (m.respond op).2.objects.get? oid = some r → 0 ≤ r.size := by
  intro oid r' hr'
  cases hr : m.objects.get? oid with
  | none =>
    obtain ⟨s, rfl, -, rfl⟩ := origin hr hr'
    exact hop
  | some r =>
    by_cases hd : op = .deleteObject oid
    · rw [hd, objects_deleteObject] at hr'
      cases hr'
    · obtain ⟨r'', hr'', hs⟩ := successor op hr hd
      rw [hr'] at hr''
      cases hr''
      rw [hs.size]
      exact h oid r hr

theorem Tidy.respond (h : m.Tidy) (hop : Proper op) : (m.respond op).2.Tidy where
  keyed := keyed_respond h.keyed op
  named := named_respond h.named hop
  sizes := sizes_respond h.sizes hop

theorem Tidy.ne_empty (h : m.Tidy) (hm : m.Member project oid) : project ≠ "" := by
  intro e
  obtain ⟨oids, ho, -⟩ := hm
  rw [e, SortedMap.contains_eq_false_iff.mp h.named] at ho
  cases ho

/-! ### What leaves both sides alike -/

theorem Agrees.join (h : m.Agrees) (hr : m.objects.contains oid = true) (project : String) :
    ((m.respond (.addProjectMember project oid)).2.respond (.addObjectProject oid project)).2.Agrees := by
  intro p o
  have hr' : (m.respond (.addProjectMember project oid)).2.objects.contains oid = true := hr
  rw [member_respond, member_respond, refers_respond, refers_respond]
  simp only [h p o, hr', true_and]
  exact or_congr_right and_comm

theorem Agrees.claim (h : m.Agrees) (hr : m.objects.get? oid = none) (hs : r.oid = oid)
    (hp : ∀ p, r.projects.contains p = true ↔ p = project) :
    ((m.respond (.addProjectMember project oid)).2.respond (.insertObject r)).2.Agrees := by
  intro p o
  have hr' : (m.respond (.addProjectMember project oid)).2.objects.contains oid = false :=
    SortedMap.contains_eq_false_iff.mpr hr
  rw [member_respond, member_respond, refers_respond, refers_respond]
  simp only [h p o, hr', hs, hp, true_and]
  exact or_congr_right and_comm

theorem Agrees.insert (h : m.Agrees) (hp : ∀ p, r.projects.contains p = false) :
    (m.respond (.insertObject r)).2.Agrees := by
  intro p o
  rw [member_respond, refers_respond]
  simp [h p o, hp]

theorem Agrees.part (h : m.Agrees) (project : String) (oid : Oid) :
    ((m.respond (.removeProjectMember project oid)).2.respond (.removeObjectProject oid project)).2.Agrees := by
  intro p o
  rw [member_respond, member_respond, refers_respond, refers_respond]
  simp only [h p o]
  exact and_congr_right fun _ => not_congr and_comm

theorem Agrees.delete (h : m.Agrees) (hr : m.objects.get? oid = some r) (hp : r.projects.isEmpty = true) :
    (m.respond (.deleteObject oid)).2.Agrees := by
  intro p o
  rw [member_respond, refers_respond]
  constructor
  · intro hm
    have hrefers := (h p o).mp hm
    refine ⟨hrefers, ?_⟩
    rintro rfl
    obtain ⟨r', hr', hc⟩ := hrefers
    rw [hr] at hr'
    cases hr'
    rw [SortedMap.isEmpty_iff.mp hp p] at hc
    cases hc
  · intro hrefers
    exact (h p o).mpr hrefers.1

structure Balanced (m : Memory) : Prop extends Tidy m where
  agrees : m.Agrees

theorem balanced_empty (users : SortedMap String String) : Balanced ⟨.empty, .empty, users⟩ where
  keyed := by intro oid r h; cases h
  named := rfl
  sizes := by intro oid r h; cases h
  agrees := by
    intro project oid
    constructor
    · intro h
      obtain ⟨oids, ho, -⟩ := h
      cases ho
    · intro h
      obtain ⟨r, hr, -⟩ := h
      cases hr

end Catalog.Memory

/-! ## Runs on a memory -/

namespace Ledger

open Catalog.Memory (Balanced Proper)

variable {m : Memory} {oid : Oid} {project : String} {r : ObjectRecord}

theorem run_ask (op : Op) (m : Memory) :
    (Catalog.ask op).run.run Memory.handle m = (.ok (m.respond op).1, (m.respond op).2) := rfl

theorem run_addObject (hp : project ≠ "") (m : Memory) :
    (Projects.addObject oid project).run.run Memory.handle m =
      (.ok (), (m.respond (.addProjectMember project oid)).2) := by
  unfold Projects.addObject
  rw [if_neg hp]
  rfl

theorem run_addObject_empty (oid : Oid) (m : Memory) :
    (Projects.addObject oid "").run.run Memory.handle m = (.ok (), m) := rfl

theorem balanced_join (h : m.Balanced) (hr : m.objects.contains r.oid = true) (project : String) :
    ((join r project).run.run Memory.handle m).2.Balanced := by
  unfold join
  split
  · next hp =>
    rw [run_run_bind, run_addObject hp.1]
    dsimp only
    rw [run_run_bind, run_ask]
    have proper : Proper (.addProjectMember project r.oid) := hp.1
    exact ⟨(h.toTidy.respond proper).respond trivial, h.agrees.join hr project⟩
  · exact h

theorem run_put_new (hr : m.objects.get? oid = none) {size : Int} (hs : 0 ≤ size) (project : String) :
    (put oid size project).run.run Memory.handle m =
      (.ok (.pending oid size project), (((Projects.addObject oid project).run.run Memory.handle m).2.respond
        (.insertObject (.pending oid size project))).2) := by
  have hadd : ∃ m', (Projects.addObject oid project).run.run Memory.handle m = (.ok (), m') ∧
      m'.objects.contains oid = false := by
    have hc := SortedMap.contains_eq_false_iff.mpr hr
    by_cases hp : project = ""
    · subst hp
      exact ⟨m, rfl, hc⟩
    · exact ⟨_, run_addObject hp m, hc⟩
  obtain ⟨m', hm, hc⟩ := hadd
  have hinsert : (m'.respond (.insertObject (.pending oid size project))).1 = true := by
    have hc : m'.objects.contains (ObjectRecord.pending oid size project).oid = false := hc
    simp only [Memory.respond, hc]
    rfl
  unfold put
  rw [if_neg (by omega), run_run_bind, run_ask]
  simp only [Memory.respond, hr]
  rw [run_run_bind, hm]
  dsimp only
  rw [run_run_bind, run_ask, hinsert]
  rfl

theorem balanced_put (h : m.Balanced) (oid : Oid) (size : Int) (project : String) :
    ((put oid size project).run.run Memory.handle m).2.Balanced := by
  by_cases hs : size < 0
  · unfold put
    rw [if_pos hs]
    exact h
  · have hs : 0 ≤ size := Int.not_lt.mp hs
    cases hr : m.objects.get? oid with
    | some r =>
      have ho := (h.keyed oid r hr).1
      unfold put
      rw [if_neg (by omega), run_run_bind, run_ask]
      simp only [Memory.respond, hr]
      exact balanced_join h (SortedMap.contains_iff.mpr ⟨r, ho ▸ hr⟩) project
    | none =>
      rw [run_put_new hr hs]
      by_cases hp : project = ""
      · subst hp
        rw [run_addObject_empty]
        exact ⟨h.toTidy.respond hs, h.agrees.insert fun p => rfl⟩
      · rw [run_addObject hp]
        have proper : Proper (.addProjectMember project oid) := hp
        refine ⟨(h.toTidy.respond proper).respond hs, h.agrees.claim hr rfl fun p => ?_⟩
        rw [Memory.contains_pending]
        exact and_iff_right hp

theorem run_addObjects : ∀ {l : List String}, (∀ p ∈ l, p ≠ "" ∧ m.Member p oid) →
    (l.forM (Projects.addObject oid)).run.run Memory.handle m = (.ok (), m)
  | [], _ => rfl
  | p :: l, hl => by
    have ⟨hp, hm⟩ := hl p List.mem_cons_self
    show (Projects.addObject oid p >>= fun _ => l.forM (Projects.addObject oid)).run.run Memory.handle m = _
    rw [run_run_bind, run_addObject hp, Memory.respond_addProjectMember hm]
    exact run_addObjects fun q hq => hl q (List.mem_cons_of_mem _ hq)

theorem run_require (oid : Oid) (m : Memory) : (require oid).run.run Memory.handle m =
    match m.objects.get? oid with
    | some r => (.ok r, m)
    | none => (.error (.objectNotFound oid.hex), m) := by
  unfold require
  rw [run_run_bind, run_ask]
  simp only [Memory.respond]
  cases m.objects.get? oid <;> rfl

theorem run_commit (h : m.Balanced) (hr : m.objects.get? oid = some r) :
    (commit oid).run.run Memory.handle m = if r.isCommitted then (.ok r.asExisting, m)
      else (.ok { r with state := .committed, existing := true },
        (m.respond (.setObjectState oid .committed)).2) := by
  unfold commit
  rw [run_run_bind, run_require, hr]
  dsimp only
  split
  · rfl
  · have listed : ∀ p ∈ r.projects.keys, p ≠ "" ∧ m.Member p oid := by
      intro p hp
      have hm : m.Member p oid := (h.agrees p oid).mpr ⟨r, hr, SortedMap.mem_keys_iff.mp hp⟩
      exact ⟨h.ne_empty hm, hm⟩
    have hset : (m.respond (.setObjectState oid .committed)).1 = true := by
      simp only [Memory.respond, Memory.updateObject, hr]
    rw [run_run_bind, run_addObjects listed]
    dsimp only
    rw [run_run_bind, run_ask, hset]
    rfl

theorem balanced_commit (h : m.Balanced) (oid : Oid) :
    ((commit oid).run.run Memory.handle m).2.Balanced := by
  cases hr : m.objects.get? oid with
  | none =>
    unfold commit
    rw [run_run_bind, run_require, hr]
    exact h
  | some r =>
    rw [run_commit h hr]
    split
    · exact h
    · refine ⟨h.toTidy.respond trivial, fun p o => ?_⟩
      rw [Memory.member_respond, Memory.refers_respond]
      exact h.agrees p o

theorem balanced_create (h : m.Balanced) (name : String) :
    ((Projects.create name).run.run Memory.handle m).2.Balanced := by
  unfold Projects.create
  by_cases hn : name = ""
  · rw [if_pos hn]
    exact h
  · rw [if_neg hn]
    have proper : Proper (.createProject name) := hn
    refine ⟨h.toTidy.respond proper, fun p o => ?_⟩
    show (m.respond (.createProject name)).2.Member p o ↔ (m.respond (.createProject name)).2.Refers o p
    rw [Memory.member_respond, Memory.refers_respond]
    exact h.agrees p o

/-! ## Removals -/

def parted (m : Memory) (oid : Oid) (project : String) : Memory :=
  ((m.respond (.removeProjectMember project oid)).2.respond (.removeObjectProject oid project)).2

def wasPart (m : Memory) (oid : Oid) (project : String) : Bool × Bool :=
  let left := m.respond (.removeProjectMember project oid)
  (left.1, (left.2.respond (.removeObjectProject oid project)).1)

theorem run_removeFromProject (oid : Oid) (project : String) (m : Memory) :
    (removeFromProject oid project).run.run Memory.handle m =
      (conclude oid project (wasPart m oid project).1 (wasPart m oid project).2
        ((parted m oid project).objects.get? oid)).run.run Memory.handle (parted m oid project) := by
  rw [removeFromProject_eq]
  rfl

theorem trace_removeFromProject (oid : Oid) (project : String) (m : Memory) :
    (removeFromProject oid project).run.trace Memory.handle m =
      [⟨.removeProjectMember project oid, Except.ok (wasPart m oid project).1⟩,
        ⟨.removeObjectProject oid project, Except.ok (wasPart m oid project).2⟩,
        ⟨.readObject oid, Except.ok ((parted m oid project).objects.get? oid)⟩] ++
      (conclude oid project (wasPart m oid project).1 (wasPart m oid project).2
        ((parted m oid project).objects.get? oid)).run.trace Memory.handle (parted m oid project) := by
  rw [removeFromProject_eq]
  rfl

theorem run_referencing (oid : Oid) (m : Memory) : (Projects.referencing oid).run.run Memory.handle m =
    (.ok (((m.respond .listProjects).1.filter (·.contains oid)).map (·.name)), m) := rfl

theorem trace_referencing (oid : Oid) (m : Memory) : (Projects.referencing oid).run.trace Memory.handle m =
    [⟨.listProjects, Except.ok (m.respond .listProjects).1⟩] := rfl

theorem balanced_parted (h : m.Balanced) (oid : Oid) (project : String) : (parted m oid project).Balanced where
  toTidy := by
    have first : Proper (.removeProjectMember project oid) := trivial
    have second : Proper (.removeObjectProject oid project) := trivial
    exact (h.toTidy.respond first).respond second
  agrees := h.agrees.part project oid

/-- A removal either deletes the record, to which no reference is left, or it has only taken the object out of the
project. -/
theorem removed_or_parted (oid : Oid) (project : String) (m : Memory) :
    ((removeFromProject oid project).run.run Memory.handle m =
      (.ok true, ((parted m oid project).respond (.deleteObject oid)).2) ∧
      ∃ r, (parted m oid project).objects.get? oid = some r ∧ r.projects.isEmpty = true) ∨
    (((removeFromProject oid project).run.run Memory.handle m).1 ≠ .ok true ∧
      ((removeFromProject oid project).run.run Memory.handle m).2 = parted m oid project) := by
  rw [run_removeFromProject]
  cases hr : (parted m oid project).objects.get? oid with
  | none =>
    unfold conclude
    dsimp only
    split <;> exact .inr ⟨(fun e => by cases e), rfl⟩
  | some r =>
    unfold conclude
    dsimp only
    split
    · exact .inr ⟨(fun e => by cases e), rfl⟩
    · split
      · exact .inr ⟨(fun e => by cases e), rfl⟩
      · next hempty =>
        rw [run_run_bind, run_referencing]
        dsimp only
        split
        · exact .inr ⟨(fun e => by cases e), rfl⟩
        · have hcontains := SortedMap.contains_iff.mpr ⟨r, hr⟩
          refine .inl ⟨?_, r, rfl, by simpa using hempty⟩
          rw [run_ask]
          simp only [Memory.respond, hcontains]

theorem balanced_remove (h : m.Balanced) (oid : Oid) (project : String) :
    ((removeFromProject oid project).run.run Memory.handle m).2.Balanced := by
  have hparted := balanced_parted h oid project
  rcases removed_or_parted oid project m with ⟨hrun, r, hr, hempty⟩ | ⟨-, hrun⟩
  · have proper : Proper (.deleteObject oid) := trivial
    rw [hrun]
    exact ⟨hparted.toTidy.respond proper, hparted.agrees.delete hr hempty⟩
  · rw [hrun]
    exact hparted

theorem trace_conclude {wasMember hadReference : Bool} {found : Option ObjectRecord} {l : List ProjectRecord}
    (h : ⟨.listProjects, Except.ok l⟩ ∈
      (conclude oid project wasMember hadReference found).run.trace Memory.handle m) :
    l = (m.respond .listProjects).1 := by
  unfold conclude at h
  cases found with
  | none =>
    dsimp only at h
    split at h <;> cases h
  | some r =>
    dsimp only at h
    split at h
    · cases h
    · split at h
      · cases h
      · rw [trace_run_bind, trace_referencing, run_referencing] at h
        rcases List.mem_append.mp h with h | h
        · rw [List.mem_singleton] at h
          cases h
          rfl
        · dsimp only at h
          split at h
          · cases h
          · rcases List.mem_singleton.mp h

theorem not_mem_trace_conclude {wasMember hadReference : Bool} {found : Option ObjectRecord} {op : Op}
    {x : Catalog.interface.Answer op} (hl : op ≠ .listProjects) (hd : op ≠ .deleteObject oid) :
    ⟨op, x⟩ ∉ (conclude oid project wasMember hadReference found).run.trace Memory.handle m := by
  intro h
  have hcalls : (conclude oid project wasMember hadReference found).run.Calls
      fun op : Op => op = .listProjects ∨ op = .deleteObject oid :=
    calls_conclude (.inl rfl) (.inr rfl)
  rcases hcalls.of_mem_trace h with h | h
  · exact hl h
  · exact hd h

section
variable {x : Except CatalogError (Option ObjectRecord)} {y : Except CatalogError Bool} {l : List ProjectRecord}

theorem trace_remove_read
    (h : ⟨.readObject oid, x⟩ ∈ (removeFromProject oid project).run.trace Memory.handle m) :
    x = Except.ok ((parted m oid project).objects.get? oid) := by
  rw [trace_removeFromProject] at h
  rcases List.mem_append.mp h with h | h
  · simpa using h
  · exact absurd h (not_mem_trace_conclude (by simp) (by simp))

theorem trace_remove_member
    (h : ⟨.removeProjectMember project oid, y⟩ ∈ (removeFromProject oid project).run.trace Memory.handle m) :
    y = Except.ok (wasPart m oid project).1 := by
  rw [trace_removeFromProject] at h
  rcases List.mem_append.mp h with h | h
  · simpa using h
  · exact absurd h (not_mem_trace_conclude (by simp) (by simp))

theorem trace_remove_listing
    (h : ⟨.listProjects, Except.ok l⟩ ∈ (removeFromProject oid project).run.trace Memory.handle m) :
    l = ((parted m oid project).respond .listProjects).1 := by
  rw [trace_removeFromProject] at h
  rcases List.mem_append.mp h with h | h
  · simp at h
  · exact trace_conclude h

end

/-- A record without references is listed by no project. -/
theorem listed_of_empty (h : m.Balanced) (hr : m.objects.get? oid = some r) (hp : r.projects.isEmpty = true) :
    ∀ x ∈ (m.respond .listProjects).1, x.contains oid = false := by
  intro x hx
  obtain ⟨e, he, rfl⟩ := List.mem_map.mp hx
  rw [Bool.eq_false_iff]
  intro hc
  have hm : m.Member e.1 oid := ⟨e.2, SortedMap.get?_eq_some_iff.mpr he, hc⟩
  obtain ⟨r', hr', hc'⟩ := (h.agrees e.1 oid).mp hm
  rw [hr] at hr'
  cases hr'
  rw [SortedMap.isEmpty_iff.mp hp] at hc'
  cases hc'

/-- A member that is taken out has a record. -/
theorem recorded_of_wasPart (h : m.Balanced) (hw : (wasPart m oid project).1 = true) :
    (parted m oid project).objects.get? oid ≠ none := by
  have hm : m.Member project oid := by
    unfold wasPart at hw
    dsimp only [Memory.respond] at hw
    split at hw
    · next oids ho => exact ⟨oids, ho, hw⟩
    · cases hw
  obtain ⟨r, hr, -⟩ := (h.agrees project oid).mp hm
  have hne : ∀ op : Op, (op = .removeProjectMember project oid ∨ op = .removeObjectProject oid project) →
      op ≠ .deleteObject oid := by
    intro op hop e
    rcases hop with rfl | rfl <;> cases e
  obtain ⟨r₁, hr₁, -⟩ := Memory.successor (.removeProjectMember project oid) hr (hne _ (.inl rfl))
  obtain ⟨r₂, hr₂, -⟩ := Memory.successor (.removeObjectProject oid project) hr₁ (hne _ (.inr rfl))
  unfold parted
  rw [hr₂]
  simp

end Ledger

/-! ## Operations one after another -/

namespace Service

open Catalog.Memory (Balanced)
open Ledger (Consistent Recorded Founded balanced_put balanced_commit balanced_remove balanced_create)

variable {s : Service} {b : Backing} {m : Memory}

theorem run_of_calls_read {α : Type} {p : Prog Catalog.interface α}
    (hp : p.Calls fun op : Op => (∃ oid, op = .readObject oid) ∨ ∃ user, op = .readUser user) (m : Memory) :
    (p.run Memory.handle m).2 = m := by
  refine hp.run_unchanged (fun op m' hop => ?_) m
  rcases hop with ⟨oid, rfl⟩ | ⟨user, rfl⟩ <;> rfl

theorem balanced_admitted {α : Type} (h : m.Balanced) (r : ObjectRequest) {k : Oid → CatalogM α}
    (hk : ∀ oid, ((k oid).run.run Memory.handle m).2.Balanced) :
    ((s.admission r >>= k).run.run Memory.handle m).2.Balanced := by
  have hm := run_of_calls_read (calls_admission (s := s) (fun user => .inr ⟨user, rfl⟩) r) m
  rw [run_run_bind]
  rcases hrun : (s.admission r).run.run Memory.handle m with ⟨oid | e, m'⟩
  · rw [hrun] at hm
    subst hm
    exact h
  · rw [hrun] at hm
    subst hm
    exact hk _

theorem balanced_program (h : m.Balanced) (c : Call) : ((c.program s).run Memory.handle m).2.Balanced := by
  have dropped : ∀ {α : Type} (p : Prog Catalog.interface α), (p.run Memory.handle m).2.Balanced →
      (((fun _ => ()) <$> p : Prog Catalog.interface Unit).run Memory.handle m).2.Balanced := by
    intro α p hp
    show ((p.bind fun _ => done ()).run Memory.handle m).2.Balanced
    rw [run_bind]
    exact hp
  have read : ∀ {p : CatalogM ObjectRecord},
      (p.run.Calls fun op : Op => (∃ oid, op = .readObject oid) ∨ ∃ user, op = .readUser user) →
        (p.run.run Memory.handle m).2.Balanced := by
    intro p hp
    rw [run_of_calls_read hp]
    exact h
  have user : ∀ user, (∃ oid, Op.readUser user = .readObject oid) ∨ ∃ u, Op.readUser user = .readUser u :=
    fun user => .inr ⟨user, rfl⟩
  have object : ∀ oid, (∃ o, Op.readObject oid = .readObject o) ∨ ∃ user, Op.readObject oid = .readUser user :=
    fun oid => .inl ⟨oid, rfl⟩
  cases c with
  | put r => exact dropped _ (balanced_admitted h r fun oid => balanced_put h oid _ _)
  | commit r => exact dropped _ (balanced_admitted h r fun oid => balanced_commit h oid)
  | get r => exact dropped _ (read (calls_serviceGet user object r))
  | getPending r => exact dropped _ (read (calls_serviceGetPending user object r))
  | remove oid project => exact dropped _ (balanced_remove h oid project)
  | addProject name => exact dropped _ (balanced_create h name)

theorem balanced_session (h : m.Balanced) (l : List Call) :
    ((s.session l).run Memory.handle m).2.Balanced := by
  induction l generalizing m with
  | nil => exact h
  | cons c l ih =>
    show (((c.program s).bind fun _ => s.session l).run Memory.handle m).2.Balanced
    rw [run_bind]
    exact ih (balanced_program h c)

theorem after_holds (h : b.Holds m) (l : List Call) :
    (s.after l b).Holds ((s.session l).run Memory.handle m).2 :=
  (Catalog.Backing.run_holds (calls_session s l) h).2.2

theorem founded_after (h : b.Holds m) (l : List Call) {project : String} {x : ProjectRecord}
    (hx : Founded b project x) : ∃ x', Founded (s.after l b) project x' := by
  obtain ⟨oids, ho, rfl⟩ := (Ledger.founded_iff h).mp hx
  have keeps : ∀ (op : Op) (m : Memory), op ≠ .close → m.projects.contains project = true →
      (Memory.handle op m).2.projects.contains project = true :=
    fun _ _ _ hc => Memory.contains_project_respond hc
  have hkept := (calls_session s l).run_keeps (fun m : Memory => m.projects.contains project = true)
    keeps (SortedMap.contains_iff.mpr ⟨oids, ho⟩)
  obtain ⟨oids', ho'⟩ := SortedMap.contains_iff.mp hkept
  exact ⟨_, (Ledger.founded_iff (after_holds h l)).mpr ⟨oids', ho', rfl⟩⟩

/-! ## What a catalog tells -/

/-- What the records of a catalog and its projects say of each other, and of themselves. -/
structure Agreement (b : Backing) : Prop where
  consistent : Consistent b
  unnamed : ∀ oid r, Recorded b oid r → r.projects.contains "" = false
  named : ∀ x, ¬ Founded b "" x
  sizes : ∀ oid r, Recorded b oid r → 0 ≤ r.size

theorem agreement_of_balanced (h : b.Holds m) (hm : m.Balanced) : Agreement b where
  consistent oid project := by
    rw [← Ledger.member_iff h, ← Ledger.refers_iff h]
    exact hm.agrees project oid
  unnamed oid r hr := by
    rw [Bool.eq_false_iff]
    intro hc
    have hrefers : m.Refers oid "" := ⟨r, (Ledger.recorded_iff h).mp hr, hc⟩
    exact hm.ne_empty ((hm.agrees "" oid).mpr hrefers) rfl
  named x hx := by
    obtain ⟨oids, ho, -⟩ := (Ledger.founded_iff h).mp hx
    rw [SortedMap.contains_eq_false_iff.mp hm.named] at ho
    cases ho
  sizes oid r hr := hm.sizes oid r ((Ledger.recorded_iff h).mp hr)

/-- The removal does not find a record without references that some project lists, or a member without a
record. -/
structure Unsurprised (oid : Oid) (project : String) (T : List ((op : Op) × Catalog.interface.Answer op)) :
    Prop where
  listing : ∀ r l, ⟨.readObject oid, Except.ok (some r)⟩ ∈ T → r.projects.isEmpty = true →
    ⟨.listProjects, Except.ok l⟩ ∈ T → ∀ x ∈ l, x.contains oid = false
  record : ⟨.removeProjectMember project oid, Except.ok true⟩ ∈ T → ⟨.readObject oid, Except.ok none⟩ ∉ T

theorem unsurprised_of_balanced (h : m.Balanced) (oid : Oid) (project : String) :
    Unsurprised oid project ((Ledger.removeFromProject oid project).run.trace Memory.handle m) := by
  constructor
  · intro r l hr hempty hl
    have hr := Except.ok.inj (Ledger.trace_remove_read hr)
    rw [Ledger.trace_remove_listing hl]
    exact Ledger.listed_of_empty (Ledger.balanced_parted h oid project) hr.symm hempty
  · intro hw hr
    have hw := Except.ok.inj (Ledger.trace_remove_member hw)
    have hr := Except.ok.inj (Ledger.trace_remove_read hr)
    exact Ledger.recorded_of_wasPart h hw.symm hr.symm

/-- However the operations of the service follow one another from a catalog without objects and projects on, the
records and the projects agree. -/
theorem agreement_after {users : SortedMap String String} (hb : b.Holds ⟨.empty, .empty, users⟩) (s : Service)
    (l : List Call) : Agreement (s.after l b) ∧
      (∀ l' project x, Founded (s.after l b) project x → ∃ x', Founded (s.after (l ++ l') b) project x') ∧
      ∀ oid project, Unsurprised oid project
        ((Ledger.removeFromProject oid project).run.trace Backing.handle (s.after l b)) := by
  have hm := balanced_session (s := s) (Catalog.Memory.balanced_empty users) l
  have hl := after_holds (s := s) hb l
  refine ⟨agreement_of_balanced hl hm, fun l' project x hx => ?_, fun oid project => ?_⟩
  · rw [after_append]
    exact founded_after hl l' hx
  · have hcalls : (Ledger.removeFromProject oid project).run.Calls fun op : Op => op ≠ .close :=
      calls_removeFromProject (by simp) (by simp) (by simp) (by simp) (by simp)
    rw [(Catalog.Backing.run_holds hcalls hl).1]
    exact unsurprised_of_balanced hm oid project

namespace Sample

def service : Service :=
  ⟨⟨.everyone, ⟨fun _ password => password, fun password kept => password = kept⟩⟩⟩

def request (size : Int) (project : String) : ObjectRequest :=
  ⟨(default : Oid).hex, size, "", project, ""⟩

def calls : List Call :=
  [.commit (request 0 ""), .put (request 3 "p"), .put (request (-1) "q"), .put (request 5 "q"),
    .commit (request 0 ""), .addProject "", .addProject "z", .remove default "z", .remove default "p"]

end Sample

open Sample in
theorem agreement_after_calls : ∃ m t : Backing, m = service.after calls (.memory .empty) ∧
    t = service.after calls (.relational .empty) ∧
    (Backing.memory .empty).Holds ⟨.empty, .empty, .empty⟩ ∧
    (Backing.relational .empty).Holds ⟨.empty, .empty, .empty⟩ ∧ Agreement m ∧ Agreement t ∧
    (∃ r, Recorded m default r ∧ r.projects.keys = ["q"]) ∧ ∃ x, Founded m "z" x := by
  have hm : (Backing.memory .empty).Holds ⟨.empty, .empty, .empty⟩ := .memory Catalog.Memory.keyed_empty
  have ht : (Backing.relational .empty).Holds ⟨.empty, .empty, .empty⟩ :=
    .relational Catalog.Memory.keyed_empty Catalog.Database.holds_empty
  have hread : (Backing.handle (.readObject default) (service.after calls (.memory .empty))).1.map
      (Option.map (·.projects.keys)) = .ok (some ["q"]) := by decide +kernel
  have hproject : (Backing.handle (.readProject "z") (service.after calls (.memory .empty))).1.map
      Option.isSome = .ok true := by decide +kernel
  refine ⟨_, _, rfl, rfl, hm, ht, (agreement_after hm service calls).1, (agreement_after ht service calls).1, ?_, ?_⟩
  · unfold Recorded
    generalize (Backing.handle (.readObject default) (service.after calls (.memory .empty))).1 = a at hread ⊢
    rcases a with e | _ | r
    · cases hread
    · cases hread
    · exact ⟨r, rfl, Option.some.inj (Except.ok.inj hread)⟩
  · unfold Founded
    generalize (Backing.handle (.readProject "z") (service.after calls (.memory .empty))).1 = a at hproject ⊢
    rcases a with e | _ | x
    · cases hproject
    · cases hproject
    · exact ⟨x, rfl⟩

end Service

end BlobDepot
