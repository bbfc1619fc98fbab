import BlobDepot.Proofs.Changes
import BlobDepot.Proofs.Handlers

/-!
# What operations of the ledger find out

An operation of the ledger works from what it has read some calls ago. With respect to one object and one
project it makes findings, and they decide which calls it still makes: a record refers to the project only
after the project has listed the object, and a record is deleted only if it was once read without references.
-/

namespace BlobDepot.Ledger

open Catalog (Op Memory)
open Prog

/-! ## Operations -/

inductive Job where
  | put (oid : Oid) (size : Int) (project : String)
  | commit (oid : Oid)
  | remove (oid : Oid) (project : String)
  deriving DecidableEq

namespace Job

@[reducible] def Result : Job → Type
  | put _ _ _ | commit _ => Except CatalogError ObjectRecord
  | remove _ _ => Except CatalogError Bool

def program : (j : Job) → Prog Catalog.interface j.Result
  | put oid size project => (Ledger.put oid size project).run
  | commit oid => (Ledger.commit oid).run
  | remove oid project => (removeFromProject oid project).run

def removal? : Job → Option (Oid × String)
  | remove oid project => some (oid, project)
  | _ => none

end Job

def operations : Jobs Catalog.interface :=
  ⟨Job, Job.Result, Job.program⟩

/-! ## Findings -/

structure Findings where
  /-- What the operation takes out of what. -/
  role : Option (Oid × String)
  /-- The object has been made a member of the project. -/
  joined : Bool
  /-- The record of the object has been read. -/
  found : Bool
  /-- The record has been read with a reference to the project, or has been given one. -/
  claimed : Bool
  /-- The record has been read without any reference. -/
  bare : Bool
  /-- The record has been deleted. -/
  deleted : Bool

namespace Findings

def initial (j : Job) : Findings :=
  ⟨j.removal?, false, false, false, false, false⟩

def advance (oid : Oid) (project : String) (f : Findings) :
    (op : Op) → Catalog.interface.Answer op → Findings
  | .readObject o, (Except.ok (some r)) =>
    if o = oid then
      { f with
        found := true
        claimed := f.claimed || r.projects.contains project
        bare := f.bare || r.projects.isEmpty }
    else f
  | .insertObject r, (Except.ok true) =>
    if r.oid = oid ∧ r.projects.contains project = true then { f with claimed := true } else f
  | .addProjectMember q o, (Except.ok _) => if o = oid ∧ q = project then { f with joined := true } else f
  | .addObjectProject o q, (Except.ok _) =>
    if o = oid ∧ q = project then { f with claimed := f.claimed || f.found } else f
  | .deleteObject o, (Except.ok true) => if o = oid then { f with deleted := true } else f
  | _, _ => f

def Permits (oid : Oid) (project : String) (f : Findings) : Op → Prop
  | .insertObject r => r.oid = oid → r.projects.contains project = true → f.joined = true
  | .addObjectProject o q => o = oid → q = project → f.joined = true
  | .setObjectState _ state => state = .committed
  | .removeProjectMember q o | .removeObjectProject o q => f.role = some (o, q)
  | .deleteObject o => (∃ q, f.role = some (o, q)) ∧ (o = oid → f.bare = true)
  | .close => False
  | _ => True

end Findings

/-- Once the record is deleted, nothing more is done. -/
def bookkeeping (oid : Oid) (project : String) : Discipline Catalog.interface Findings where
  allows op f := f.deleted = false ∧ f.Permits oid project op
  leads op f x f' := Catalog.Plausible op x ∧ f' = f.advance oid project op x

/-- A claim that succeeds is one that the record has come to show. -/
def Shown (oid o : Oid) (project q : String) (x : Except CatalogError ObjectRecord) (f : Findings) : Prop :=
  f.deleted = false ∧ (o = oid → q = project → project ≠ "" → (∃ r, x = .ok r) → f.claimed = true)

def Comes (oid : Oid) (project : String) : (j : Job) → j.Result → Findings → Prop
  | .put o _ q, x, f => Shown oid o project q x f
  | .commit _, _, f => f.deleted = false
  | .remove o _, x, f => f.deleted = true → o = oid ∧ x = .ok true

variable {oid o : Oid} {project q : String} {f : Findings}

/-! ## Claims -/

theorem follows_addObject {want : Except CatalogError Unit → Findings → Prop} (hd : f.deleted = false)
    (hok : want (.ok ()) (if q ≠ "" ∧ o = oid ∧ q = project then { f with joined := true } else f))
    (he : ∀ e, want (.error e) f) :
    (Projects.addObject o q).run.Follows (bookkeeping oid project) want f := by
  unfold Projects.addObject
  by_cases hq : q = ""
  · rw [if_neg fun h => h.1 hq] at hok
    rw [if_pos hq]
    exact follows_done.mpr hok
  · rw [if_neg hq]
    refine (Depot.follows_ask (.addProjectMember q o)).mpr ⟨⟨hd, trivial⟩, fun x f' hl => ?_⟩
    obtain ⟨-, rfl⟩ := hl
    cases x with
    | error e => exact he e
    | ok u =>
      have hf : f.advance oid project (.addProjectMember q o) (Except.ok u) =
          if q ≠ "" ∧ o = oid ∧ q = project then { f with joined := true } else f := by
        show (if o = oid ∧ q = project then _ else f) = _
        simp [hq]
      rw [hf]
      exact hok

theorem shown_error (hd : f.deleted = false) (e : CatalogError) : Shown oid o project q (.error e) f := by
  refine ⟨hd, fun _ _ _ h => ?_⟩
  obtain ⟨a, ha⟩ := h
  cases ha

theorem follows_join {r : ObjectRecord} (hd : f.deleted = false)
    (hr : r.oid = oid → f.found = true ∧ (r.projects.contains project = true → f.claimed = true)) :
    (join r q).run.Follows (bookkeeping oid project) (Shown oid r.oid project q) f := by
  unfold join
  split
  · next hq =>
    obtain ⟨hq, hnot⟩ := hq
    rw [follows_run_bind]
    refine follows_addObject hd ?_ fun e => shown_error hd e
    dsimp only
    -- By now the project lists the object, so the record may come to refer to it.
    generalize hf₁ : (if q ≠ "" ∧ r.oid = oid ∧ q = project then { f with joined := true } else f) = f₁
    have hd₁ : f₁.deleted = false := by rw [← hf₁]; split <;> exact hd
    rw [follows_run_bind]
    refine (Depot.follows_ask (.addObjectProject r.oid q)).mpr ⟨⟨hd₁, fun ho hp => ?_⟩, fun x f' hl => ?_⟩
    · rw [← hf₁, if_pos ⟨hq, ho, hp⟩]
    · obtain ⟨-, rfl⟩ := hl
      cases x with
      | error e => exact shown_error hd₁ e
      | ok b =>
        have hf : f₁.advance oid project (.addObjectProject r.oid q) (Except.ok b) =
          if r.oid = oid ∧ q = project then { f₁ with claimed := f₁.claimed || f₁.found } else f₁ := rfl
        rw [hf]
        refine follows_done.mpr ⟨?_, fun ho hp hne _ => ?_⟩
        · split <;> exact hd₁
        · rw [if_pos ⟨ho, hp⟩, ← hf₁, if_pos ⟨hq, ho, hp⟩]
          simp [(hr ho).1]
  · next hq =>
    refine follows_done.mpr ⟨hd, fun ho hp hne _ => (hr ho).2 ?_⟩
    subst hp
    simp only [not_and, Bool.not_eq_true', Bool.not_eq_false] at hq
    exact hq hne

def Quiet : Op → Prop
  | .setObjectState _ _ | .removeProjectMember _ _ | .removeObjectProject _ _ | .listProjects => True
  | _ => False

theorem follows_quiet (op : Op) {want : Catalog.interface.Answer op → Findings → Prop} (hq : Quiet op)
    (hd : f.deleted = false) (hp : f.Permits oid project op) (h : ∀ x, want x f) :
    (Catalog.ask op).run.Follows (bookkeeping oid project) want f := by
  refine (Depot.follows_ask op).mpr ⟨⟨hd, hp⟩, fun x f' hl => ?_⟩
  obtain ⟨-, rfl⟩ := hl
  have quiet : f.advance oid project op x = f := by
    cases op <;> first | rfl | cases hq
  rw [quiet]
  exact h x

theorem follows_read {want : Except CatalogError (Option ObjectRecord) → Findings → Prop}
    (hd : f.deleted = false)
    (hsome : ∀ r, r.oid = o → want (.ok (some r))
      (f.advance oid project (.readObject o) (Except.ok (some r))))
    (hnone : want (.ok none) f) (he : ∀ e, want (.error e) f) :
    (Catalog.ask (.readObject o)).run.Follows (bookkeeping oid project) want f := by
  refine (Depot.follows_ask (.readObject o)).mpr ⟨⟨hd, trivial⟩, fun x f' hl => ?_⟩
  obtain ⟨hx, rfl⟩ := hl
  obtain e | _ | r := x
  · exact he e
  · exact hnone
  · exact hsome r hx

theorem follows_read_join {r : ObjectRecord} (hd : f.deleted = false) (hr : r.oid = o) :
    (join r q).run.Follows (bookkeeping oid project) (Shown oid o project q)
      (f.advance oid project (.readObject o) (Except.ok (some r))) := by
  have hf : f.advance oid project (.readObject o) (Except.ok (some r)) = if o = oid then
      { f with
        found := true
        claimed := f.claimed || r.projects.contains project
        bare := f.bare || r.projects.isEmpty }
    else f := rfl
  rw [hf, ← hr]
  refine follows_join ?_ fun ho => ?_
  · split <;> exact hd
  · rw [if_pos ho]
    refine ⟨rfl, fun hc => ?_⟩
    simp [hc]

theorem follows_put (hd : f.deleted = false) (size : Int) :
    (put o size q).run.Follows (bookkeeping oid project) (Shown oid o project q) f := by
  unfold put
  split
  · exact follows_done.mpr (shown_error hd _)
  · rw [follows_run_bind]
    refine follows_read hd (fun r hr => follows_read_join hd hr) ?_ fun e => shown_error hd e
    dsimp only
    rw [follows_run_bind]
    refine follows_addObject hd ?_ fun e => shown_error hd e
    dsimp only
    generalize hf₁ : (if q ≠ "" ∧ o = oid ∧ q = project then { f with joined := true } else f) = f₁
    have hd₁ : f₁.deleted = false := by rw [← hf₁]; split <;> exact hd
    have listed : (ObjectRecord.pending o size q).projects.contains project = true ↔ q ≠ "" ∧ project = q :=
      Memory.contains_pending
    rw [follows_run_bind]
    refine (Depot.follows_ask (.insertObject (.pending o size q))).mpr
      ⟨⟨hd₁, fun ho hp => ?_⟩, fun x f' hl => ?_⟩
    · obtain ⟨hq, hp⟩ := listed.mp hp
      rw [← hf₁, if_pos ⟨hq, ho, hp.symm⟩]
    · obtain ⟨-, rfl⟩ := hl
      obtain e | _ | _ := x
      · exact shown_error hd₁ e
      · dsimp only
        rw [if_neg (by simp), follows_run_bind]
        refine follows_read hd₁ (fun r hr => follows_read_join hd₁ hr) ?_ fun e => shown_error hd₁ e
        exact follows_done.mpr (shown_error hd₁ _)
      · have hf : f₁.advance oid project (.insertObject (.pending o size q)) (Except.ok true) =
          if o = oid ∧ (ObjectRecord.pending o size q).projects.contains project = true
            then { f₁ with claimed := true } else f₁ := rfl
        rw [hf]
        refine follows_done.mpr ⟨?_, fun ho hp hne _ => ?_⟩
        · split <;> exact hd₁
        · rw [if_pos ⟨ho, listed.mpr ⟨hp ▸ hne, hp.symm⟩⟩]

/-! ## Commits and removals -/

theorem follows_commit (hd : f.deleted = false) :
    (commit o).run.Follows (bookkeeping oid project) (fun _ f => f.deleted = false) f := by
  have calls : (commit o).run.Calls fun op : Op => op = .readObject o ∨ (∃ p, op = .addProjectMember p o) ∨
      op = .setObjectState o .committed :=
      calls_commit (.inl rfl) (fun p => .inr (.inl ⟨p, rfl⟩)) (.inr (.inr rfl))
  refine calls.follows (fun op f hop hf => ?_) hd
  rcases hop with rfl | ⟨p, rfl⟩ | rfl
  · refine ⟨⟨hf, trivial⟩, fun x f' hl => ?_⟩
    obtain ⟨-, rfl⟩ := hl
    obtain e | _ | r := x
    · exact hf
    · exact hf
    · show (if o = oid then _ else f : Findings).deleted = false
      split <;> exact hf
  · refine ⟨⟨hf, trivial⟩, fun x f' hl => ?_⟩
    obtain ⟨-, rfl⟩ := hl
    cases x with
    | error e => exact hf
    | ok u =>
      show (if o = oid ∧ p = project then _ else f : Findings).deleted = false
      split <;> exact hf
  · refine ⟨⟨hf, rfl⟩, fun x f' hl => ?_⟩
    obtain ⟨-, rfl⟩ := hl
    exact hf

theorem comes_kept {x : Except CatalogError Bool} (hd : f.deleted = false) :
    Comes oid project (.remove o q) x f := by
  intro h
  rw [hd] at h
  cases h

theorem follows_delete (hd : f.deleted = false) (hrole : f.role = some (o, q)) (hbare : o = oid → f.bare = true) :
    (Catalog.ask (.deleteObject o)).run.Follows (bookkeeping oid project) (Comes oid project (.remove o q)) f := by
  refine (Depot.follows_ask (.deleteObject o)).mpr ⟨⟨hd, ⟨q, hrole⟩, hbare⟩, fun x f' hl => ?_⟩
  obtain ⟨-, rfl⟩ := hl
  obtain e | _ | _ := x
  · exact comes_kept hd
  · exact comes_kept hd
  · show (if o = oid then { f with deleted := true } else f).deleted = true → o = oid ∧ _
    intro h
    split at h
    · next ho => exact ⟨ho, rfl⟩
    · rw [hd] at h
      cases h

/-- A removal deletes the record last, and only one that it has read without references. -/
theorem follows_remove (hd : f.deleted = false) (hrole : f.role = some (o, q)) :
    (removeFromProject o q).run.Follows (bookkeeping oid project) (Comes oid project (.remove o q)) f := by
  unfold removeFromProject
  rw [follows_run_bind]
  refine follows_quiet (.removeProjectMember q o) trivial hd hrole fun x => ?_
  cases x with
  | error e => exact comes_kept hd
  | ok wasMember =>
    dsimp only
    rw [follows_run_bind]
    refine follows_quiet (.removeObjectProject o q) trivial hd hrole fun x => ?_
    cases x with
    | error e => exact comes_kept hd
    | ok hadReference =>
      dsimp only
      rw [follows_run_bind]
      refine follows_read hd (fun r hr => ?_) ?_ fun e => comes_kept hd
      · dsimp only
        -- That the record has no references is remembered from here to its deletion.
        generalize hf₁ : f.advance oid project (.readObject o) (Except.ok (some r)) = f₁
        have hd₁ : f₁.deleted = false := by
          rw [← hf₁]
          show (if o = oid then _ else f : Findings).deleted = false
          split <;> exact hd
        have hrole₁ : f₁.role = some (o, q) := by
          rw [← hf₁]
          show (if o = oid then _ else f : Findings).role = some (o, q)
          split <;> exact hrole
        split
        · exact follows_done.mpr (comes_kept hd₁)
        · split
          · exact follows_done.mpr (comes_kept hd₁)
          · next hempty =>
            unfold Projects.referencing Projects.list
            rw [follows_run_bind, follows_run_bind]
            refine follows_quiet .listProjects trivial hd₁ trivial fun x => ?_
            cases x with
            | error e => exact comes_kept hd₁
            | ok l =>
              refine follows_done.mpr ?_
              dsimp only
              split
              · exact follows_done.mpr (comes_kept hd₁)
              · refine follows_delete hd₁ hrole₁ fun ho => ?_
                rw [← hf₁]
                show (if o = oid then _ else f : Findings).bare = true
                rw [if_pos ho]
                simp only [Bool.not_eq_true, Bool.not_eq_false'] at hempty
                simp [hempty]
      · dsimp only
        split
        · exact follows_done.mpr (comes_kept hd)
        · exact follows_done.mpr (comes_kept hd)

theorem follows_program (j : Job) : j.program.Follows (bookkeeping oid project) (Comes oid project j)
    (.initial j) := by
  cases j with
  | put o size q => exact follows_put rfl size
  | commit o => exact follows_commit rfl
  | remove o q => exact follows_remove rfl rfl

/-! ## Findings and what they are about -/

section
variable {m m' : Memory} {op : Op} {x : Catalog.interface.Answer op} {r : ObjectRecord}

theorem role_advance : (f.advance oid project op x).role = f.role := by
  unfold Findings.advance
  split <;> first | rfl | (split <;> rfl)

theorem joined_advance (h : (f.advance oid project op x).joined = true) :
    f.joined = true ∨ op = .addProjectMember project oid ∧ ∃ y, x = Except.ok y := by
  unfold Findings.advance at h
  split at h
  · split at h <;> exact .inl h
  · split at h <;> exact .inl h
  · next y =>
    split at h
    · next ho =>
      obtain ⟨rfl, rfl⟩ := ho
      exact .inr ⟨rfl, y, rfl⟩
    · exact .inl h
  · split at h <;> exact .inl h
  · split at h <;> exact .inl h
  · exact .inl h

theorem attempt (ht : Handler.orFailing Catalog.failure Memory.handle op m x m') :
    x = Except.ok (m.respond op).1 ∧ m' = (m.respond op).2 ∨ (∃ e, x = Except.error e) ∧ m' = m := by
  rcases ht with ht | ht
  · obtain ⟨hx, hm⟩ := Prod.mk.inj ht
    exact .inl ⟨hx.symm, hm.symm⟩
  · exact .inr ht

variable (hp : f.Permits oid project op) (hr : f.role ≠ some (oid, project))
  (ht : Handler.orFailing Catalog.failure Memory.handle op m x m')
include hp hr ht

theorem member_kept (h : m.Member project oid) : m'.Member project oid := by
  rcases attempt ht with ⟨-, rfl⟩ | ⟨-, rfl⟩
  · refine h.respond fun e => ?_
    subst e
    exact hr hp
  · exact h

theorem member_of_joined (hj : f.joined = true → m.Member project oid)
    (h : (f.advance oid project op x).joined = true) : m'.Member project oid := by
  rcases joined_advance h with h | ⟨rfl, y, rfl⟩
  · exact member_kept hp hr ht (hj h)
  · rcases attempt ht with ⟨-, rfl⟩ | ⟨⟨e, he⟩, -⟩
    · exact Catalog.Memory.member_addProjectMember m project oid
    · cases he

theorem listed_kept (hl : m.Refers oid project → m.Member project oid)
    (hj : f.joined = true → m.Member project oid) :
    m'.Refers oid project → m'.Member project oid := by
  intro h
  have kept := member_kept hp hr ht
  rcases attempt ht with ⟨-, rfl⟩ | ⟨-, rfl⟩
  · obtain ⟨r', hr', hc⟩ := h
    cases hm : m.objects.get? oid with
    | none =>
      -- The record is new, and whoever inserts it has joined the project.
      obtain ⟨s, rfl, hs, rfl⟩ := Catalog.Memory.origin hm hr'
      exact kept (hj (hp hs hc))
    | some r =>
      by_cases hd : op = .deleteObject oid
      · subst hd
        rw [Catalog.Memory.objects_deleteObject] at hr'
        cases hr'
      · obtain ⟨r'', hr'', hs⟩ := Catalog.Memory.successor op hm hd
        rw [hr'] at hr''
        cases hr''
        rcases hs.gained project hc with hc | rfl
        · exact kept (hl ⟨r, hm, hc⟩)
        · exact kept (hj (hp rfl rfl))
  · exact hl h

omit hp hr in
theorem record_kept (hd : (f.advance oid project op x).deleted = false) (hm : m.objects.get? oid = some r) :
    ∃ r', m'.objects.get? oid = some r' ∧ Catalog.Memory.Successor oid op r r' := by
  rcases attempt ht with ⟨rfl, rfl⟩ | ⟨-, rfl⟩
  · refine Catalog.Memory.successor op hm fun e => ?_
    subst e
    have contained : (m.respond (.deleteObject oid)).1 = true := SortedMap.contains_iff.mpr ⟨r, hm⟩
    rw [contained] at hd
    change (if oid = oid then _ else f : Findings).deleted = false at hd
    rw [if_pos rfl] at hd
    cases hd
  · exact ⟨r, hm, .refl _ _ _⟩

theorem refers_kept (hd : (f.advance oid project op x).deleted = false) (h : m.Refers oid project) :
    m'.Refers oid project := by
  obtain ⟨r, hm, hc⟩ := h
  obtain ⟨r', hm', hs⟩ := record_kept ht hd hm
  rcases hs.kept project hc with hc | rfl
  · exact ⟨r', hm', hc⟩
  · exact absurd hp hr

end

section
variable {m m' : Memory} {op : Op} {x : Catalog.interface.Answer op} {r : ObjectRecord}

theorem read_some (ht : Handler.orFailing Catalog.failure Memory.handle (.readObject o) m
    (Except.ok (some r)) m') :
    m.objects.get? o = some r ∧ m' = m := by
  rcases attempt ht with ⟨hx, hm⟩ | ⟨⟨e, he⟩, -⟩
  · exact ⟨(Except.ok.inj hx).symm, hm⟩
  · cases he

variable (ht : Handler.orFailing Catalog.failure Memory.handle op m x m')
include ht

theorem found_advance (h : (f.advance oid project op x).found = true) :
    f.found = true ∨ ∃ r, m'.objects.get? oid = some r := by
  unfold Findings.advance at h
  split at h
  · next o r =>
    obtain ⟨hr, rfl⟩ := read_some ht
    split at h
    · next ho => exact .inr ⟨r, ho ▸ hr⟩
    · exact .inl h
  · split at h <;> exact .inl h
  · split at h <;> exact .inl h
  · split at h <;> exact .inl h
  · split at h <;> exact .inl h
  · exact .inl h

theorem bare_advance (hm : m.Refers oid project) (h : (f.advance oid project op x).bare = true) :
    f.bare = true := by
  unfold Findings.advance at h
  split at h
  · next o r =>
    obtain ⟨hr, -⟩ := read_some ht
    split at h
    · next ho =>
      subst ho
      obtain ⟨r', hr', hc⟩ := hm
      rw [hr] at hr'
      cases hr'
      rcases Bool.or_eq_true_iff.mp h with h | h
      · exact h
      · rw [SortedMap.isEmpty_iff.mp h project] at hc
        cases hc
    · exact h
  · split at h <;> exact h
  · split at h <;> exact h
  · split at h <;> exact h
  · split at h <;> exact h
  · exact h

theorem claimed_advance (hf : f.found = true → ∃ r, m.objects.get? oid = some r)
    (h : (f.advance oid project op x).claimed = true) : f.claimed = true ∨ m'.Refers oid project := by
  unfold Findings.advance at h
  split at h
  · next o r =>
    obtain ⟨hr, rfl⟩ := read_some ht
    split at h
    · next ho =>
      subst ho
      rcases Bool.or_eq_true_iff.mp h with h | h
      · exact .inl h
      · exact .inr ⟨r, hr, h⟩
    · exact .inl h
  · next r =>
    split at h
    · next hr =>
      rcases attempt ht with ⟨hx, rfl⟩ | ⟨⟨e, he⟩, -⟩
      · right
        have absent : m.objects.contains r.oid = false := by
          cases hc : m.objects.contains r.oid with
          | false => rfl
          | true =>
            simp only [Catalog.Memory.respond, hc, if_true] at hx
            cases hx
        refine ⟨{ r with existing := false }, ?_, hr.2⟩
        rw [Catalog.Memory.objects_insertObject, if_pos ⟨absent, hr.1.symm⟩]
      · cases he
    · exact .inl h
  · split at h <;> exact .inl h
  · next o q y =>
    split at h
    · next hq =>
      obtain ⟨rfl, rfl⟩ := hq
      rcases Bool.or_eq_true_iff.mp h with h | h
      · exact .inl h
      · obtain ⟨r, hr⟩ := hf h
        rcases attempt ht with ⟨-, rfl⟩ | ⟨⟨e, he⟩, -⟩
        · exact .inr (Catalog.Memory.refers_addObjectProject hr q)
        · cases he
    · exact .inl h
  · split at h <;> exact .inl h
  · exact .inl h

end

end BlobDepot.Ledger
