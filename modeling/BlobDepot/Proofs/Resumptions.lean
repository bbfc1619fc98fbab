import BlobDepot.Proofs.Retries

/-!
# Claims and commits that are repeated

Until its last call a claim or a commit only reads records and adds members to projects, and doing so again comes to
nothing more. So one that was interrupted is completed by repeating it, in any catalog: `completed_by_repeating`.
-/

namespace BlobDepot

open Catalog (Backing Memory Op)
open Prog (trace_run_bind surfaces_run_bind)

/-! ## Members that are added -/

namespace Catalog

variable {name : String} {oid : Oid}

namespace Relational

variable {db db' : Database}

def Admits (db : Database) (table : Table) : Prop :=
  (db.triggers.find? fun t => t.event = .insert && t.table = table) = none

def withRow {ρ : Type} [BEq ρ] (row : ρ) (rows : List ρ) : List ρ :=
  if rows.any (· == row) then rows else rows ++ [row]

theorem subset_withRow {ρ : Type} [BEq ρ] (row : ρ) (rows : List ρ) : rows ⊆ withRow row rows := by
  unfold withRow
  split
  · exact List.Subset.refl rows
  · exact List.subset_append_left rows [row]

theorem mem_withRow {ρ : Type} [BEq ρ] [LawfulBEq ρ] (row : ρ) (rows : List ρ) : row ∈ withRow row rows := by
  unfold withRow
  split
  · next h => simpa using h
  · exact List.mem_append_right rows List.mem_cons_self

theorem withRow_of_mem {ρ : Type} [BEq ρ] [LawfulBEq ρ] {row : ρ} {rows : List ρ} (h : row ∈ rows) :
    withRow row rows = rows :=
  if_pos (by simpa using h)

theorem run_insertAbsent_iff {ρ : Type} [BEq ρ] {table : Table} {rows : Database → List ρ}
    {put : Database → List ρ → Database} (hput : put db (rows db) = db) {row : ρ} {x : Bool × Database} :
    (Transaction.insertNew table rows put (· == row) row).run db = .ok x ↔
      Admits db table ∧ x = (!(rows db).any (· == row), put db (withRow row (rows db))) := by
  rw [Transaction.run_insertNew_iff, Admits, withRow]
  split
  · rw [hput]
  · rfl

theorem run_write_iff {α : Type} {t : Transaction α} {x : α × Database} :
    (write t).run db = .ok x ↔ t.run db = .ok x := by
  show (t.run db).mapError refusal = _ ↔ _
  cases t.run db with
  | error message => constructor <;> intro h <;> cases h
  | ok y => constructor <;> intro h <;> cases h <;> rfl

theorem run_transaction_bind_iff {α β : Type} {t : Transaction α} {f : α → Transaction β} {x : β × Database} :
    (t >>= f).run db = .ok x ↔ ∃ a db₁, t.run db = .ok (a, db₁) ∧ (f a).run db₁ = .ok x := by
  rw [StateT.run_bind]
  cases t.run db with
  | error message =>
    constructor <;> intro h
    · cases h
    · obtain ⟨_, _, hy, -⟩ := h
      cases hy
  | ok y =>
    constructor <;> intro h
    · exact ⟨y.1, y.2, rfl, h⟩
    · obtain ⟨a, db₁, hy, h⟩ := h
      cases hy
      exact h

theorem run_addProjectMember_iff : (respond (.addProjectMember name oid)).run db = .ok ((), db') ↔
    Admits db .projects ∧ Admits db .projectObjects ∧
      db' = { db with
        projects := withRow name db.projects
        projectObjects := withRow (name, oid.hex) db.projectObjects } := by
  have hproject : ∀ {db : Database} {x : Bool × Database}, (Transaction.insertProject name).run db = .ok x ↔ _ :=
    run_insertAbsent_iff rfl
  have hobject : ∀ {db : Database} {x : Bool × Database},
      (Transaction.insertProjectObject name oid.hex).run db = .ok x ↔ _ :=
    run_insertAbsent_iff rfl
  show (write _).run db = _ ↔ _
  simp only [run_write_iff, run_transaction_bind_iff, hproject, hobject]
  constructor
  · intro h
    obtain ⟨a, db₁, ⟨hprojects, hfirst⟩, a', db₂, ⟨hobjects, hsecond⟩, hlast⟩ := h
    cases hfirst
    cases hsecond
    cases hlast
    exact ⟨hprojects, hobjects, rfl⟩
  · intro h
    obtain ⟨hprojects, hobjects, rfl⟩ := h
    exact ⟨_, _, ⟨hprojects, rfl⟩, _, _, ⟨hobjects, rfl⟩, rfl⟩

theorem handle_eq_ok_iff {s s' : Relational} {op : Op} {x : op.Result} (hop : op ≠ .close) :
    handle op s = (.ok x, s') ↔
      s.isOpen = true ∧ ∃ db, (respond op).run s.database = .ok (x, db) ∧ s' = { s with database := db } := by
  unfold handle
  split
  · exact absurd rfl hop
  · cases s.isOpen with
    | false =>
      constructor <;> intro h
      · cases h
      · cases h.1
    | true =>
      rw [if_pos rfl]
      cases hrun : (respond op).run s.database with
      | error e =>
        constructor <;> intro h
        · cases h
        · obtain ⟨-, db, hdb, -⟩ := h
          cases hdb
      | ok y =>
        constructor <;> intro h
        · cases h
          exact ⟨rfl, _, rfl, rfl⟩
        · obtain ⟨-, db, hdb, rfl⟩ := h
          cases hdb
          rfl

/-- A record that was not to be found is inserted, if the catalog can do it. -/
theorem inserted_of_absent {r : ObjectRecord} {x : Bool} (hread : readObject db r.oid.hex = .ok none)
    (h : (respond (.insertObject r)).run db = .ok (x, db')) : x = true := by
  have habsent : db.objects.any (·.oid == r.oid.hex) = false := by
    unfold readObject at hread
    cases hfound : db.objects.find? (·.oid == r.oid.hex) with
    | none => simpa using hfound
    | some row =>
      rw [hfound] at hread
      dsimp only at hread
      cases hrow : storedRecord row (projectsOf db r.oid.hex) <;> rw [hrow] at hread <;> cases hread
  obtain ⟨inserted, db₁, hrow, hrefs⟩ := run_transaction_bind_iff.mp (run_write_iff.mp h)
  obtain ⟨-, hinserted⟩ := Transaction.run_insertNew_iff.mp hrow
  have hnew : inserted = true := by
    rw [(Prod.mk.inj hinserted).1, habsent]
    rfl
  subst hnew
  obtain ⟨_, db₂, -, hlast⟩ := run_transaction_bind_iff.mp hrefs
  cases hlast
  rfl

end Relational

/-- The second catalog is the first with projects that have been created or have gained members. -/
inductive Backing.GainsMembers : Backing → Backing → Prop
  | memory {m : Memory} {projects : SortedMap String (SortedSet Oid)} :
    (∀ name, m.projects.contains name = true → projects.contains name = true) →
      (∀ name oid, m.Member name oid → { m with projects := projects : Memory }.Member name oid) →
        GainsMembers (.memory m) (.memory { m with projects })
  | relational {db : Database} {isOpen : Bool} {projects : List String} {projectObjects : List (String × String)} :
    db.projects ⊆ projects → db.projectObjects ⊆ projectObjects →
      GainsMembers (.relational ⟨db, isOpen⟩) (.relational ⟨{ db with projects, projectObjects }, isOpen⟩)

namespace Backing

variable {b c d : Backing}

theorem GainsMembers.refl : ∀ b, GainsMembers b b
  | .memory _ => .memory (fun _ h => h) fun _ _ h => h
  | .relational _ => .relational (List.Subset.refl _) (List.Subset.refl _)

theorem GainsMembers.trans (h : GainsMembers b c) (h' : GainsMembers c d) : GainsMembers b d := by
  cases h with
  | memory hprojects hmembers =>
    cases h' with
    | memory hprojects' hmembers' =>
      exact .memory (fun name hname => hprojects' name (hprojects name hname)) fun name oid hmember =>
        hmembers' name oid (hmembers name oid hmember)
  | relational hprojects hmembers =>
    cases h' with
    | relational hprojects' hmembers' =>
      exact .relational (List.Subset.trans hprojects hprojects') (List.Subset.trans hmembers hmembers')

theorem handle_relational_iff {s : Relational} {op : Op} {x : op.Result} (hop : op ≠ .close) :
    handle op (.relational s) = (.ok x, c) ↔ s.isOpen = true ∧
      ∃ db, (Relational.respond op).run s.database = .ok (x, db) ∧ c = .relational { s with database := db } := by
  show ((Relational.handle op s).1, Backing.relational (Relational.handle op s).2) = _ ↔ _
  cases hhandle : Relational.handle op s with
  | mk y s' =>
    rw [Prod.mk.injEq]
    constructor
    · intro h
      obtain ⟨rfl, rfl⟩ := h
      obtain ⟨hopen, db, hrun, rfl⟩ := (Relational.handle_eq_ok_iff hop).mp hhandle
      exact ⟨hopen, db, hrun, rfl⟩
    · intro h
      obtain ⟨hopen, db, hrun, rfl⟩ := h
      have hok := (Relational.handle_eq_ok_iff hop).mpr ⟨hopen, db, hrun, rfl⟩
      rw [hhandle] at hok
      cases hok
      exact ⟨rfl, rfl⟩

/-- What is read of an object is the same. -/
theorem GainsMembers.readObject (h : GainsMembers b c) (oid : Oid) :
    (handle (.readObject oid) c).1 = (handle (.readObject oid) b).1 := by
  cases h with
  | memory _ _ => rfl
  | @relational db isOpen projects projectObjects _ _ =>
    have hread : Relational.readObject { db with projects, projectObjects } oid.hex =
        Relational.readObject db oid.hex := rfl
    cases isOpen with
    | false => rfl
    | true =>
      simp only [handle, Relational.handle, Relational.respond, Relational.query, StateT.run, hread, if_true]
      cases Relational.readObject db oid.hex <;> rfl

theorem gainsMembers_addProjectMember (h : handle (.addProjectMember name oid) b = (.ok (), c)) : GainsMembers b c := by
  cases b with
  | memory m =>
    cases h
    refine .memory (fun project hproject => ?_) fun project o hmember => ?_
    · show (m.respond (.addProjectMember name oid)).2.projects.contains project = true
      exact Memory.contains_project_respond hproject
    · show (m.respond (.addProjectMember name oid)).2.Member project o
      exact hmember.respond (by simp)
  | relational s =>
    obtain ⟨-, db, hrun, rfl⟩ := (handle_relational_iff (by simp)).mp h
    obtain ⟨-, -, rfl⟩ := Relational.run_addProjectMember_iff.mp hrun
    exact .relational (Relational.subset_withRow _ _) (Relational.subset_withRow _ _)

/-- A member that has been added is added in vain. -/
theorem GainsMembers.addProjectMember (h : handle (.addProjectMember name oid) b = (.ok (), c))
    (hg : GainsMembers c d) : handle (.addProjectMember name oid) d = (.ok (), d) := by
  cases b with
  | memory m =>
    cases h
    cases hg with
    | memory _ hmembers =>
      have hmember := hmembers name oid (Memory.member_addProjectMember m name oid)
      exact congrArg (fun m => (Except.ok (), Backing.memory m)) (Memory.respond_addProjectMember hmember)
  | relational s =>
    obtain ⟨hopen, db, hrun, rfl⟩ := (handle_relational_iff (by simp)).mp h
    obtain ⟨hprojects, hobjects, rfl⟩ := Relational.run_addProjectMember_iff.mp hrun
    cases hg with
    | relational hnames hmembers =>
      refine (handle_relational_iff (by simp)).mpr
        ⟨hopen, _, Relational.run_addProjectMember_iff.mpr ⟨hprojects, hobjects, rfl⟩, ?_⟩
      simp only [Relational.withRow_of_mem (hnames (Relational.mem_withRow _ _)),
        Relational.withRow_of_mem (hmembers (Relational.mem_withRow _ _))]

theorem GainsMembers.insertObject {r : ObjectRecord} {x : Bool} (hread : (handle (.readObject r.oid) b).1 = .ok none)
    (hg : GainsMembers b c) (h : (handle (.insertObject r) c).1 = .ok x) : x = true := by
  rw [← hg.readObject] at hread
  cases c with
  | memory m =>
    have hnone : m.objects.get? r.oid = none := Except.ok.inj hread
    have hinsert : (m.respond (.insertObject r)).1 = x := Except.ok.inj h
    rw [← hinsert]
    simp only [Memory.respond, SortedMap.contains_eq_false_iff.mpr hnone]
    rfl
  | relational s =>
    obtain ⟨-, db, hquery, -⟩ := (handle_relational_iff (by simp)).mp (Prod.ext hread rfl)
    obtain ⟨-, db', hrun, -⟩ := (handle_relational_iff (by simp)).mp (Prod.ext h rfl)
    refine Relational.inserted_of_absent ?_ hrun
    change (Relational.readObject s.database r.oid.hex).map _ = _ at hquery
    cases hfound : Relational.readObject s.database r.oid.hex with
    | error e =>
      rw [hfound] at hquery
      cases hquery
    | ok found =>
      rw [hfound] at hquery
      cases hquery
      rfl

end Backing

/-! ## Calls that prepare -/

/-- A call that reads a record or adds a member, and has not failed. -/
inductive Preliminary : ((op : Op) × interface.Answer op) → Prop
  | read (oid : Oid) (found : Option ObjectRecord) : Preliminary ⟨.readObject oid, .ok found⟩
  | enrol (name : String) (oid : Oid) : Preliminary ⟨.addProjectMember name oid, .ok ()⟩

section
variable {op : Op} {b c : Backing}

theorem Preliminary.gainsMembers (h : Preliminary ⟨op, (Backing.handle op b).1⟩) :
    Backing.GainsMembers b (Backing.handle op b).2 := by
  generalize hx : (Backing.handle op b).1 = x at h
  cases h with
  | read oid found =>
    rw [Backing.handle_readObject]
    exact .refl b
  | enrol name oid => exact Backing.gainsMembers_addProjectMember (Prod.ext hx rfl)

/-- Making the call again is answered alike and changes nothing. -/
theorem Preliminary.again (h : Preliminary ⟨op, (Backing.handle op b).1⟩)
    (hg : Backing.GainsMembers (Backing.handle op b).2 c) : Backing.handle op c = ((Backing.handle op b).1, c) := by
  generalize hx : (Backing.handle op b).1 = x at h
  cases h with
  | read oid found =>
    rw [Backing.handle_readObject] at hg
    exact Prod.ext ((hg.readObject oid).trans hx) (Backing.handle_readObject oid c)
  | enrol name oid => exact hg.addProjectMember (Prod.ext hx rfl)

/-- A program that is stopped before it has done more than prepare comes to the same when it is run from there. -/
theorem run_stateAt_of_preliminary {α : Type} {p : Prog interface α} {n : Nat}
    (h : ∀ a ∈ (p.trace Backing.handle b).take n, Preliminary a) :
    Backing.GainsMembers b (p.stateAt Backing.handle n b) ∧
      p.run Backing.handle (p.stateAt Backing.handle n b) = p.run Backing.handle b := by
  induction p generalizing n b with
  | done a => cases n <;> exact ⟨.refl b, rfl⟩
  | call op next ih =>
    cases n with
    | zero => exact ⟨.refl b, rfl⟩
    | succ n =>
      rw [Prog.trace, List.take_succ_cons, List.forall_mem_cons] at h
      obtain ⟨hfirst, hrest⟩ := h
      obtain ⟨hgains, hrun⟩ := ih _ hrest
      refine ⟨hfirst.gainsMembers.trans hgains, ?_⟩
      rw [Prog.stateAt, Prog.run, Prog.run, hfirst.again hgains]
      exact hrun

end

end Catalog

namespace Ledger

variable {oid : Oid} {project : String} {b c : Backing} {α : Type}

/-! ## Calls that decide -/

/-- Whatever a program does, its last call does it. -/
def ChangesLast (p : CatalogM α) (b : Backing) : Prop :=
  ∀ a ∈ (p.run.trace Backing.handle b).dropLast, Catalog.Preliminary a

theorem changesLast_of_trace_eq_nil {p : CatalogM α} (h : p.run.trace Backing.handle b = []) : ChangesLast p b := by
  unfold ChangesLast
  rw [h]
  exact fun a ha => by cases ha

/-- After a call that has failed there is no other. -/
theorem changesLast_ask_error {op : Op} {e : CatalogError} (he : (Backing.handle op b).1 = .error e)
    (k : op.Result → CatalogM α) : ChangesLast (Catalog.ask op >>= k) b := by
  have hask : (Catalog.ask op).run.run Backing.handle b = (.error e, (Backing.handle op b).2) := Prod.ext he rfl
  unfold ChangesLast
  rw [trace_run_bind, hask]
  exact fun a ha => by cases ha

theorem changesLast_ask_bind {op : Op} (hop : ∀ x, Catalog.Preliminary ⟨op, .ok x⟩) {k : op.Result → CatalogM α}
    (hk : ∀ x c, Backing.handle op b = (.ok x, c) → ChangesLast (k x) c) : ChangesLast (Catalog.ask op >>= k) b := by
  cases hx : (Backing.handle op b).1 with
  | error e => exact changesLast_ask_error hx k
  | ok x =>
    have hrest := hk x _ (Prod.ext hx rfl)
    unfold ChangesLast at hrest ⊢
    rw [Ledger.trace_ask_bind hx]
    cases hlist : (k x).run.trace Backing.handle (Backing.handle op b).2 with
    | nil => exact fun a ha => by cases ha
    | cons a l =>
      rw [hlist] at hrest
      rw [List.dropLast_cons_cons, List.forall_mem_cons]
      exact ⟨hop x, hrest⟩

/-- Nothing is asked of a call after which there is no other. -/
theorem changesLast_ask {op : Op} {k : op.Result → CatalogM α}
    (hk : ∀ x c, Backing.handle op b = (.ok x, c) → (k x).run.trace Backing.handle c = []) :
    ChangesLast (Catalog.ask op >>= k) b := by
  cases hx : (Backing.handle op b).1 with
  | error e => exact changesLast_ask_error hx k
  | ok x =>
    unfold ChangesLast
    rw [Ledger.trace_ask_bind hx, hk x _ (Prod.ext hx rfl)]
    exact fun a ha => by cases ha

theorem changesLast_addObject_bind {k : Unit → CatalogM α} (hk : ∀ c, Backing.GainsMembers b c → ChangesLast (k ()) c) :
    ChangesLast (Projects.addObject oid project >>= k) b := by
  unfold Projects.addObject
  split
  · rw [pure_bind]
    exact hk b (.refl b)
  · refine changesLast_ask_bind (fun x => .enrol project oid) fun x c hx => ?_
    exact hk c (Backing.gainsMembers_addProjectMember hx)

theorem changesLast_addObjects_bind {k : Unit → CatalogM α} : ∀ {l : List String} {b : Backing},
    (∀ c, Backing.GainsMembers b c → ChangesLast (k ()) c) → ChangesLast (l.forM (Projects.addObject oid) >>= k) b
  | [], b, hk => by
    show ChangesLast (pure () >>= k) b
    rw [pure_bind]
    exact hk b (.refl b)
  | p :: l, b, hk => by
    show ChangesLast ((Projects.addObject oid p >>= fun _ => l.forM (Projects.addObject oid)) >>= k) b
    rw [bind_assoc]
    exact changesLast_addObject_bind fun c hc => changesLast_addObjects_bind fun d hd => hk d (hc.trans hd)

theorem changesLast_join (record : ObjectRecord) (project : String) (b : Backing) :
    ChangesLast (join record project) b := by
  unfold join
  split
  · exact changesLast_addObject_bind fun c _ => changesLast_ask fun x d _ => rfl
  · exact changesLast_of_trace_eq_nil rfl

theorem changesLast_put (oid : Oid) (size : Int) (project : String) (b : Backing) :
    ChangesLast (put oid size project) b := by
  unfold put
  split
  · exact changesLast_of_trace_eq_nil rfl
  · refine changesLast_ask_bind (fun x => .read oid x) fun x c hread => ?_
    cases x with
    | some r => exact changesLast_join r project c
    | none =>
      refine changesLast_addObject_bind fun d hd => changesLast_ask fun x e hinsert => ?_
      -- the record was missing and has not come to be since, so no other claim came first
      have hb : c = b := (congrArg Prod.snd hread).symm.trans (Backing.handle_readObject oid b)
      have hinserted : x = true := Backing.GainsMembers.insertObject (r := .pending oid size project)
        (congrArg Prod.fst hread) (hb ▸ hd) (congrArg Prod.fst hinsert)
      rw [hinserted]
      rfl

theorem changesLast_commit (oid : Oid) (b : Backing) : ChangesLast (commit oid) b := by
  unfold commit require
  rw [bind_assoc]
  refine changesLast_ask_bind (fun x => .read oid x) fun x c _ => ?_
  cases x with
  | none =>
    exact changesLast_of_trace_eq_nil rfl
  | some r =>
    dsimp only
    rw [pure_bind]
    split
    · exact changesLast_of_trace_eq_nil rfl
    · refine changesLast_addObjects_bind fun d hd => changesLast_ask fun x e _ => ?_
      cases x <;> rfl

/-! ## Arrivals -/

/-- A call by which an object comes into the catalog, or to the eyes of readers. -/
inductive Arrival where
  | put (oid : Oid) (size : Int) (project : String)
  | commit (oid : Oid)

def Arrival.program : Arrival → CatalogM ObjectRecord
  | put oid size project => Ledger.put oid size project
  | commit oid => Ledger.commit oid

theorem changesLast_program (j : Arrival) (b : Backing) : ChangesLast j.program b := by
  cases j with
  | put oid size project => exact changesLast_put oid size project b
  | commit oid => exact changesLast_commit oid b

theorem surfaces_addObject (reason : String) (oid : Oid) (project : String) :
    (Projects.addObject oid project).run.Surfaces (Catalog.failing reason) (.error (.backend reason)) := by
  unfold Projects.addObject
  split
  · trivial
  · exact surfaces_ask reason _

theorem surfaces_addObjects (reason : String) (oid : Oid) : ∀ l : List String,
    (l.forM (Projects.addObject oid)).run.Surfaces (Catalog.failing reason) (.error (.backend reason))
  | [] => trivial
  | p :: l => surfaces_run_bind (surfaces_addObject reason oid p) fun _ => surfaces_addObjects reason oid l

theorem surfaces_join (reason : String) (record : ObjectRecord) (project : String) :
    (join record project).run.Surfaces (Catalog.failing reason) (.error (.backend reason)) := by
  unfold join
  split
  · refine surfaces_run_bind (surfaces_addObject reason _ _) fun _ => ?_
    exact surfaces_run_bind (surfaces_ask reason _) fun _ => trivial
  · trivial

theorem surfaces_put (reason : String) (oid : Oid) (size : Int) (project : String) :
    (put oid size project).run.Surfaces (Catalog.failing reason) (.error (.backend reason)) := by
  unfold put
  split
  · trivial
  · refine surfaces_run_bind (surfaces_ask reason _) fun found => ?_
    cases found with
    | some r => exact surfaces_join reason r project
    | none =>
      refine surfaces_run_bind (surfaces_addObject reason _ _) fun _ => ?_
      refine surfaces_run_bind (surfaces_ask reason _) fun inserted => ?_
      split
      · trivial
      · refine surfaces_run_bind (surfaces_ask reason _) fun found => ?_
        cases found with
        | some r => exact surfaces_join reason r project
        | none => trivial

theorem surfaces_commit (reason : String) (oid : Oid) :
    (commit oid).run.Surfaces (Catalog.failing reason) (.error (.backend reason)) := by
  unfold commit require
  refine surfaces_run_bind (surfaces_run_bind (surfaces_ask reason _) fun found => ?_) fun r => ?_
  · cases found <;> trivial
  · split
    · trivial
    · refine surfaces_run_bind (surfaces_addObjects reason oid _) fun _ => ?_
      refine surfaces_run_bind (surfaces_ask reason _) fun changed => ?_
      split <;> trivial

theorem surfaces_program (reason : String) (j : Arrival) :
    j.program.run.Surfaces (Catalog.failing reason) (.error (.backend reason)) := by
  cases j with
  | put oid size project => exact surfaces_put reason oid size project
  | commit oid => exact surfaces_commit reason oid

/-- If a call of an arrival fails, the arrival fails with it. Records are then as they were, nothing is gone, and
repeating the arrival comes to what it would have come to. -/
theorem completed_by_repeating (j : Arrival) (b : Backing) {n : Nat}
    (hn : n < (j.program.run.trace Backing.handle b).length) (reason : String) :
    ∃ c, j.program.run.runFailing Backing.handle (Catalog.failing reason) n b = (.error (.backend reason), c) ∧
      b.GainsMembers c ∧ (∀ o, (Backing.handle (.readObject o) c).1 = (Backing.handle (.readObject o) b).1) ∧
        j.program.run.run Backing.handle c = j.program.run.run Backing.handle b := by
  have hpreliminary : ∀ a ∈ (j.program.run.trace Backing.handle b).take n, Catalog.Preliminary a := by
    intro a ha
    refine changesLast_program j b a (?_ : a ∈ List.dropLast _)
    rw [List.dropLast_eq_take]
    exact (List.take_prefix_take_left (by omega)).mem ha
  obtain ⟨hgains, hrun⟩ := Catalog.run_stateAt_of_preliminary hpreliminary
  exact ⟨_, (surfaces_program reason j).runFailing hn, hgains, hgains.readObject, hrun⟩

namespace Sample

def unlisted : Memory :=
  (Memory.empty.respond (.insertObject (.pending default 3 "p"))).2

end Sample

open Sample in
theorem completed_by_repeating_of_unlisted :
    let p := (Arrival.commit default).program.run
    let b := Backing.memory unlisted
    let q := (Arrival.put default 3 "p").program.run
    let t := Backing.relational .empty
    (p.trace Backing.handle b).length = 3 ∧ (q.trace Backing.handle t).length = 3 ∧
      (∃ c, p.runFailing Backing.handle (Catalog.failing "down") 2 b = (.error (.backend "down"), c) ∧
        (Backing.handle (.readProject "p") b).1 = .ok none ∧
          (Backing.handle (.readProject "p") c).1 = .ok (some ⟨"p", SortedSet.ofList [default]⟩) ∧
            p.run Backing.handle c = p.run Backing.handle b) ∧
        ∃ c, q.runFailing Backing.handle (Catalog.failing "down") 2 t = (.error (.backend "down"), c) ∧
          q.run Backing.handle c = q.run Backing.handle t := by
  intro p b q t
  have hcommit : (p.trace Backing.handle b).length = 3 := by decide +kernel
  have hput : (q.trace Backing.handle t).length = 3 := by decide +kernel
  have hfault : 2 < (p.trace Backing.handle b).length := by omega
  have hfault' : 2 < (q.trace Backing.handle t).length := by omega
  obtain ⟨c, hfailed, -, -, hagain⟩ := completed_by_repeating (.commit default) b hfault "down"
  obtain ⟨d, hfailed', -, -, hagain'⟩ := completed_by_repeating (.put default 3 "p") t hfault' "down"
  have hproject : (Backing.handle (.readProject "p")
      (p.runFailing Backing.handle (Catalog.failing "down") 2 b).2).1 =
        .ok (some ⟨"p", SortedSet.ofList [default]⟩) := by
    decide +kernel
  have hleft : (p.runFailing Backing.handle (Catalog.failing "down") 2 b).2 = c := congrArg Prod.snd hfailed
  rw [hleft] at hproject
  exact ⟨hcommit, hput, ⟨c, hfailed, by decide +kernel, hproject, hagain⟩, d, hfailed', hagain'⟩

end Ledger

end BlobDepot
