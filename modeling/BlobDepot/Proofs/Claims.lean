import BlobDepot.Proofs.Lifecycle

/-!
# What claims come to know

An operation that claims an object looks for a record, inserts one if there is none, and joins the record that it
finds. With respect to one object it goes through stages, and in each stage something is known of the catalog.
Each call of a claim, and each call of somebody else, is a move that keeps what is known.
-/

namespace BlobDepot.Ledger

open Catalog (Backing Memory Op)
open Prog

/-! ## Claims -/

inductive Stage where
  /-- No record has been found. -/
  | seeking
  /-- The insertion of a record has been refused. -/
  | beaten
  /-- A record of this size has been found, and it is to refer to the project. -/
  | met (size : Int)
  /-- The record has this size and refers to the project. -/
  | settled (size : Int) (creator : Bool)
  deriving DecidableEq

/-- What an operation claims the object for, and how far it has come. -/
structure Claim where
  size : Int
  project : String
  /-- The project lists the object. -/
  joined : Bool
  stage : Stage

namespace Job

def claim? : Job → Option (Int × String)
  | put _ size project => some (size, project)
  | _ => none

end Job

namespace Claim

def initial (size : Int) (project : String) : Claim :=
  ⟨size, project, false, .seeking⟩

def declared (c : Claim) : Int × String :=
  (c.size, c.project)

def meet (c : Claim) (r : ObjectRecord) : Claim :=
  { c with
    stage := if c.project ≠ "" ∧ !r.projects.contains c.project then .met r.size else .settled r.size false }

def advance (c : Claim) : (op : Op) → Catalog.interface.Answer op → Claim
  | .readObject _, (Except.ok (some r)) => c.meet r
  | .addProjectMember _ _, (Except.ok _) => { c with joined := true }
  | .insertObject _, (Except.ok true) => { c with stage := .settled c.size true }
  | .insertObject _, (Except.ok false) => { c with stage := .beaten }
  | .addObjectProject _ _, (Except.ok _) =>
    match c.stage with
    | .met size => { c with stage := .settled size false }
    | _ => c
  | _, _ => c

def Permits (oid : Oid) (c : Claim) : Op → Prop
  | .readObject o => o = oid ∧ (c.stage = .seeking ∨ c.stage = .beaten)
  | .addProjectMember q o =>
    o = oid ∧ q = c.project ∧ q ≠ "" ∧ (c.stage = .seeking ∨ ∃ size, c.stage = .met size)
  | .insertObject r =>
    r = .pending oid c.size c.project ∧ c.stage = .seeking ∧ (c.project ≠ "" → c.joined = true)
  | .addObjectProject o q => o = oid ∧ q = c.project ∧ q ≠ "" ∧ c.joined = true ∧ ∃ size, c.stage = .met size
  | _ => False

end Claim

def Neutral (oid : Oid) : Op → Prop
  | .insertObject r => r.oid ≠ oid
  | .addObjectProject o _ => o ≠ oid
  | op => Keeping op

def Found : (op : Op) → Catalog.interface.Answer op → Prop
  | .readObject _, (Except.ok none) => False
  | _, _ => True

/-- Answers while nothing fails. A record that has been in the way of an insertion is there. -/
structure Foreseen (f : Option Claim) (op : Op) (x : Catalog.interface.Answer op) : Prop where
  succeeds : ∃ y, x = Except.ok y
  found : ∀ c, f = some c → c.stage = .beaten → Found op x
  fits : Catalog.Plausible op x

def contest (oid : Oid) : Discipline Catalog.interface (Option Claim) where
  allows op
    | some c => c.Permits oid op
    | none => Neutral oid op
  leads op f x f' := Foreseen f op x ∧ f' = f.map (·.advance op x)

def Shows (x : Except CatalogError ObjectRecord) (c : Claim) : Prop :=
  ∃ size creator r, c.stage = .settled size creator ∧ x = .ok r ∧ r.size = size ∧ r.existing = !creator ∧
    (c.project ≠ "" → r.projects.contains c.project = true)

def Settles : (j : Job) → j.Result → Option Claim → Prop
  | .put _ _ _, x, f => ∃ c, f = some c ∧ Shows x c
  | .commit _, _, f | .remove _ _, _, f => f = none

def entry : Job → Option Claim
  | .put _ size project => some (.initial size project)
  | _ => none

variable {oid : Oid} {project : String} {m : Memory} {c : Claim}

/-! ## Operations -/

theorem follows_foreseen (op : Op) {want : Catalog.interface.Answer op → Option Claim → Prop}
    (hp : c.Permits oid op) (hs : ∀ y, Foreseen (some c) op (Except.ok y) →
      want (Except.ok y) (some (c.advance op (Except.ok y)))) :
    (Catalog.ask op).run.Follows (contest oid) want (some c) := by
  refine (Depot.follows_ask op).mpr ⟨hp, fun x f' hl => ?_⟩
  obtain ⟨hforeseen, rfl⟩ := hl
  obtain ⟨y, rfl⟩ := hforeseen.succeeds
  exact hs y hforeseen

theorem follows_meet {r : ObjectRecord} (hr : r.oid = oid) :
    (join r c.project).run.Follows (contest oid) (fun x f => ∃ c, f = some c ∧ Shows x c) (some (c.meet r)) := by
  unfold join Claim.meet
  by_cases hp : c.project ≠ "" ∧ !r.projects.contains c.project
  · rw [if_pos hp, if_pos hp]
    unfold Projects.addObject
    rw [if_neg hp.1, follows_run_bind, hr]
    have permits : ({ c with stage := .met r.size } : Claim).Permits oid (.addProjectMember c.project oid) :=
      ⟨rfl, rfl, hp.1, .inr ⟨_, rfl⟩⟩
    refine follows_foreseen _ permits fun y _ => ?_
    dsimp only
    rw [follows_run_bind]
    have permits : ({ c with joined := true, stage := .met r.size } : Claim).Permits oid
        (.addObjectProject oid c.project) := ⟨rfl, rfl, hp.1, rfl, _, rfl⟩
    refine follows_foreseen _ permits fun y _ => ?_
    refine follows_done.mpr ⟨_, rfl, r.size, false, _, rfl, rfl, rfl, rfl, fun _ => ?_⟩
    exact SortedSet.contains_add.mpr (.inl rfl)
  · rw [if_neg hp, if_neg hp]
    refine follows_done.mpr ⟨_, rfl, r.size, false, _, rfl, rfl, rfl, rfl, fun hne => ?_⟩
    rw [not_and, Bool.not_eq_true', Bool.not_eq_false] at hp
    exact hp hne

theorem follows_enlist {want : Except CatalogError Unit → Option Claim → Prop} (hs : c.stage = .seeking)
    (hw : ∀ c' : Claim, c'.declared = c.declared → c'.stage = .seeking → (c'.project ≠ "" → c'.joined = true) →
      want (.ok ()) (some c')) :
    (Projects.addObject oid c.project).run.Follows (contest oid) want (some c) := by
  unfold Projects.addObject
  by_cases hp : c.project = ""
  · rw [if_pos hp]
    exact follows_done.mpr (hw c rfl hs fun hne => absurd hp hne)
  · rw [if_neg hp]
    have permits : c.Permits oid (.addProjectMember c.project oid) := ⟨rfl, rfl, hp, .inl hs⟩
    exact follows_foreseen _ permits fun y _ => hw { c with joined := true } rfl hs fun _ => rfl

theorem follows_claim (hs : c.stage = .seeking) (hsize : 0 ≤ c.size) :
    (put oid c.size c.project).run.Follows (contest oid) (fun x f => ∃ c, f = some c ∧ Shows x c) (some c) := by
  unfold put
  rw [if_neg (by omega), follows_run_bind]
  refine follows_foreseen (.readObject oid) ⟨rfl, .inl hs⟩ fun y hy => ?_
  cases y with
  | some r => exact follows_meet hy.fits
  | none =>
    dsimp only
    rw [follows_run_bind]
    refine follows_enlist hs fun c' hd hs' hj => ?_
    obtain ⟨hsize', hproject⟩ := Prod.mk.inj hd
    dsimp only
    rw [← hsize', ← hproject, follows_run_bind]
    refine follows_foreseen (.insertObject _) ⟨rfl, hs', hj⟩ fun y _ => ?_
    cases y with
    | true =>
      refine follows_done.mpr ⟨_, rfl, c'.size, true, _, rfl, rfl, rfl, rfl, fun hne => ?_⟩
      exact Memory.contains_pending.mpr ⟨hne, rfl⟩
    | false =>
      dsimp only
      rw [if_neg (by simp), follows_run_bind]
      refine follows_foreseen (.readObject oid) ⟨rfl, .inr rfl⟩ fun y hy => ?_
      cases y with
      | some r => exact follows_meet hy.fits
      | none => exact absurd (hy.found _ rfl rfl) id

theorem follows_bystander (o : Oid) :
    (commit o).run.Follows (contest oid) (fun _ f => f = none) none := by
  have calls : (commit o).run.Calls (Neutral oid) := calls_commit trivial (fun p => trivial) rfl
  have stays : ∀ (op : Op) (f : Option Claim), Neutral oid op → f = none → (contest oid).allows op f ∧
      ∀ x f', (contest oid).leads op f x f' → f' = none := by
    intro op f hop hf
    subst hf
    refine ⟨hop, fun x f' hl => ?_⟩
    rw [hl.2]
    rfl
  exact calls.follows stays rfl

def Job.Contends (oid : Oid) : Job → Prop
  | .put o size _ => o = oid ∧ 0 ≤ size
  | .commit _ => True
  | .remove _ _ => False

theorem follows_contender {j : Job} (hj : j.Contends oid) :
    j.program.Follows (contest oid) (Settles j) (entry j) := by
  cases j with
  | put o size q =>
    obtain ⟨rfl, hsize⟩ := hj
    have hs : (Claim.initial size q).stage = .seeking := rfl
    exact follows_claim hs hsize
  | commit o => exact follows_bystander o
  | remove o q => cases hj

/-! ### All of them end -/

theorem within_ask (op : Op) (n : Nat) : (Catalog.ask op).run.Within (n + 1) :=
  within_perform (I := Catalog.interface) op

theorem within_addObject (oid : Oid) (project : String) : (Projects.addObject oid project).run.Within 1 := by
  unfold Projects.addObject
  split
  · exact within_done _
  · exact within_ask _ 0

theorem within_join (r : ObjectRecord) (project : String) : (join r project).run.Within 2 := by
  unfold join
  split
  · refine within_run_bind (n := 1) (k := 1) (within_addObject _ _) fun _ => ?_
    exact within_run_bind (n := 1) (k := 0) (within_ask _ 0) fun _ => within_done _
  · exact within_done _

theorem within_put (oid : Oid) (size : Int) (project : String) : (put oid size project).run.Within 6 := by
  unfold put
  split
  · exact within_done _
  · refine within_run_bind (n := 1) (k := 5) (within_ask _ 0) fun x => ?_
    cases x with
    | some r => exact (within_join r project).mono (by omega)
    | none =>
      refine within_run_bind (n := 1) (k := 4) (within_addObject _ _) fun _ => ?_
      refine within_run_bind (n := 1) (k := 3) (within_ask _ 0) fun b => ?_
      split
      · exact within_done _
      · refine within_run_bind (n := 1) (k := 2) (within_ask _ 0) fun x => ?_
        cases x with
        | some r => exact within_join r project
        | none => exact within_done _

/-! ## What is known -/

namespace Claim

structure Knows (oid : Oid) (m : Memory) (c : Claim) : Prop where
  joined : c.joined = true → m.Member c.project oid
  beaten : c.stage = .beaten → ∃ r, m.objects.get? oid = some r
  met : ∀ size, c.stage = .met size → ∃ r, m.objects.get? oid = some r ∧ r.size = size
  settled : ∀ size creator, c.stage = .settled size creator → ∃ r, m.objects.get? oid = some r ∧
    r.size = size ∧ (c.project ≠ "" → r.projects.contains c.project = true)
  created : ∀ size, c.stage = .settled size true → size = c.size

def Creates (c : Claim) : Prop :=
  ∃ size, c.stage = .settled size true

theorem Knows.grows {m' : Memory} (h : c.Knows oid m) (hg : Grows m m') : c.Knows oid m' where
  joined hj := hg.members _ _ (h.joined hj)
  beaten hs := by
    obtain ⟨r, hr⟩ := h.beaten hs
    obtain ⟨r', hr', -⟩ := hg.records oid r hr
    exact ⟨r', hr'⟩
  met size hs := by
    obtain ⟨r, hr, hsize⟩ := h.met size hs
    obtain ⟨r', hr', hsize', -⟩ := hg.records oid r hr
    exact ⟨r', hr', hsize'.trans hsize⟩
  settled size creator hs := by
    obtain ⟨r, hr, hsize, hp⟩ := h.settled size creator hs
    obtain ⟨r', hr', hsize', -, hrefs⟩ := hg.records oid r hr
    exact ⟨r', hr', hsize'.trans hsize, fun hne => hrefs _ (hp hne)⟩
  created := h.created

theorem Knows.recorded (h : c.Knows oid m) (hc : c.Creates) : ∃ r, m.objects.get? oid = some r := by
  obtain ⟨size, hs⟩ := hc
  obtain ⟨r, hr, -⟩ := h.settled size true hs
  exact ⟨r, hr⟩

theorem knows_initial (size : Int) (project : String) (m : Memory) : (initial size project).Knows oid m where
  joined h := by cases h
  beaten h := by cases h
  met _ h := by cases h
  settled _ _ h := by cases h
  created _ h := by cases h

end Claim

/-- What a call makes of the catalog and of the claim of its caller. -/
structure Move (oid : Oid) (m m' : Memory) (f f' : Option Claim) : Prop where
  grows : Grows m m'
  declared : f'.map Claim.declared = f.map Claim.declared
  knows : ∀ c, f' = some c → c.Knows oid m'
  /-- A record that appears has been created. -/
  appears : ∀ r, m'.objects.get? oid = some r → (∃ r, m.objects.get? oid = some r) ∨ ∃ c, f' = some c ∧ c.Creates
  /-- A record is created where there was none. -/
  creates : ∀ c, f' = some c → c.Creates → m.objects.get? oid = none
  rests : ∀ c, f = some c → ¬ c.Creates
  refers : ∀ p, m'.Refers oid p → m.Refers oid p ∨
    p ≠ "" ∧ m'.Member p oid ∧ ∃ c, f' = some c ∧ c.project = p

theorem Neutral.keeping {op : Op} (h : Neutral oid op) : Keeping op := by
  cases op with
  | insertObject r => trivial
  | addObjectProject o q => trivial
  | _ => exact h

theorem move_of_neutral {op : Op} (hop : Neutral oid op) (m : Memory) : Move oid m (m.respond op).2 none none where
  grows := grows_respond op hop.keeping m
  declared := rfl
  knows c hc := by cases hc
  appears r hr := by
    cases hm : m.objects.get? oid with
    | some r => exact .inl ⟨r, rfl⟩
    | none =>
      obtain ⟨s, rfl, hs, -⟩ := Memory.origin hm hr
      exact absurd hs hop
  creates c hc := by cases hc
  rests c hc := by cases hc
  refers p hp := by
    rw [Memory.refers_respond] at hp
    left
    cases op with
    | insertObject s =>
      rcases hp with hp | ⟨-, hs, -⟩
      · exact hp
      · exact absurd hs.symm hop
    | addObjectProject o q =>
      rcases hp with hp | ⟨-, ho, -⟩
      · exact hp
      · exact absurd ho.symm hop
    | removeObjectProject o q => cases hop
    | deleteObject o => cases hop
    | _ => exact hp

section
variable {r : ObjectRecord} {size : Int}

theorem Claim.not_creates (h : c.stage = .seeking ∨ c.stage = .beaten ∨ ∃ size, c.stage = .met size) :
    ¬ c.Creates := by
  intro hc
  obtain ⟨n, hc⟩ := hc
  rcases h with h | h | ⟨size, h⟩
  all_goals
    rw [h] at hc
    cases hc

theorem Claim.not_creates_meet : ¬ (c.meet r).Creates := by
  intro hc
  obtain ⟨n, hc⟩ := hc
  unfold Claim.meet at hc
  dsimp only at hc
  split at hc <;> cases hc

theorem Claim.Knows.find (h : c.Knows oid m) (hr : m.objects.get? oid = some r) :
    ({ c with stage := .met r.size } : Claim).Knows oid m where
  joined := h.joined
  beaten _ := ⟨r, hr⟩
  met size hs := by
    cases hs
    exact ⟨r, hr, rfl⟩
  settled size creator hs := by cases hs
  created size hs := by cases hs

theorem Claim.Knows.settle {creator : Bool} (h : c.Knows oid m) (hr : m.objects.get? oid = some r)
    (hp : c.project ≠ "" → r.projects.contains c.project = true) (hc : creator = true → r.size = c.size) :
    ({ c with stage := .settled r.size creator } : Claim).Knows oid m where
  joined := h.joined
  beaten _ := ⟨r, hr⟩
  met size hs := by cases hs
  settled size creator hs := by
    cases hs
    exact ⟨r, hr, rfl, hp⟩
  created size hs := by
    cases hs
    exact hc rfl

theorem Claim.Knows.meet (h : c.Knows oid m) (hr : m.objects.get? oid = some r) : (c.meet r).Knows oid m := by
  unfold Claim.meet
  by_cases hp : c.project ≠ "" ∧ !r.projects.contains c.project
  · rw [if_pos hp]
    exact h.find hr
  · rw [if_neg hp]
    rw [not_and, Bool.not_eq_true', Bool.not_eq_false] at hp
    exact h.settle hr hp fun hc => by cases hc

/-- A claim goes on, and no record appears. -/
theorem Move.onward {m' : Memory} {c' : Claim} (hg : Grows m m') (hd : c'.declared = c.declared)
    (hk : c'.Knows oid m') (hs : ¬ c.Creates) (hs' : ¬ c'.Creates)
    (ha : ∀ r, m'.objects.get? oid = some r → ∃ r, m.objects.get? oid = some r)
    (hp : ∀ p, m'.Refers oid p → m.Refers oid p ∨ p ≠ "" ∧ m'.Member p oid ∧ c'.project = p) :
    Move oid m m' (some c) (some c') where
  grows := hg
  declared := congrArg some hd
  knows := by
    intro d e
    cases e
    exact hk
  appears r hr := .inl (ha r hr)
  creates := by
    intro d e hc
    cases e
    exact absurd hc hs'
  rests := by
    intro d e
    cases e
    exact hs
  refers p h := by
    rcases hp p h with h | ⟨hne, hm, e⟩
    · exact .inl h
    · exact .inr ⟨hne, hm, c', rfl, e⟩

theorem move_of_read (h : c.Knows oid m) (hs : c.stage = .seeking ∨ c.stage = .beaten) :
    Move oid m m (some c) (some (c.advance (.readObject oid) (Except.ok (m.objects.get? oid)))) := by
  have rests : ¬ c.Creates := Claim.not_creates (hs.elim .inl fun hs => .inr (.inl hs))
  cases hr : m.objects.get? oid with
  | none => exact .onward (.refl m) rfl h rests rests (fun r hr => ⟨r, hr⟩) fun p => .inl
  | some r => exact .onward (.refl m) rfl (h.meet hr) rests Claim.not_creates_meet (fun r hr => ⟨r, hr⟩) fun p => .inl

theorem move_of_enlist (h : c.Knows oid m) (hs : ¬ c.Creates) :
    Move oid m (m.respond (.addProjectMember c.project oid)).2 (some c) (some { c with joined := true }) := by
  have hg : Grows m (m.respond (.addProjectMember c.project oid)).2 :=
    grows_respond (.addProjectMember c.project oid) trivial m
  have hk := h.grows hg
  have hk' : ({ c with joined := true } : Claim).Knows oid (m.respond (.addProjectMember c.project oid)).2 := by
    refine ⟨fun _ => ?_, hk.beaten, hk.met, hk.settled, hk.created⟩
    exact Memory.member_addProjectMember m c.project oid
  refine .onward hg rfl hk' hs hs (fun r hr => ⟨r, hr⟩) fun p hp => ?_
  rw [Memory.refers_respond] at hp
  exact .inl hp

theorem move_of_refused (h : c.Knows oid m) (hs : c.stage = .seeking) (hr : m.objects.get? oid = some r) :
    Move oid m m (some c) (some { c with stage := .beaten }) := by
  have rests : ¬ c.Creates := Claim.not_creates (.inl hs)
  have rests' : ¬ ({ c with stage := .beaten } : Claim).Creates := Claim.not_creates (.inr (.inl rfl))
  have hk : ({ c with stage := .beaten } : Claim).Knows oid m := by
    refine ⟨h.joined, fun _ => ⟨r, hr⟩, fun size hm => ?_, fun size creator hm => ?_, fun size hm => ?_⟩
    all_goals cases hm
  exact .onward (.refl m) rfl hk rests rests' (fun r hr => ⟨r, hr⟩) fun p => .inl

theorem move_of_insert (h : c.Knows oid m) (hs : c.stage = .seeking) (hj : c.project ≠ "" → c.joined = true)
    (hr : m.objects.get? oid = none) :
    Move oid m (m.respond (.insertObject (.pending oid c.size c.project))).2 (some c)
      (some { c with stage := .settled c.size true }) := by
  have hg : Grows m (m.respond (.insertObject (.pending oid c.size c.project))).2 :=
    grows_respond (.insertObject (.pending oid c.size c.project)) trivial m
  have hrecord : (m.respond (.insertObject (.pending oid c.size c.project))).2.objects.get? oid =
      some (.pending oid c.size c.project) := by
    rw [Memory.objects_insertObject]
    exact if_pos ⟨SortedMap.contains_eq_false_iff.mpr hr, rfl⟩
  have rests : ¬ c.Creates := Claim.not_creates (.inl hs)
  refine ⟨hg, rfl, fun d hd => ?_, fun r _ => .inr ⟨_, rfl, c.size, rfl⟩, fun d hd hc => hr, fun d hd => ?_,
    fun p hp => ?_⟩
  · cases hd
    exact (h.grows hg).settle hrecord (fun hne => Memory.contains_pending.mpr ⟨hne, rfl⟩) fun _ => rfl
  · cases hd
    exact rests
  · obtain ⟨r, hr, hc⟩ := hp
    rw [hrecord] at hr
    cases hr
    obtain ⟨hne, rfl⟩ := Memory.contains_pending.mp hc
    exact .inr ⟨hne, hg.members _ _ (h.joined (hj hne)), _, rfl, rfl⟩

theorem move_of_add (h : c.Knows oid m) (hp : c.project ≠ "") (hj : c.joined = true) (hs : c.stage = .met size) :
    Move oid m (m.respond (.addObjectProject oid c.project)).2 (some c)
      (some { c with stage := .settled size false }) := by
  have hg : Grows m (m.respond (.addObjectProject oid c.project)).2 :=
    grows_respond (.addObjectProject oid c.project) trivial m
  obtain ⟨r, hr, hsize⟩ := h.met size hs
  obtain ⟨r', hr', hsize', -⟩ := hg.records oid r hr
  have hcontains : r'.projects.contains c.project = true := by
    obtain ⟨r'', hr'', hc⟩ := Memory.refers_addObjectProject hr c.project
    rw [hr'] at hr''
    cases hr''
    exact hc
  have rests : ¬ c.Creates := Claim.not_creates (.inr (.inr ⟨size, hs⟩))
  have rests' : ¬ ({ c with stage := .settled size false } : Claim).Creates := by
    intro hc
    obtain ⟨n, hc⟩ := hc
    cases hc
  have hk : ({ c with stage := .settled size false } : Claim).Knows oid
      (m.respond (.addObjectProject oid c.project)).2 := by
    rw [← hsize, ← hsize']
    exact (h.grows hg).settle hr' (fun _ => hcontains) fun hc => by cases hc
  refine .onward hg rfl hk rests rests' (fun r' hr' => ⟨r, hr⟩) fun p hm => ?_
  rw [Memory.refers_respond] at hm
  rcases hm with hm | ⟨-, -, rfl⟩
  · exact .inl hm
  · exact .inr ⟨hp, hg.members _ _ (h.joined hj), rfl⟩

/-- What a claim is permitted to call is in order. -/
theorem move_of_permits {op : Op} (h : c.Knows oid m) (hp : c.Permits oid op) :
    Move oid m (m.respond op).2 (some c) (some (c.advance op (Except.ok (m.respond op).1))) := by
  cases op with
  | readObject o =>
    obtain ⟨rfl, hs⟩ := hp
    exact move_of_read h hs
  | addProjectMember q o =>
    obtain ⟨rfl, rfl, -, hs⟩ := hp
    have rests : ¬ c.Creates := Claim.not_creates (hs.elim .inl fun hs => .inr (.inr hs))
    exact move_of_enlist h rests
  | insertObject r =>
    obtain ⟨rfl, hs, hj⟩ := hp
    cases hr : m.objects.get? oid with
    | none =>
      have hc : m.objects.contains (ObjectRecord.pending oid c.size c.project).oid = false :=
        SortedMap.contains_eq_false_iff.mpr hr
      have hmove := move_of_insert h hs hj hr
      have hyes : (m.respond (.insertObject (.pending oid c.size c.project))).1 = true := by
        simp only [Memory.respond, hc]
        rfl
      rw [hyes]
      exact hmove
    | some r =>
      have hc : m.objects.contains (ObjectRecord.pending oid c.size c.project).oid = true :=
        SortedMap.contains_iff.mpr ⟨r, hr⟩
      have hno : m.respond (.insertObject (.pending oid c.size c.project)) = (false, m) := by
        simp only [Memory.respond, hc]
        rfl
      rw [hno]
      exact move_of_refused h hs hr
  | addObjectProject o q =>
    obtain ⟨rfl, rfl, hne, hj, size, hs⟩ := hp
    have hmove := move_of_add h hne hj hs
    unfold Claim.advance
    dsimp only
    rw [hs]
    exact hmove
  | _ => cases hp

end

end BlobDepot.Ledger
