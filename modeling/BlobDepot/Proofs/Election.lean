import BlobDepot.Proofs.Claims

/-!
# Claims of one new object at once

When several operations claim an object that has no record yet, one of them creates the record, and the others
find it. However their calls are interleaved, with each other and with commits, all of them succeed, and the
record comes to refer to all of their projects: `one_creator`.
-/

namespace BlobDepot.Ledger

open Catalog (Backing Memory Op)
open Prog

variable {oid : Oid} {m : Memory} {c : Claim}

structure Contest (oid : Oid) (m : Memory) (phase : Nat → Option Claim) : Prop where
  knows : ∀ k c, phase k = some c → c.Knows oid m
  creator : ∀ r, m.objects.get? oid = some r → ∃ k c, phase k = some c ∧ c.Creates
  unique : ∀ i k c c', phase i = some c → phase k = some c' → c.Creates → c'.Creates → i = k
  origin : ∀ p, m.Refers oid p → p ≠ "" ∧ m.Member p oid ∧ ∃ k c, phase k = some c ∧ c.project = p

section
variable {m' : Memory} {phase : Nat → Option Claim} {k : Nat} {f : Option Claim}

theorem Contest.none (hm : m.objects.get? oid = none) : Contest oid m fun _ => none where
  knows k c hc := by cases hc
  creator r hr := by
    rw [hm] at hr
    cases hr
  unique i k c c' hc := by cases hc
  origin p hp := by
    obtain ⟨r, hr, -⟩ := hp
    rw [hm] at hr
    cases hr

theorem Contest.enter (h : Contest oid m phase) (hk : phase k = .none)
    (hf : ∀ c, f = some c → c.Knows oid m ∧ ¬ c.Creates) : Contest oid m (Pool.shift phase k f) := by
  have others : ∀ {i c}, phase i = some c → Pool.shift phase k f i = some c := by
    intro i c hc
    refine Pool.shift_eq_iff.mpr (.inr ⟨?_, hc⟩)
    rintro rfl
    rw [hk] at hc
    cases hc
  have creators : ∀ {i c}, Pool.shift phase k f i = some c → c.Creates → phase i = some c := by
    intro i c hc hcreates
    rcases Pool.shift_eq_iff.mp hc with ⟨-, hc⟩ | ⟨-, hc⟩
    · exact absurd hcreates (hf c hc).2
    · exact hc
  constructor
  · intro i c hc
    rcases Pool.shift_eq_iff.mp hc with ⟨-, hc⟩ | ⟨-, hc⟩
    · exact (hf c hc).1
    · exact h.knows i c hc
  · intro r hr
    obtain ⟨i, c, hc, hcreates⟩ := h.creator r hr
    exact ⟨i, c, others hc, hcreates⟩
  · intro i j c c' hc hc' hcreates hcreates'
    exact h.unique i j c c' (creators hc hcreates) (creators hc' hcreates') hcreates hcreates'
  · intro p hp
    obtain ⟨hne, hm, i, c, hc, hproject⟩ := h.origin p hp
    exact ⟨hne, hm, i, c, others hc, hproject⟩

theorem Contest.move (h : Contest oid m phase) (hm : Move oid m m' (phase k) f) :
    Contest oid m' (Pool.shift phase k f) := by
  -- Every earlier creator knows of a record, and a new one has found none.
  have apart : ∀ {c}, f = some c → c.Creates → ∀ {i c'}, phase i = some c' → ¬ c'.Creates := by
    intro c hc hcreates i c' hc' hcreates'
    obtain ⟨r, hr⟩ := (h.knows i c' hc').recorded hcreates'
    rw [hm.creates c hc hcreates] at hr
    cases hr
  constructor
  · intro i c hc
    rcases Pool.shift_eq_iff.mp hc with ⟨-, hc⟩ | ⟨-, hc⟩
    · exact hm.knows c hc
    · exact (h.knows i c hc).grows hm.grows
  · intro r hr
    rcases hm.appears r hr with ⟨r', hr'⟩ | ⟨c, hc, hcreates⟩
    · obtain ⟨i, c, hc, hcreates⟩ := h.creator r' hr'
      refine ⟨i, c, Pool.shift_eq_iff.mpr (.inr ⟨?_, hc⟩), hcreates⟩
      rintro rfl
      exact hm.rests c hc hcreates
    · exact ⟨k, c, Pool.shift_eq_iff.mpr (.inl ⟨rfl, hc⟩), hcreates⟩
  · intro i j c c' hc hc' hcreates hcreates'
    rcases Pool.shift_eq_iff.mp hc with ⟨hi, hc⟩ | ⟨-, hc⟩
    · rcases Pool.shift_eq_iff.mp hc' with ⟨hj, -⟩ | ⟨-, hc'⟩
      · exact hi.trans hj.symm
      · exact absurd hcreates' (apart hc hcreates hc')
    · rcases Pool.shift_eq_iff.mp hc' with ⟨-, hc'⟩ | ⟨-, hc'⟩
      · exact absurd hcreates (apart hc' hcreates' hc)
      · exact h.unique i j c c' hc hc' hcreates hcreates'
  · intro p hp
    rcases hm.refers p hp with hp | ⟨hne, hmember, c, hc, hproject⟩
    · obtain ⟨hne, hmember, i, c, hc, hproject⟩ := h.origin p hp
      refine ⟨hne, hm.grows.members p oid hmember, i, ?_⟩
      by_cases hi : i = k
      · have hd := hm.declared
        rw [← hi, hc] at hd
        obtain ⟨c', hc', hd⟩ := Option.map_eq_some_iff.mp hd
        exact ⟨c', Pool.shift_eq_iff.mpr (.inl ⟨hi, hc'⟩), (congrArg Prod.snd hd).trans hproject⟩
      · exact ⟨c, Pool.shift_eq_iff.mpr (.inr ⟨hi, hc⟩), hproject⟩
    · exact ⟨hne, hmember, k, c, Pool.shift_eq_iff.mpr (.inl ⟨rfl, hc⟩), hproject⟩

end

/-! ## Pools -/

/-- Whoever works on the object claims it or commits it, and nobody removes anything. -/
def Contended (oid : Oid) (p : Pool operations Backing) : Prop :=
  ∀ t ∈ p.tasks, t.job.Contends oid

structure Staged (oid : Oid) (p : Pool operations Backing) (phase : Nat → Option Claim) : Prop where
  claims : ∃ m, p.state.Holds m ∧ Contest oid m phase
  roles : ∀ k, (phase k).map Claim.declared = p.tasks[k]?.bind fun t => t.job.claim?

section
variable {p q : Pool operations Backing} {phase : Nat → Option Claim} {k : Nat}

theorem Staged.idle {b : Backing} (hb : b.Holds m) (hm : m.objects.get? oid = none) :
    Staged oid (.idle operations b) fun _ => none where
  claims := ⟨m, hb, .none hm⟩
  roles k := by simp [Pool.idle]

theorem Staged.start (h : Staged oid p phase) (j : Job) :
    Staged oid (p.start j) (Pool.shift phase p.tasks.length (entry j)) := by
  obtain ⟨m, hb, hc⟩ := h.claims
  have vacant : phase p.tasks.length = none := by
    have hr := h.roles p.tasks.length
    rw [List.getElem?_eq_none (Nat.le_refl _)] at hr
    exact Option.map_eq_none_iff.mp hr
  constructor
  · refine ⟨m, hb, hc.enter vacant fun c e => ?_⟩
    cases j with
    | put o size q =>
      cases e
      exact ⟨Claim.knows_initial size q m, Claim.not_creates (.inl rfl)⟩
    | commit o => cases e
    | remove o q => cases e
  · intro k
    by_cases hk : k = p.tasks.length
    · have last : (p.start j).tasks[p.tasks.length]? = some ⟨j, j.program⟩ := Pool.getElem?_start_length p j
      rw [hk, Pool.shift_self, last]
      cases j <;> rfl
    · have earlier : (p.start j).tasks[k]? = p.tasks[k]? := Pool.getElem?_start_of_ne hk
      rw [Pool.shift_of_ne _ _ hk, earlier]
      exact h.roles k

theorem declared_advance (c : Claim) (op : Op) (x : Catalog.interface.Answer op) :
    (c.advance op x).declared = c.declared := by
  unfold Claim.advance
  split <;> first | rfl | (split <;> rfl)

theorem Staged.call {j : Job} {op : Op} {next : Catalog.interface.Answer op → Prog Catalog.interface j.Result}
    {x : Catalog.interface.Answer op} {b : Backing} (h : Staged oid p phase)
    (hk : p.tasks[k]? = some ⟨j, .call op next⟩) (ha : (contest oid).allows op (phase k))
    (ht : Backing.handle.exactly op p.state x b) :
    Foreseen (phase k) op x ∧
      Staged oid (p.proceed k ⟨j, next x⟩ b) (Pool.shift phase k ((phase k).map (·.advance op x))) := by
  obtain ⟨m, hb, hc⟩ := h.claims
  have hop : op ≠ .close := by
    rintro rfl
    cases hf : phase k with
    | none =>
      rw [hf] at ha
      cases ha
    | some c =>
      rw [hf] at ha
      cases ha
  obtain ⟨hx, hb'⟩ := Catalog.Backing.handle_holds hb hop
  rw [show Backing.handle op p.state = (x, b) from ht] at hx hb'
  dsimp only at hx hb'
  subst hx
  have hplausible : Catalog.Plausible op (Except.ok (m.respond op).1) :=
    Catalog.plausible_of_handle hb.keyed (.inl rfl)
  constructor
  · refine ⟨⟨_, rfl⟩, fun c hf hbeaten => ?_, hplausible⟩
    rw [hf] at ha
    obtain ⟨r, hr⟩ := (hc.knows k c hf).beaten hbeaten
    cases op with
    | readObject o =>
      obtain ⟨rfl, -⟩ := ha
      simp only [Memory.respond, hr]
      trivial
    | _ => trivial
  · constructor
    · refine ⟨_, hb', hc.move ?_⟩
      cases hf : phase k with
      | none =>
        rw [hf] at ha
        exact move_of_neutral ha m
      | some c =>
        rw [hf] at ha
        exact move_of_permits (hc.knows k c hf) ha
    · intro i
      by_cases hi : i = k
      · have hr := h.roles k
        rw [hk] at hr
        rw [hi, Pool.shift_self, Pool.getElem?_proceed_self _ _ hk, Option.map_map]
        simp only [Function.comp_def, declared_advance]
        exact hr
      · rw [Pool.shift_of_ne _ _ hi, Pool.getElem?_proceed_of_ne hi]
        exact h.roles i

theorem staged_of_reaches {b : Backing} (hb : b.Holds m) (hm : m.objects.get? oid = none)
    (h : Pool.Reaches Backing.handle.exactly (Contended oid) (.idle operations b) q) :
    ∃ phase, Pool.Disciplined (contest oid) Settles q phase ∧ Staged oid q phase := by
  have begins : ∀ {p : Pool operations Backing} (j : Job), Contended oid (p.start j) →
      j.program.Follows (contest oid) (Settles j) (entry j) := by
    intro p j hp
    exact follows_contender (hp _ (List.mem_append_right _ (List.mem_singleton_self _)))
  refine (Pool.Reaches.invariant_of_kind (Staged oid) begins (fun j hg _ => hg.start j)
    (fun hg _ _ hk ha ht _ => ?_) h (fun t ht => by cases ht) (fun _ => none)
    (Pool.disciplined_idle _ _ b _) (.idle hb hm)).2
  obtain ⟨hforeseen, hstaged⟩ := hg.call hk ha ht
  exact ⟨_, ⟨hforeseen, rfl⟩, fun _ => hstaged⟩

/-! ## The outcome -/

def Answered (q : Pool operations Backing) : Prop :=
  ∀ t ∈ q.tasks, t.job.claim?.isSome = true → t.IsDone

/-- The claim at a place has created the record, with its size, and all others find that record. -/
structure Elected (oid : Oid) (q : Pool operations Backing) (k : Nat) (size : Int) : Prop where
  creator : ∃ project r, q.tasks[k]? = some ⟨.put oid size project, .done (Except.ok r)⟩
  results : ∀ (i : Nat) (n : Int) (project : String) x, q.tasks[i]? = some ⟨.put oid n project, .done x⟩ →
    ∃ r, x = .ok r ∧ r.size = size ∧ (r.existing = false ↔ i = k) ∧
      (project ≠ "" → r.projects.contains project = true ∧ ∃ p, Founded q.state project p ∧ p.contains oid = true)
  record : ∃ r, Recorded q.state oid r ∧ r.size = size ∧ (Answered q → ∀ project,
    r.projects.contains project = true ↔ project ≠ "" ∧ ∃ t ∈ q.tasks, ∃ n, t.job = .put oid n project)

theorem put_of_claim {j : Job} {n : Int} {project : String} (hj : j.Contends oid)
    (h : j.claim? = some (n, project)) : j = .put oid n project := by
  cases j with
  | put o size q =>
    cases h
    rw [hj.1]
  | commit o => cases h
  | remove o q => cases h

theorem Staged.result {n : Int} {project : String} {x : Except CatalogError ObjectRecord}
    (h : Staged oid q phase) (hd : Pool.Disciplined (contest oid) Settles q phase)
    (ht : q.tasks[k]? = some ⟨.put oid n project, .done x⟩) :
    ∃ c, phase k = some c ∧ c.project = project ∧ Shows x c := by
  have hsettles : Settles (.put oid n project) x (phase k) := follows_done.mp (hd k _ ht)
  obtain ⟨c, hc, hx⟩ := hsettles
  have hr := h.roles k
  rw [ht, hc] at hr
  exact ⟨c, hc, congrArg Prod.snd (Option.some.inj hr), hx⟩

theorem Staged.task (h : Staged oid q phase) (hq : Contended oid q) (hc : phase k = some c) :
    ∃ rest, q.tasks[k]? = some ⟨.put oid c.size c.project, rest⟩ := by
  have hr := h.roles k
  rw [hc] at hr
  obtain ⟨t, ht, hclaim⟩ := Option.bind_eq_some_iff.mp hr.symm
  obtain ⟨j, rest⟩ := t
  have hj : j = .put oid c.size c.project := put_of_claim (hq _ (List.mem_of_getElem? ht)) hclaim
  subst hj
  exact ⟨rest, ht⟩

/-- A claim that is settled is about the record that there is. -/
theorem Claim.Knows.of_settled {r : ObjectRecord} {size : Int} {creator : Bool} (h : c.Knows oid m)
    (hs : c.stage = .settled size creator) (hr : m.objects.get? oid = some r) :
    size = r.size ∧ (c.project ≠ "" → r.projects.contains c.project = true) := by
  obtain ⟨r', hr', hsize, hp⟩ := h.settled size creator hs
  rw [hr] at hr'
  cases hr'
  exact ⟨hsize.symm, hp⟩

theorem Claim.not_permits_settled {size : Int} {creator : Bool} {op : Op} (hs : c.stage = .settled size creator) :
    ¬ c.Permits oid op := by
  intro hp
  cases op <;> simp [Claim.Permits, hs] at hp

theorem Staged.answer {size : Int} {creator : Bool} (h : Staged oid q phase) (hq : Contended oid q)
    (hd : Pool.Disciplined (contest oid) Settles q phase) (hc : phase k = some c)
    (hs : c.stage = .settled size creator) :
    ∃ x, q.tasks[k]? = some ⟨.put oid c.size c.project, .done x⟩ := by
  obtain ⟨rest, ht⟩ := h.task hq hc
  cases rest with
  | done x => exact ⟨x, ht⟩
  | call op next =>
    have hallows := (follows_call.mp (hd k _ ht)).1
    rw [hc] at hallows
    exact absurd hallows (Claim.not_permits_settled hs)

theorem elected_of_staged {i : Nat} {n : Int} {project : String} {x : Except CatalogError ObjectRecord}
    (h : Staged oid q phase) (hq : Contended oid q) (hd : Pool.Disciplined (contest oid) Settles q phase)
    (ht : q.tasks[i]? = some ⟨.put oid n project, .done x⟩) : ∃ k size, Elected oid q k size := by
  obtain ⟨m, hb, hc⟩ := h.claims
  -- Some claim is settled, so there is a record, and it has a creator.
  obtain ⟨c, hci, -, n', creator, r', hs, -⟩ := h.result hd ht
  obtain ⟨r, hr, -⟩ := (hc.knows i c hci).settled n' creator hs
  obtain ⟨k, ck, hck, sk, hsk⟩ := hc.creator r hr
  obtain ⟨hsize, -⟩ := (hc.knows k ck hck).of_settled hsk hr
  have hdeclared := (hc.knows k ck hck).created sk hsk
  have refers : ∀ {i : Nat} {n p x}, q.tasks[i]? = some ⟨.put oid n p, .done x⟩ → p ≠ "" →
      r.projects.contains p = true := by
    intro i n p x ht hp
    obtain ⟨c, hci, rfl, n', creator, r', hs, -⟩ := h.result hd ht
    exact ((hc.knows i c hci).of_settled hs hr).2 hp
  refine ⟨k, r.size, ?_, ?_, r, (recorded_iff hb).mpr hr, rfl, fun hdone p => ⟨fun hp => ?_, ?_⟩⟩
  · obtain ⟨x, hk⟩ := h.answer hq hd hck hsk
    obtain ⟨c, hck', -, n', creator, r', -, rfl, -⟩ := h.result hd hk
    rw [← hdeclared, hsize] at hk
    exact ⟨_, r', hk⟩
  · intro i n p x ht
    obtain ⟨c, hci, rfl, n', creator, r', hs, rfl, hsize', hexisting, hp⟩ := h.result hd ht
    refine ⟨r', rfl, hsize'.trans ((hc.knows i c hci).of_settled hs hr).1, ⟨fun he => ?_, fun e => ?_⟩, fun hne => ?_⟩
    · rw [hexisting, Bool.not_eq_false'] at he
      rw [he] at hs
      exact hc.unique i k c ck hci hck ⟨n', hs⟩ ⟨sk, hsk⟩
    · rw [e, hck] at hci
      cases hci
      rw [hsk] at hs
      cases hs
      exact hexisting
    · obtain ⟨-, hmember, -⟩ := hc.origin c.project ⟨r, hr, refers ht hne⟩
      exact ⟨hp hne, (member_iff hb).mp hmember⟩
  · obtain ⟨hne, -, j, cj, hcj, rfl⟩ := hc.origin p ⟨r, hr, hp⟩
    obtain ⟨rest, hj⟩ := h.task hq hcj
    exact ⟨hne, _, List.mem_of_getElem? hj, cj.size, rfl⟩
  · intro hp
    obtain ⟨hne, t, ht, n, hj⟩ := hp
    obtain ⟨j, rest⟩ := t
    subst hj
    have hrest : ∃ x : Except CatalogError ObjectRecord, rest = .done x := hdone _ ht rfl
    obtain ⟨x, rfl⟩ := hrest
    obtain ⟨i, hi⟩ := List.getElem?_of_mem ht
    exact refers hi hne

/-- Claims of an object without a record, made at once and while it may be committed, succeed after no more than
six calls each. As soon as one of them has been answered there is one that has created the record, and when all
have been answered the record refers to the projects of all. -/
theorem one_creator {b : Backing} (hb : b.Holds m) (hn : ∀ r, ¬ Recorded b oid r)
    (h : Pool.Reaches Backing.handle.exactly (Contended oid) (.idle operations b) q) {i : Nat} {n : Int}
    {project : String} {x : Except CatalogError ObjectRecord}
    (ht : q.tasks[i]? = some ⟨.put oid n project, .done x⟩) :
    (∀ size project, (put oid size project).run.Within 6) ∧ ∃ k size, Elected oid q k size := by
  have hm : m.objects.get? oid = none := by
    cases hr : m.objects.get? oid with
    | none => rfl
    | some r => exact absurd ((recorded_iff hb).mpr hr) (hn r)
  have hq : Contended oid q := h.of_kind fun t ht => by cases ht
  obtain ⟨phase, hd, hs⟩ := staged_of_reaches hb hm h
  exact ⟨within_put oid, elected_of_staged hs hq hd ht⟩

end

/-! ## The second claim comes first -/

namespace Sample

def contends (oid : Oid) : Job → Bool
  | .put o size _ => o = oid && 0 ≤ size
  | .commit _ => true
  | .remove _ _ => false

theorem contends_iff {j : Job} : contends oid j = true ↔ j.Contends oid := by
  cases j <;> simp [contends, Job.Contends]

def contended (oid : Oid) (p : Pool operations Backing) : Bool :=
  p.tasks.all fun t => contends oid t.job

theorem contended_iff {p : Pool operations Backing} : contended oid p = true ↔ Contended oid p := by
  unfold contended Contended
  rw [List.all_eq_true]
  exact forall₂_congr fun t _ => contends_iff

/-- Both claims find no record, and the object is committed before the loser joins. -/
def overtaking : List (Job ⊕ Nat) :=
  [.inl (.put object 3 "p"), .inl (.put object 5 "q"), .inr 0, .inr 1, .inr 0, .inr 1, .inr 1, .inr 0,
    .inl (.commit object), .inr 2, .inr 0, .inr 2, .inr 2, .inr 0, .inr 0]

end Sample

open Sample in
theorem one_creator_overtaking : ∃ (q : Pool operations Backing) (r : ObjectRecord),
    Pool.Reaches Backing.handle.exactly (Contended object) (.idle operations empty) q ∧
      q.tasks[0]? = some ⟨.put object 3 "p", .done (Except.ok r)⟩ ∧ q.tasks.length = 3 ∧ Answered q ∧
      ∃ k size, Elected object q k size := by
  obtain ⟨q, hq, hend⟩ := Option.map_eq_some_iff.mp (show
    ((Pool.idle operations empty).drive? Backing.handle (contended object) overtaking).map
      (fun q => decide (q.AtRest ∧ q.tasks.length = 3 ∧ q.tasks[0]?.map (claimed object 3 "p") = some true)) =
        some true by decide +kernel)
  obtain ⟨hrest, hthree, hput⟩ := of_decide_eq_true hend
  have reached : Pool.Reaches Backing.handle.exactly (Contended object) (.idle operations empty) q :=
    Pool.reaches_drive (fun _ _ => rfl) (fun _ => contended_iff.mp) hq
  have hdone : Answered q := fun t ht _ => hrest t ht
  have hnone : ∀ r, ¬ Recorded empty object r := by
    intro r hr
    cases hr
  obtain ⟨t, ht, hc⟩ := Option.map_eq_some_iff.mp hput
  obtain ⟨r, rfl⟩ := eq_of_claimed hc
  exact ⟨q, r, reached, ht, hthree, hdone, (one_creator holds_empty hnone reached ht).2⟩

end BlobDepot.Ledger
