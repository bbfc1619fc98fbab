import BlobDepot.Proofs.Bookkeeping

/-!
# Claims and commits side by side

The calls of operations of the ledger may be interleaved in any way. While nothing is taken out of a project,
each record that refers to the project is listed by it. While nothing is taken out at all, records stay as they
are but for becoming committed and gaining projects, and projects but for gaining objects.
-/

namespace BlobDepot.Ledger

open Catalog (Backing Memory Op)
open Prog

abbrev calls : Transition Catalog.interface Backing :=
  Handler.orFailing Catalog.failure Backing.handle

/-! ## What a catalog tells -/

def Recorded (b : Backing) (oid : Oid) (r : ObjectRecord) : Prop :=
  (Backing.handle (.readObject oid) b).1 = Except.ok (some r)

def Founded (b : Backing) (project : String) (x : ProjectRecord) : Prop :=
  (Backing.handle (.readProject project) b).1 = Except.ok (some x)

/-- The projects that a record refers to list the object. -/
def Listed (b : Backing) : Prop :=
  ∀ oid r, Recorded b oid r → ∀ project, r.projects.contains project = true →
    ∃ x, Founded b project x ∧ x.contains oid = true

/-- Nothing is lost from one catalog to another. -/
structure Grown (b b' : Backing) : Prop where
  records : ∀ oid r, Recorded b oid r → ∃ r', Recorded b' oid r' ∧ r'.size = r.size ∧
    (r.isCommitted = true → r'.isCommitted = true) ∧
    ∀ project, r.projects.contains project = true → r'.projects.contains project = true
  projects : ∀ project x, Founded b project x → ∃ x', Founded b' project x' ∧
    ∀ oid, x.contains oid = true → x'.contains oid = true

section
variable {b : Backing} {m : Memory} {oid : Oid} {project : String}

theorem recorded_iff (h : b.Holds m) {r : ObjectRecord} :
    Recorded b oid r ↔ m.objects.get? oid = some r := by
  have hop : Op.readObject oid ≠ .close := by simp
  have ha := (Backing.handle_holds h hop).1
  unfold Recorded
  rw [ha]
  exact ⟨fun e => Except.ok.inj e, fun e => congrArg Except.ok e⟩

theorem founded_iff (h : b.Holds m) {x : ProjectRecord} :
    Founded b project x ↔ ∃ oids, m.projects.get? project = some oids ∧ x = ⟨project, oids⟩ := by
  have hop : Op.readProject project ≠ .close := by simp
  have ha := (Backing.handle_holds h hop).1
  have hx : (m.respond (.readProject project)).1 =
      (m.projects.get? project).map fun oids => ⟨project, oids⟩ := rfl
  unfold Founded
  rw [ha, hx]
  constructor
  · intro e
    obtain ⟨oids, ho, hx⟩ := Option.map_eq_some_iff.mp (Except.ok.inj e)
    exact ⟨oids, ho, hx.symm⟩
  · intro e
    obtain ⟨oids, ho, rfl⟩ := e
    rw [ho]; rfl

theorem member_iff (h : b.Holds m) :
    m.Member project oid ↔ ∃ x, Founded b project x ∧ x.contains oid = true := by
  constructor
  · intro hm
    obtain ⟨oids, ho, hc⟩ := hm
    exact ⟨_, (founded_iff h).mpr ⟨oids, ho, rfl⟩, hc⟩
  · intro hx
    obtain ⟨x, hx, hc⟩ := hx
    obtain ⟨oids, ho, rfl⟩ := (founded_iff h).mp hx
    exact ⟨oids, ho, hc⟩

theorem refers_iff (h : b.Holds m) :
    m.Refers oid project ↔ ∃ r, Recorded b oid r ∧ r.projects.contains project = true := by
  unfold Memory.Refers
  simp only [recorded_iff h]

theorem Listed.member (hl : Listed b) (hb : b.Holds m) (h : m.Refers oid project) : m.Member project oid := by
  obtain ⟨r, hr, hc⟩ := (refers_iff hb).mp h
  exact (member_iff hb).mpr (hl oid r hr project hc)

end

/-! ## Orderly pools -/

/-- The tasks of a pool and what they have found out agree with the catalog. -/
structure Orderly (oid : Oid) (project : String) (m : Memory) (p : Pool operations Backing)
    (phase : Nat → Findings) :
    Prop where
  holds : p.state.Holds m
  listed : m.Refers oid project → m.Member project oid
  role : ∀ (k : Nat) (t : Task operations), p.tasks[k]? = some t → (phase k).role = t.job.removal?
  joined : ∀ (k : Nat) (t : Task operations), p.tasks[k]? = some t → (phase k).joined = true →
    m.Member project oid

variable {oid : Oid} {project : String} {m : Memory} {p q : Pool operations Backing}
  {phase : Nat → Findings}

theorem Orderly.idle {b : Backing} (hb : b.Holds m) (hl : m.Refers oid project → m.Member project oid)
    (phase : Nat → Findings) : Orderly oid project m (.idle operations b) phase where
  holds := hb
  listed := hl
  role k t hk := by cases hk
  joined k t hk := by cases hk

theorem Orderly.start (h : Orderly oid project m p phase) (j : Job) :
    Orderly oid project m (p.start j) (Pool.shift phase p.tasks.length (.initial j)) where
  holds := h.holds
  listed := h.listed
  role k t hk := by
    rcases Pool.getElem?_start hk with ⟨rfl, rfl⟩ | ⟨hne, hk⟩
    · rw [Pool.shift_self]; rfl
    · rw [Pool.shift_of_ne _ _ hne]; exact h.role k t hk
  joined k t hk := by
    rcases Pool.getElem?_start hk with ⟨rfl, rfl⟩ | ⟨hne, hk⟩
    · rw [Pool.shift_self]
      intro hj
      cases hj
    · rw [Pool.shift_of_ne _ _ hne]; exact h.joined k t hk

theorem Orderly.role_ne {k : Nat} {t : Task operations} (h : Orderly oid project m p phase)
    (hk : p.tasks[k]? = some t) (hj : t.job.removal? ≠ some (oid, project)) :
    (phase k).role ≠ some (oid, project) := by
  rw [h.role k t hk]
  exact hj

theorem Orderly.call {k : Nat} {j : Job} {op : Op}
    {next : Catalog.interface.Answer op → Prog Catalog.interface j.Result}
    {x : Catalog.interface.Answer op} {b : Backing} (h : Orderly oid project m p phase)
    (hk : p.tasks[k]? = some ⟨j, .call op next⟩) (ha : (bookkeeping oid project).allows op (phase k))
    (hj : j.removal? ≠ some (oid, project)) (ht : calls op p.state x b) :
    ∃ m', Handler.orFailing Catalog.failure Memory.handle op m x m' ∧ Catalog.Plausible op x ∧
      Orderly oid project m' (p.proceed k ⟨j, next x⟩ b)
        (Pool.shift phase k ((phase k).advance oid project op x)) := by
  have hop : op ≠ .close := by
    intro e
    subst e
    exact ha.2
  have hrole := h.role_ne hk hj
  obtain ⟨m', hm, hb⟩ := h.holds.step hop ht
  refine ⟨m', hm, Catalog.plausible_of_handle h.holds.keyed hm, hb, ?_, fun i t hi => ?_, fun i t hi => ?_⟩
  · exact listed_kept ha.2 hrole hm h.listed (h.joined k _ hk)
  · rcases Pool.getElem?_proceed hi with ⟨rfl, rfl⟩ | ⟨hne, hi⟩
    · rw [Pool.shift_self, role_advance]
      show (phase i).role = j.removal?
      exact h.role i _ hk
    · rw [Pool.shift_of_ne _ _ hne]; exact h.role i t hi
  · rcases Pool.getElem?_proceed hi with ⟨rfl, rfl⟩ | ⟨hne, hi⟩
    · rw [Pool.shift_self]; exact member_of_joined ha.2 hrole hm (h.joined i _ hk)
    · rw [Pool.shift_of_ne _ _ hne]
      exact fun hj => member_kept ha.2 hrole hm (h.joined i t hi hj)

/-! ## Nothing is lost -/

def Lasting (p : Pool operations Backing) : Prop :=
  ∀ t ∈ p.tasks, t.job.removal? = none

structure Grows (m m' : Memory) : Prop where
  records : ∀ oid r, m.objects.get? oid = some r → ∃ r', m'.objects.get? oid = some r' ∧ r'.size = r.size ∧
    (r.isCommitted = true → r'.isCommitted = true) ∧
    ∀ project, r.projects.contains project = true → r'.projects.contains project = true
  projects : ∀ project, m.projects.contains project = true → m'.projects.contains project = true
  members : ∀ project oid, m.Member project oid → m'.Member project oid

theorem Grows.refl (m : Memory) : Grows m m where
  records _ r h := ⟨r, h, rfl, id, fun _ => id⟩
  projects _ h := h
  members _ _ h := h

theorem Grows.trans {m m' m'' : Memory} (h : Grows m m') (h' : Grows m' m'') : Grows m m'' where
  records oid r hr := by
    obtain ⟨r', hr', hsize, hstate, hrefs⟩ := h.records oid r hr
    obtain ⟨r'', hr'', hsize', hstate', hrefs'⟩ := h'.records oid r' hr'
    exact ⟨r'', hr'', hsize'.trans hsize, fun hc => hstate' (hstate hc), fun q hq => hrefs' q (hrefs q hq)⟩
  projects q hq := h'.projects q (h.projects q hq)
  members q o ho := h'.members q o (h.members q o ho)

theorem Grows.refers {m m' : Memory} (h : Grows m m') (hr : m.Refers oid project) : m'.Refers oid project := by
  obtain ⟨r, ho, hc⟩ := hr
  obtain ⟨r', ho', -, -, hkept⟩ := h.records oid r ho
  exact ⟨r', ho', hkept project hc⟩

def Keeping : Op → Prop
  | .setObjectState _ state => state = .committed
  | .removeObjectProject _ _ | .removeProjectMember _ _ | .deleteObject _ | .close => False
  | _ => True

theorem grows_respond (op : Op) (hop : Keeping op) (m : Memory) : Grows m (m.respond op).2 where
  records o r ho := by
    have hd : op ≠ .deleteObject o := by
      intro e
      rw [e] at hop
      exact hop
    obtain ⟨r', ho', hs⟩ := Memory.successor op ho hd
    refine ⟨r', ho', hs.size, fun hc => ?_, fun q hq => ?_⟩
    · unfold ObjectRecord.isCommitted at hc ⊢
      rcases hs.state with hst | rfl
      · rw [hst]
        exact hc
      · rw [show r'.state = .committed from hop]
        rfl
    · rcases hs.kept q hq with hq | rfl
      · exact hq
      · cases hop
  projects _ hq := Memory.contains_project_respond hq
  members q o hm := by
    apply hm.respond
    intro e
    rw [e] at hop
    exact hop

/-- An operation that removes nothing makes calls by which nothing is lost. -/
theorem grows_of_permits {f : Findings} {op : Op} {x : Catalog.interface.Answer op} {m' : Memory}
    (hp : f.Permits oid project op) (hr : f.role = none)
    (ht : Handler.orFailing Catalog.failure Memory.handle op m x m') : Grows m m' := by
  have hop : Keeping op := by
    cases op with
    | setObjectState o state => exact hp
    | removeObjectProject o q =>
      rw [show f.role = _ from hp] at hr
      cases hr
    | removeProjectMember q o =>
      rw [show f.role = _ from hp] at hr
      cases hr
    | deleteObject o =>
      obtain ⟨⟨q, hq⟩, -⟩ := hp
      rw [hr] at hq
      cases hq
    | close => exact hp
    | _ => trivial
  rcases attempt ht with ⟨-, rfl⟩ | ⟨-, rfl⟩
  · exact grows_respond op hop m
  · exact .refl _

theorem Grows.grown {b b' : Backing} {m m' : Memory} (h : Grows m m') (hb : b.Holds m) (hb' : b'.Holds m') :
    Grown b b' where
  records oid r hr := by
    obtain ⟨r', hr', rest⟩ := h.records oid r ((recorded_iff hb).mp hr)
    exact ⟨r', (recorded_iff hb').mpr hr', rest⟩
  projects project x hx := by
    obtain ⟨oids, ho, rfl⟩ := (founded_iff hb).mp hx
    obtain ⟨oids', ho'⟩ := SortedMap.contains_iff.mp
      (h.projects project (SortedMap.contains_iff.mpr ⟨oids, ho⟩))
    refine ⟨⟨project, oids'⟩, (founded_iff hb').mpr ⟨oids', ho', rfl⟩, fun oid hc => ?_⟩
    obtain ⟨oids'', ho'', hc'⟩ := h.members project oid ⟨oids, ho, hc⟩
    rw [ho'] at ho''
    cases ho''
    exact hc'

/-! ## Runs -/

/-- An orderly pool, in which nothing is lost since the catalog held the memory. -/
def Lasts (oid : Oid) (project : String) (base : Memory) (p : Pool operations Backing)
    (phase : Nat → Findings) : Prop :=
  ∃ m, Orderly oid project m p phase ∧ Grows base m

theorem lasts_of_reaches {base : Memory} (h : Pool.Reaches calls Lasting p q) (hp : Lasting p)
    (hd : Pool.Disciplined (bookkeeping oid project) (Comes oid project) p phase)
    (hl : Lasts oid project base p phase) :
    Lasting q ∧ ∃ phase', Pool.Disciplined (bookkeeping oid project) (Comes oid project) q phase' ∧
      Lasts oid project base q phase' := by
  refine Pool.Reaches.invariant (Lasts oid project base) follows_program (fun j hg => ?_)
    (fun hg _ hk ht ha hc _ => ?_) h hp phase hd hl
  · obtain ⟨m, ho, hgrows⟩ := hg
    exact ⟨m, ho.start j, hgrows⟩
  · obtain ⟨m, ho, hgrows⟩ := hg
    have hnone := hk _ (List.mem_of_getElem? ht)
    obtain ⟨m', hm, hx, ho'⟩ := ho.call ht ha (hnone.trans_ne (by simp)) hc
    exact ⟨_, ⟨hx, rfl⟩, fun _ => ⟨m', ho',
      hgrows.trans (grows_of_permits ha.2 ((ho.role _ _ ht).trans hnone) hm)⟩⟩

/-- Claims and commits, however their calls are interleaved, lose nothing, and at every moment each record is
listed by the projects that it refers to. -/
theorem listed_and_grown {b : Backing} (hb : b.Holds m) (hl : Listed b)
    (hp : Pool.Reaches calls Lasting (.idle operations b) p) (hq : Pool.Reaches calls Lasting p q) :
    Listed p.state ∧ Grown p.state q.state := by
  -- Each object and each project have an invariant of their own, and the catalog holds one memory for each.
  have first : ∀ oid project, Lasting p ∧ ∃ phase,
      Pool.Disciplined (bookkeeping oid project) (Comes oid project) p phase ∧
        Lasts oid project m p phase := by
    intro oid project
    exact lasts_of_reaches hp (fun t ht => by cases ht) (Pool.disciplined_idle _ _ b fun _ =>
      .initial (.commit oid))
      ⟨m, .idle hb (hl.member hb) _, .refl m⟩
  refine ⟨fun oid r hr project hc => ?_, ?_⟩
  · obtain ⟨-, phase, -, m', ho, -⟩ := first oid project
    exact (member_iff ho.holds).mp (ho.listed ((refers_iff ho.holds).mpr ⟨r, hr, hc⟩))
  · obtain ⟨hp', phase, hd, m', ho, -⟩ := first default ""
    obtain ⟨-, phase', -, m'', ho', hgrows⟩ := lasts_of_reaches hq hp' hd ⟨m', ho, .refl m'⟩
    exact hgrows.grown ho.holds ho'.holds

/-! ## Two claims and a commit -/

namespace Sample

def empty : Backing :=
  .memory .empty

def object : Oid :=
  default

def claims : List (Job ⊕ Nat) :=
  [.inl (.put object 3 "q"), .inr 0, .inr 0, .inr 0, .inl (.put object 5 "p"), .inr 1]

def commits : List (Job ⊕ Nat) :=
  [.inl (.commit object), .inr 2, .inr 1, .inr 2, .inr 1, .inr 2]

theorem holds_empty : empty.Holds .empty :=
  .memory Memory.keyed_empty

theorem listed_empty : Listed empty := by
  intro oid r hr
  cases hr

def lasting (p : Pool operations Backing) : Bool :=
  p.tasks.all fun t => t.job.removal?.isNone

theorem lasting_iff {p : Pool operations Backing} : lasting p = true ↔ Lasting p := by
  simp [lasting, Lasting]

def claimed (oid : Oid) (size : Int) (project : String) : Task operations → Bool
  | ⟨.put o n q, .done (Except.ok _)⟩ => o = oid && n = size && q = project
  | _ => false

theorem eq_of_claimed {size : Int} {t : Task operations} (h : claimed oid size project t = true) :
    ∃ r, t = ⟨.put oid size project, .done (Except.ok r)⟩ := by
  unfold claimed at h
  split at h
  · next o n q r =>
    simp only [Bool.and_eq_true, decide_eq_true_eq] at h
    obtain ⟨⟨rfl, rfl⟩, rfl⟩ := h
    exact ⟨r, rfl⟩
  · cases h

end Sample

open Sample in
theorem listed_and_grown_in_turns : ∃ p q : Pool operations Backing,
    Pool.Reaches calls Lasting (.idle operations empty) p ∧ Pool.Reaches calls Lasting p q ∧
      ¬ p.AtRest ∧ q.AtRest ∧
    q.tasks.length = 3 ∧ Listed p.state ∧ Grown p.state q.state := by
  obtain ⟨⟨p, q⟩, hpq, hend⟩ := Option.map_eq_some_iff.mp (show
    (((Pool.idle operations empty).drive? Backing.handle lasting claims).bind fun p =>
      (p.drive? Backing.handle lasting commits).map fun q => (p, q)).map
      (fun x => decide (¬ x.1.AtRest ∧ x.2.AtRest ∧ x.2.tasks.length = 3)) = some true by decide +kernel)
  obtain ⟨hp, hq, hthree⟩ := of_decide_eq_true hend
  obtain ⟨p', hp', hq'⟩ := Option.bind_eq_some_iff.mp hpq
  obtain ⟨q', hq', e⟩ := Option.map_eq_some_iff.mp hq'
  cases e
  have first : Pool.Reaches calls Lasting (.idle operations empty) p :=
    Pool.reaches_drive (fun _ _ => .inl rfl) (fun _ => lasting_iff.mp) hp'
  have second : Pool.Reaches calls Lasting p q :=
    Pool.reaches_drive (fun _ _ => .inl rfl) (fun _ => lasting_iff.mp) hq'
  obtain ⟨listed, grown⟩ := listed_and_grown holds_empty listed_empty first second
  exact ⟨p, q, first, second, hp, hq, hthree, listed, grown⟩

end BlobDepot.Ledger
