import BlobDepot.Proofs.Lifecycle

/-!
# Removals and the claims of other projects

An object that has been claimed for a project stays claimed while nothing takes it out of that project, unless
a removal from another project overlaps the claim and deletes the record. Such a removal decides from a record
and a listing that are older than the claim.
-/

namespace BlobDepot.Ledger

open Catalog (Backing Memory Op)
open Prog

def Spared (oid : Oid) (project : String) (p : Pool operations Backing) : Prop :=
  ∀ t ∈ p.tasks, t.job ≠ .remove oid project

/-- A removal that has deleted the record of the object. -/
def Deleter (oid : Oid) (t : Task operations) : Prop :=
  ∃ q, t = ⟨.remove oid q, .done (Except.ok true)⟩

/-- The record of the object refers to the project, and the project lists the object. -/
def Claimed (b : Backing) (oid : Oid) (project : String) : Prop :=
  (∃ r, Recorded b oid r ∧ r.projects.contains project = true) ∧
    ∃ x, Founded b project x ∧ x.contains oid = true

variable {oid : Oid} {project : String} {m : Memory} {p s₀ s₁ s₂ : Pool operations Backing}
  {phase : Nat → Findings}

theorem Spared.removal {k : Nat} {t : Task operations} (h : Spared oid project p)
    (hk : p.tasks[k]? = some t) :
    t.job.removal? ≠ some (oid, project) := by
  have hj := h t (List.mem_of_getElem? hk)
  intro e
  cases ht : t.job with
  | remove o q =>
    rw [ht] at e hj
    cases e
    exact hj rfl
  | _ =>
    rw [ht] at e
    cases e

theorem deleted_advance {f : Findings} {op : Op} {x : Catalog.interface.Answer op}
    (h : (f.advance oid project op x).deleted = true) : f.deleted = true ∨ op = .deleteObject oid := by
  unfold Findings.advance at h
  split at h
  · split at h <;> exact .inl h
  · split at h <;> exact .inl h
  · split at h <;> exact .inl h
  · split at h <;> exact .inl h
  · next o =>
    split at h
    · next ho => exact .inr (by rw [ho])
    · exact .inl h
  · exact .inl h

theorem deleter_of_follows {t : Task operations} {f : Findings}
    (h : t.rest.Follows (bookkeeping oid project) (Comes oid project t.job) f) (hf : f.deleted = true) :
    Deleter oid t := by
  obtain ⟨j, rest⟩ := t
  cases rest with
  | done a =>
    have hc := follows_done.mp h
    cases j with
    | put o size q =>
      rw [hc.1] at hf
      cases hf
    | commit o =>
      rw [show f.deleted = false from hc] at hf
      cases hf
    | remove o q =>
      obtain ⟨rfl, rfl⟩ := hc hf
      exact ⟨q, rfl⟩
  | call op next =>
    rw [(follows_call.mp h).1.1] at hf
    cases hf

/-- The record is deleted only by removals that were over before the claim or began after it. -/
def Unbroken (oid : Oid) (s₀ s₁ s₂ : Pool operations Backing) : Prop :=
  ∀ (k : Nat) (t : Task operations), s₂.tasks[k]? = some t → Deleter oid t →
    s₀.tasks[k]? = some t ∨ s₁.tasks.length ≤ k

section
variable {kind : Pool operations Backing → Prop} {k : Nat} {j : Job} {op : Op}
  {next : Catalog.interface.Answer op → Prog Catalog.interface j.Result}
  {x : Catalog.interface.Answer op} {b : Backing}

/-- A task that has deleted the record has done so in a removal that began after the claim. -/
theorem late_of_deleted {f : Findings} (hu : Unbroken oid s₀ s₁ s₂)
    (hk : p.tasks[k]? = some ⟨j, .call op next⟩)
    (h₀ : Pool.Reaches calls kind s₀ p) (h₂ : Pool.Reaches calls kind (p.proceed k ⟨j, next x⟩ b) s₂)
    (hd : Pool.Disciplined (bookkeeping oid project) (Comes oid project) (p.proceed k ⟨j, next x⟩ b)
      (Pool.shift phase k f)) (hf : f.deleted = true) : s₁.tasks.length ≤ k := by
  have hk' := Pool.getElem?_proceed_self ⟨j, next x⟩ b hk
  have hfollows := hd k _ hk'
  rw [Pool.shift_self] at hfollows
  have hdel := deleter_of_follows hfollows hf
  have hdone : (⟨j, next x⟩ : Task operations).IsDone := by
    obtain ⟨q, e⟩ := hdel
    rw [e]
    exact ⟨_, rfl⟩
  rcases hu k _ (h₂.getElem?_done hk' hdone) hdel with h | h
  · have := h₀.getElem?_done h hdone
    rw [hk] at this
    have e := Option.some.inj this
    rw [← e] at hdone
    exact absurd hdone Task.not_isDone_call
  · exact h

end

/-! ## While the claim is made -/

def Claiming (oid : Oid) (project : String) (n : Nat) (p : Pool operations Backing)
    (phase : Nat → Findings) : Prop :=
  n < p.tasks.length ∧ ∃ m, Orderly oid project m p phase ∧
    ((phase n).found = true → ∃ r, m.objects.get? oid = some r) ∧
    ((phase n).claimed = true → m.Refers oid project)

theorem Claiming.start {n : Nat} (h : Claiming oid project n p phase) (j : Job) :
    Claiming oid project n (p.start j) (Pool.shift phase p.tasks.length (.initial j)) := by
  obtain ⟨hn, m, ho, hf, hc⟩ := h
  refine ⟨?_, m, ho.start j, ?_⟩
  · unfold Pool.start
    rw [List.length_append]
    omega
  · rw [Pool.shift_of_ne _ _ (by omega)]
    exact ⟨hf, hc⟩

theorem Claiming.call {n k : Nat} {j : Job} {op : Op}
    {next : Catalog.interface.Answer op → Prog Catalog.interface j.Result}
    {x : Catalog.interface.Answer op} {b : Backing}
    (h : Claiming oid project n p phase) (hk : p.tasks[k]? = some ⟨j, .call op next⟩)
    (ha : (bookkeeping oid project).allows op (phase k)) (hj : j.removal? ≠ some (oid, project))
    (ht : calls op p.state x b) (hd : ((phase k).advance oid project op x).deleted = false) :
    Claiming oid project n (p.proceed k ⟨j, next x⟩ b)
      (Pool.shift phase k ((phase k).advance oid project op x)) := by
  obtain ⟨hn, m, ho, hf, hc⟩ := h
  have hrole := ho.role_ne hk hj
  obtain ⟨m', hm, -, ho'⟩ := ho.call hk ha hj ht
  have recorded : (∃ r, m.objects.get? oid = some r) → ∃ r, m'.objects.get? oid = some r := by
    intro hr
    obtain ⟨r, hr⟩ := hr
    obtain ⟨r', hr', -⟩ := record_kept hm hd hr
    exact ⟨r', hr'⟩
  have referred := refers_kept ha.2 hrole hm hd
  refine ⟨?_, m', ho', ?_⟩
  · unfold Pool.proceed
    rw [List.length_set]
    exact hn
  · by_cases hnk : n = k
    · subst hnk
      rw [Pool.shift_self]
      refine ⟨fun h => ?_, fun h => ?_⟩
      · rcases found_advance hm h with h | h
        · exact recorded (hf h)
        · exact h
      · rcases claimed_advance hm hf h with h | h
        · exact referred (hc h)
        · exact h
    · rw [Pool.shift_of_ne _ _ hnk]
      exact ⟨fun h => recorded (hf h), fun h => referred (hc h)⟩

/-! ## After the claim -/

/-- The record refers to the project, and no task from a place on has read it without references. -/
def Holding (oid : Oid) (project : String) (n : Nat) (p : Pool operations Backing)
    (phase : Nat → Findings) : Prop :=
  ∃ m, Orderly oid project m p phase ∧ m.Refers oid project ∧
    ∀ (i : Nat) (t : Task operations), p.tasks[i]? = some t → n ≤ i → (phase i).bare = false

theorem Holding.start {n : Nat} (h : Holding oid project n p phase) (j : Job) :
    Holding oid project n (p.start j) (Pool.shift phase p.tasks.length (.initial j)) := by
  obtain ⟨m, ho, hr, hb⟩ := h
  refine ⟨m, ho.start j, hr, fun i t hi hn => ?_⟩
  rcases Pool.getElem?_start hi with ⟨rfl, rfl⟩ | ⟨hne, hi⟩
  · rw [Pool.shift_self]; rfl
  · rw [Pool.shift_of_ne _ _ hne]; exact hb i t hi hn

theorem Holding.call {n k : Nat} {j : Job} {op : Op}
    {next : Catalog.interface.Answer op → Prog Catalog.interface j.Result}
    {x : Catalog.interface.Answer op} {b : Backing}
    (h : Holding oid project n p phase) (hk : p.tasks[k]? = some ⟨j, .call op next⟩)
    (ha : (bookkeeping oid project).allows op (phase k)) (hj : j.removal? ≠ some (oid, project))
    (ht : calls op p.state x b) (hd : ((phase k).advance oid project op x).deleted = false) :
    Holding oid project n (p.proceed k ⟨j, next x⟩ b)
      (Pool.shift phase k ((phase k).advance oid project op x)) := by
  obtain ⟨m, ho, hr, hb⟩ := h
  have hrole := ho.role_ne hk hj
  obtain ⟨m', hm, -, ho'⟩ := ho.call hk ha hj ht
  refine ⟨m', ho', refers_kept ha.2 hrole hm hd hr, fun i t hi hn => ?_⟩
  rcases Pool.getElem?_proceed hi with ⟨rfl, rfl⟩ | ⟨hne, hi⟩
  · rw [Pool.shift_self]
    cases hbare : ((phase i).advance oid project op x).bare with
    | false => rfl
    | true => rw [← hb i _ hk hn, bare_advance hm hr hbare]
  · rw [Pool.shift_of_ne _ _ hne]; exact hb i t hi hn

/-! ## Runs -/

section
variable (hu : Unbroken oid s₀ s₁ s₂) (h₂ : Pool.Reaches calls (Spared oid project) s₁ s₂)
include hu h₂

theorem claiming_of_reaches {p : Pool operations Backing} {n : Nat}
    (h₀ : Pool.Reaches calls (Spared oid project) s₀ p) (h₁ : Pool.Reaches calls (Spared oid project) p s₁)
    (hp : Spared oid project p)
    (hd : Pool.Disciplined (bookkeeping oid project) (Comes oid project) p phase)
    (hc : Claiming oid project n p phase) :
    ∃ phase', Pool.Disciplined (bookkeeping oid project) (Comes oid project) s₁ phase' ∧
      Claiming oid project n s₁ phase' := by
  refine (Pool.Reaches.invariant (Claiming oid project n) follows_program (fun j hg => hg.start j)
    (fun {p' phase k j op next x b} hg _ hp' hk ha ht hq => ?_) (h₁.between .refl) ⟨hp, .refl, h₁⟩
      phase hd hc).2
  obtain ⟨m, ho, -⟩ := hg.2
  obtain ⟨-, -, hx, -⟩ := ho.call hk ha (hp'.1.removal hk) ht
  refine ⟨_, ⟨hx, rfl⟩, fun hd' => hg.call hk ha (hp'.1.removal hk) ht ?_⟩
  -- A record that is deleted now is deleted by a removal that began after the claim, but the claim goes on.
  rw [Bool.eq_false_iff]
  intro hdel
  have late := late_of_deleted hu hk (h₀.trans hp'.2.1) (hq.2.2.trans h₂) hd' hdel
  have before := hq.2.2.length_le
  have here := (List.getElem?_eq_some_iff.mp (Pool.getElem?_proceed_self ⟨j, next x⟩ b hk)).choose
  omega

theorem holding_of_reaches (h₁ : Pool.Reaches calls (Spared oid project) s₀ s₁) (hp : Spared oid project s₁)
    (hd : Pool.Disciplined (bookkeeping oid project) (Comes oid project) s₁ phase)
    (hc : Holding oid project s₁.tasks.length s₁ phase) :
    ∃ phase', Pool.Disciplined (bookkeeping oid project) (Comes oid project) s₂ phase' ∧
      Holding oid project s₁.tasks.length s₂ phase' := by
  refine (Pool.Reaches.invariant (Holding oid project s₁.tasks.length) follows_program
    (fun j hg => hg.start j)
    (fun {p' phase k j op next x b} hg _ hp' hk ha ht hq => ?_) (h₂.between .refl) ⟨hp, .refl, h₂⟩
      phase hd hc).2
  have ⟨m, ho, _, hb⟩ := hg
  obtain ⟨-, -, hx, -⟩ := ho.call hk ha (hp'.1.removal hk) ht
  refine ⟨_, ⟨hx, rfl⟩, fun hd' => hg.call hk ha (hp'.1.removal hk) ht ?_⟩
  -- A record that is deleted now has been read without references since the claim, but it has had one since.
  rw [Bool.eq_false_iff]
  intro hdel
  have late := late_of_deleted hu hk (h₁.trans hp'.2.1) hq.2.2 hd' hdel
  rcases deleted_advance hdel with h | rfl
  · rw [ha.1] at h
    cases h
  · have hbare := ha.2.2 rfl
    rw [hb k _ hk late] at hbare
    cases hbare

end

theorem orderly_of_reaches {b : Backing} (hb : b.Holds m) (hl : Listed b)
    (h : Pool.Reaches calls (Spared oid project) (.idle operations b) p) :
    ∃ phase, Pool.Disciplined (bookkeeping oid project) (Comes oid project) p phase ∧
      ∃ m, Orderly oid project m p phase := by
  refine (Pool.Reaches.invariant (fun p phase => ∃ m, Orderly oid project m p phase) follows_program
    (fun j hg => ?_) (fun hg _ hp hk ha ht _ => ?_) h (fun t ht => by cases ht)
    (fun _ => .initial (.commit oid))
    (Pool.disciplined_idle _ _ b _) ⟨m, .idle hb (hl.member hb) _⟩).2
  · obtain ⟨m, ho⟩ := hg
    exact ⟨m, ho.start j⟩
  · obtain ⟨m, ho⟩ := hg
    obtain ⟨m', -, hx, ho'⟩ := ho.call hk ha (hp.removal hk) ht
    exact ⟨_, ⟨hx, rfl⟩, fun _ => ⟨m', ho'⟩⟩

/-- An object that has been claimed for a project stays claimed, if nothing takes it out of the project and no
removal that overlaps the claim deletes the record. -/
theorem claimed_of_put {b : Backing} (hb : b.Holds m) (hl : Listed b) (hne : project ≠ "") {size : Int}
    {r : ObjectRecord} (h₀ : Pool.Reaches calls (Spared oid project) (.idle operations b) s₀)
    (h₁ : Pool.Reaches calls (Spared oid project) (s₀.start (.put oid size project)) s₁)
    (hput : s₁.tasks[s₀.tasks.length]? = some ⟨.put oid size project, .done (Except.ok r)⟩)
    (h₂ : Pool.Reaches calls (Spared oid project) s₁ s₂) (hu : Unbroken oid s₀ s₁ s₂) :
    Claimed s₂.state oid project := by
  obtain ⟨phase, hd, m₀, ho⟩ := orderly_of_reaches hb hl h₀
  have spared : Spared oid project (s₀.start (.put oid size project)) := by
    intro t ht
    rcases List.mem_append.mp ht with ht | ht
    · exact h₀.of_kind (fun t ht => by cases ht) t ht
    · rw [List.mem_singleton.mp ht]
      intro e
      cases e
  have started : Pool.Reaches calls (Spared oid project) s₀ (s₀.start (.put oid size project)) :=
    .single ⟨.start _, spared⟩
  have begun : Claiming oid project s₀.tasks.length (s₀.start (.put oid size project))
      (Pool.shift phase s₀.tasks.length (.initial (.put oid size project))) := by
    refine ⟨?_, m₀, ho.start _, ?_⟩
    · unfold Pool.start
      simp
    · rw [Pool.shift_self]
      exact ⟨(fun h => by cases h), (fun h => by cases h)⟩
  obtain ⟨phase₁, hd₁, -, m₁, ho₁, -, hclaimed⟩ :=
    claiming_of_reaches hu h₂ started h₁ spared (hd.start (follows_program _)) begun
  have shown : Shown oid oid project project (Except.ok r) (phase₁ s₀.tasks.length) :=
    follows_done.mp (hd₁ _ _ hput)
  have referred := hclaimed (shown.2 rfl rfl hne ⟨r, rfl⟩)
  have held : Holding oid project s₁.tasks.length s₁ phase₁ := by
    refine ⟨m₁, ho₁, referred, fun i t hi hn => ?_⟩
    rw [List.getElem?_eq_none hn] at hi
    cases hi
  obtain ⟨phase₂, -, m₂, ho₂, hr₂, -⟩ :=
    holding_of_reaches hu h₂ (started.trans h₁) (h₁.of_kind spared) hd₁ held
  exact ⟨(refers_iff ho₂.holds).mp hr₂, (member_iff ho₂.holds).mp (ho₂.listed hr₂)⟩

/-! ## A removal after a claim -/

namespace Sample

def deletes : Task operations → Bool
  | ⟨.remove _ _, .done (Except.ok true)⟩ => true
  | _ => false

def takesOut (oid : Oid) (project : String) : Job → Bool
  | .remove o q => o = oid && q = project
  | _ => false

def spares (oid : Oid) (project : String) (p : Pool operations Backing) : Bool :=
  p.tasks.all fun t => !takesOut oid project t.job

theorem spared_of_spares (p : Pool operations Backing) (h : spares oid project p = true) :
    Spared oid project p := by
  intro t ht e
  have hj := List.all_eq_true.mp h t ht
  rw [e] at hj
  simp [takesOut] at hj

def first : List (Job ⊕ Nat) :=
  [.inl (.put object 3 "q"), .inr 0, .inr 0, .inr 0]

def second : List (Job ⊕ Nat) :=
  [.inr 1, .inr 1, .inr 1]

def third : List (Job ⊕ Nat) :=
  [.inl (.remove object "q"), .inr 2, .inr 2, .inr 2]

end Sample

open Sample in
theorem claimed_after_removal : ∃ (s₀ s₁ s₂ : Pool operations Backing) (r : ObjectRecord),
    Pool.Reaches calls (Spared object "p") (.idle operations empty) s₀ ∧
    Pool.Reaches calls (Spared object "p") (s₀.start (.put object 3 "p")) s₁ ∧
    s₁.tasks[s₀.tasks.length]? = some ⟨.put object 3 "p", .done (Except.ok r)⟩ ∧
    Pool.Reaches calls (Spared object "p") s₁ s₂ ∧ Unbroken object s₀ s₁ s₂ ∧ s₂.AtRest ∧
      s₂.tasks.length = 3 ∧
    Claimed s₂.state object "p" := by
  obtain ⟨⟨s₀, s₁, s₂⟩, hrun, hend⟩ := Option.map_eq_some_iff.mp (show
    (((Pool.idle operations empty).drive? Backing.handle (spares object "p") first).bind fun s₀ =>
      ((s₀.start (.put object 3 "p")).drive? Backing.handle (spares object "p") second).bind fun s₁ =>
        (s₁.drive? Backing.handle (spares object "p") third).map fun s₂ => (s₀, s₁, s₂)).map
      (fun x => decide (x.2.1.tasks[x.1.tasks.length]?.map (claimed object 3 "p") = some true ∧
        x.2.2.tasks.all (fun t => !deletes t) = true ∧ x.2.2.AtRest ∧ x.2.2.tasks.length = 3)) =
          some true by
          decide +kernel)
  obtain ⟨hput, hnone, hrest, hthree⟩ := of_decide_eq_true hend
  obtain ⟨s, h₀, hrun⟩ := Option.bind_eq_some_iff.mp hrun
  obtain ⟨s', h₁, hrun⟩ := Option.bind_eq_some_iff.mp hrun
  obtain ⟨s'', h₂, e⟩ := Option.map_eq_some_iff.mp hrun
  cases e
  obtain ⟨t, ht, hc⟩ := Option.map_eq_some_iff.mp hput
  obtain ⟨r, rfl⟩ := eq_of_claimed hc
  have reach : ∀ {l : List (Job ⊕ Nat)} {p q : Pool operations Backing},
      p.drive? Backing.handle (spares object "p") l = some q → Pool.Reaches calls (Spared object "p") p q :=
    Pool.reaches_drive (fun _ _ => .inl rfl) spared_of_spares
  have unbroken : Unbroken object s₀ s₁ s₂ := by
    intro k t hk hd
    obtain ⟨q, rfl⟩ := hd
    have := List.all_eq_true.mp hnone _ (List.mem_of_getElem? hk)
    cases this
  exact ⟨s₀, s₁, s₂, r, reach h₀, reach h₁, ht, reach h₂, unbroken, hrest, hthree,
    claimed_of_put holds_empty listed_empty (by decide) (reach h₀) (reach h₁) ht (reach h₂) unbroken⟩

/-! ## A removal and a claim at once -/

def Consistent (b : Backing) : Prop :=
  ∀ oid project, (∃ x, Founded b project x ∧ x.contains oid = true) ↔
    ∃ r, Recorded b oid r ∧ r.projects.contains project = true

namespace Sample

/-- The removal has read the record and the projects, and deletes the record when the other claim has come as far
as the project. -/
def clash : List (Job ⊕ Nat) :=
  [.inl (.put object 3 "q"), .inr 0, .inr 0, .inr 0, .inl (.put object 3 "p"), .inr 1,
    .inl (.remove object "q"), .inr 2, .inr 2, .inr 2, .inr 2, .inr 1, .inr 2, .inr 1]

theorem consistent_empty : Consistent empty := by
  intro oid project
  constructor
  · intro h
    obtain ⟨x, hx, -⟩ := h
    cases hx
  · intro h
    obtain ⟨r, hr, -⟩ := h
    cases hr

end Sample

open Sample in
theorem unclaimed_by_removal : ¬ ∀ {b : Backing} {m : Memory} {oid : Oid} {size : Int} {project : String}
    {q : Pool operations Backing} {k : Nat} {r : ObjectRecord}, b.Holds m → Consistent b → project ≠ "" →
    Pool.Reaches Backing.handle.exactly (Spared oid project) (.idle operations b) q →
    q.tasks[k]? = some ⟨.put oid size project, .done (Except.ok r)⟩ → Claimed q.state oid project := by
  intro h
  obtain ⟨q, hq, hend⟩ := Option.map_eq_some_iff.mp (show
    ((Pool.idle operations empty).drive? Backing.handle (spares object "p") clash).map
      (fun q => decide (q.tasks[1]?.map (claimed object 3 "p") = some true ∧
        (Backing.handle (.readObject object) q.state).1.toOption = some none)) =
          some true by decide +kernel)
  obtain ⟨hput, hgone⟩ := of_decide_eq_true hend
  obtain ⟨t, ht, hc⟩ := Option.map_eq_some_iff.mp hput
  obtain ⟨r, rfl⟩ := eq_of_claimed hc
  have reached : Pool.Reaches Backing.handle.exactly (Spared object "p") (.idle operations empty) q :=
    Pool.reaches_drive (fun _ _ => rfl) spared_of_spares hq
  obtain ⟨⟨r', hr', -⟩, -⟩ := h holds_empty consistent_empty (by decide) reached ht
  rw [show (Backing.handle (.readObject object) q.state).1 = Except.ok (some r') from hr'] at hgone
  cases hgone

end BlobDepot.Ledger
