import BlobDepot.Proofs.Runs

/-!
# Disciplines of calls

A discipline says which calls may be made in a phase, and which phase an answer leads to. That a
program follows a discipline is a matter of the program alone: all answers the discipline admits are
considered, whatever state they come from. `Follows.outcome` and `Pool.Reaches.invariant` carry it
over to runs, given how states and phases go together.
-/

namespace BlobDepot

structure Discipline (I : Interface) (φ : Type) where
  allows : I.Op → φ → Prop
  leads : (op : I.Op) → φ → I.Answer op → φ → Prop

namespace Prog

variable {I J : Interface} {φ σ α β ε : Type}

/-- Calls are made as the discipline allows, and results are those wanted. -/
def Follows (d : Discipline I φ) (want : α → φ → Prop) : Prog I α → φ → Prop
  | done a, f => want a f
  | call op next, f => d.allows op f ∧ ∀ x f', d.leads op f x f' → (next x).Follows d want f'

section
variable {d : Discipline I φ} {want : α → φ → Prop} {f : φ}

theorem follows_done {a : α} : (done a).Follows d want f ↔ want a f := Iff.rfl

theorem follows_call {op : I.Op} {next : I.Answer op → Prog I α} :
    (call op next).Follows d want f ↔
      d.allows op f ∧ ∀ x f', d.leads op f x f' → (next x).Follows d want f' := Iff.rfl

theorem follows_perform {op : I.Op} {want : I.Answer op → φ → Prop} :
    (perform op).Follows d want f ↔ d.allows op f ∧ ∀ x f', d.leads op f x f' → want x f' := Iff.rfl

theorem Follows.mono {want' : α → φ → Prop} (h : ∀ a f, want a f → want' a f) :
    ∀ {p : Prog I α} {f : φ}, p.Follows d want f → p.Follows d want' f
  | done a, f, hp => h a f hp
  | call _ _, _, hp => ⟨hp.1, fun x f' hx => (hp.2 x f' hx).mono h⟩

theorem follows_bind {p : Prog I α} {k : α → Prog I β} {want : β → φ → Prop} {f : φ} :
    (p.bind k).Follows d want f ↔ p.Follows d (fun a => (k a).Follows d want) f := by
  induction p generalizing f with
  | done a => rfl
  | call op next ih =>
    refine and_congr_right fun _ => forall_congr' fun x => forall_congr' fun f' => ?_
    exact imp_congr_right fun _ => ih x

theorem follows_map {p : Prog I α} {g : α → β} {want : β → φ → Prop} :
    (g <$> p).Follows d want f ↔ p.Follows d (fun a => want (g a)) f :=
  follows_bind

/-- The phases of a run: the program starts in one that goes with the state, and each call leads to one
that goes with the state after it. -/
theorem Follows.outcome {t : Transition I σ} (goes : σ → φ → Prop) {p : Prog I α} {s s' : σ} {a : α}
    (h : p.Outcome t s a s')
    (step : ∀ {op s f x s'}, goes s f → d.allows op f → t op s x s' →
      ∃ f', d.leads op f x f' ∧ goes s' f') :
    ∀ {f : φ}, p.Follows d want f → goes s f → ∃ f', want a f' ∧ goes s' f' := by
  induction h with
  | done a s => exact fun hp hs => ⟨_, hp, hs⟩
  | call hc _ ih =>
    intro f hp hs
    obtain ⟨f', hl, hs'⟩ := step hs hp.1 hc
    exact ih (hp.2 _ _ hl) hs'

/-- The phases of a run that is under way, which may depend on the calls so far. -/
theorem Follows.partway {t : Transition I σ} (goes : List ((op : I.Op) × I.Answer op) → σ → φ → Prop) {p q : Prog I α}
    {s s' : σ} {l : List ((op : I.Op) × I.Answer op)} (h : p.Partway t s l q s')
    (step : ∀ {l op s f x s'}, goes l s f → d.allows op f → t op s x s' →
      ∃ f', d.leads op f x f' ∧ goes (l ++ [⟨op, x⟩]) s' f') :
    ∀ {l₀ : List ((op : I.Op) × I.Answer op)} {f : φ}, p.Follows d want f → goes l₀ s f →
      ∃ f', q.Follows d want f' ∧ goes (l₀ ++ l) s' f' := by
  induction h with
  | start p s =>
    intro l₀ f hp hs
    rw [List.append_nil]
    exact ⟨f, hp, hs⟩
  | call hc _ ih =>
    intro l₀ f hp hs
    obtain ⟨f', hl, hs'⟩ := step hs hp.1 hc
    rw [List.append_cons]
    exact ih (hp.2 _ _ hl) hs'

/-- Where two handlers answer alike while their states are related in a phase, a program that follows the
discipline is run alike. -/
theorem Follows.run_related {τ : Type} {h : Handler I σ} {k : Handler I τ} {related : σ → τ → φ → Prop}
    (step : ∀ op s u f, d.allows op f → related s u f → (h op s).1 = (k op u).1 ∧
      ∃ f', d.leads op f (h op s).1 f' ∧ related (h op s).2 (k op u).2 f') :
    ∀ {p : Prog I α} {s : σ} {u : τ} {f : φ}, p.Follows d want f → related s u f →
      (p.run h s).1 = (p.run k u).1 ∧ ∃ f', related (p.run h s).2 (p.run k u).2 f'
  | done _, _, _, f, _, hr => ⟨rfl, f, hr⟩
  | call op next, s, u, f, hp, hr => by
    obtain ⟨ha, f', hl, hr'⟩ := step op s u f hp.1 hr
    have hrest := (hp.2 _ _ hl).run_related step hr'
    unfold run
    dsimp only
    rw [← ha]
    exact hrest

/-! ## Programs that may fail -/

variable {p : ExceptT ε (Prog I) α}

theorem follows_run_bind {k : α → ExceptT ε (Prog I) β} {want : Except ε β → φ → Prop} :
    (p >>= k).run.Follows d want f ↔ p.run.Follows d (fun
      | .ok a => (k a).run.Follows d want
      | .error e => want (.error e)) f := by
  rw [ExceptT.run_bind]
  refine Iff.trans follows_bind ⟨Follows.mono ?_, Follows.mono ?_⟩ <;> (intro x f'; cases x <;> exact id)

end

/-! ## Programs that call only some operations -/

def Calls (ops : I.Op → Prop) : Prog I α → Prop
  | done _ => True
  | call op next => ops op ∧ ∀ x, (next x).Calls ops

section
variable {ops : I.Op → Prop}

theorem calls_done (a : α) : (done a : Prog I α).Calls ops := trivial

theorem calls_perform {op : I.Op} (h : ops op) : (perform op).Calls ops := ⟨h, fun _ => trivial⟩

theorem calls_any : ∀ p : Prog I α, p.Calls fun _ => True
  | done _ => trivial
  | call _ next => ⟨trivial, fun x => calls_any (next x)⟩

theorem calls_calling : ∀ {l : List I.Op}, (∀ op ∈ l, ops op) → (calling l).Calls ops
  | [], _ => trivial
  | op :: _, h => ⟨h op List.mem_cons_self, fun _ => calls_calling fun op hop => h op (List.mem_cons_of_mem _ hop)⟩

theorem Calls.mono {ops' : I.Op → Prop} (h : ∀ op, ops op → ops' op) :
    ∀ {p : Prog I α}, p.Calls ops → p.Calls ops'
  | done _, _ => trivial
  | call op _, hp => ⟨h op hp.1, fun x => (hp.2 x).mono h⟩

theorem Calls.of_mem_trace {h : Handler I σ} {a : (op : I.Op) × I.Answer op} :
    ∀ {p : Prog I α} {s : σ}, p.Calls ops → a ∈ p.trace h s → ops a.1
  | done _, _, _, ha => by cases ha
  | call op _, s, hp, ha => by
    rcases List.mem_cons.mp ha with rfl | ha
    · exact hp.1
    · exact (hp.2 _).of_mem_trace ha

theorem Calls.run_keeps {h : Handler I σ} (inv : σ → Prop) (keeps : ∀ op s, ops op → inv s → inv (h op s).2) :
    ∀ {p : Prog I α} {s : σ}, p.Calls ops → inv s → inv (p.run h s).2
  | done _, _, _, hs => hs
  | call op _, s, hp, hs => (hp.2 _).run_keeps inv keeps (keeps op s hp.1 hs)

theorem Calls.run_unchanged {h : Handler I σ} (step : ∀ op s, ops op → (h op s).2 = s) {p : Prog I α} (hp : p.Calls ops)
    (s : σ) : (p.run h s).2 = s := by
  have keeps : ∀ op s', ops op → s' = s → (h op s').2 = s := by
    intro op s' hop hs
    rw [step op s' hop, hs]
  exact hp.run_keeps (fun s' => s' = s) keeps rfl

/-- Where two handlers answer calls alike and keep their states related, they run a program alike. -/
theorem Calls.run_related {τ : Type} {h : Handler I σ} {k : Handler I τ} {related : σ → τ → Prop}
    (step : ∀ op s u, ops op → related s u → (h op s).1 = (k op u).1 ∧ related (h op s).2 (k op u).2) :
    ∀ {p : Prog I α} {s : σ} {u : τ}, p.Calls ops → related s u →
      p.trace h s = p.trace k u ∧ (p.run h s).1 = (p.run k u).1 ∧ related (p.run h s).2 (p.run k u).2
  | done _, _, _, _, hr => ⟨rfl, rfl, hr⟩
  | call op next, s, u, hp, hr => by
    obtain ⟨ha, hr'⟩ := step op s u hp.1 hr
    have hrest := (hp.2 (h op s).1).run_related step hr'
    unfold trace run
    dsimp only
    rw [← ha]
    exact ⟨congrArg _ hrest.1, hrest.2⟩

/-- Calls that keep to phases of a kind need no further discipline. -/
theorem Calls.follows {d : Discipline I φ} {kind : φ → Prop}
    (h : ∀ op f, ops op → kind f → d.allows op f ∧ ∀ x f', d.leads op f x f' → kind f') :
    ∀ {p : Prog I α} {f : φ}, p.Calls ops → kind f → p.Follows d (fun _ => kind) f
  | done _, _, _, hf => hf
  | call op _, f, hp, hf =>
    ⟨(h op f hp.1 hf).1, fun x f' hx => (hp.2 x).follows h ((h op f hp.1 hf).2 x f' hx)⟩

/-- Calls that keep to one phase come before what is done in that phase. -/
theorem follows_calls_bind {d : Discipline I φ} {f : φ} {want : Except ε β → φ → Prop}
    {p : ExceptT ε (Prog I) α} {k : α → ExceptT ε (Prog I) β}
    (h : ∀ op, ops op → d.allows op f ∧ ∀ x f', d.leads op f x f' → f' = f) (hp : p.run.Calls ops)
    (hk : ∀ a, (k a).run.Follows d want f) (he : ∀ e, want (.error e) f) :
    (p >>= k).run.Follows d want f := by
  have stays : ∀ op f', ops op → f' = f → d.allows op f' ∧ ∀ x f'', d.leads op f' x f'' → f'' = f := by
    intro op f' hop e
    subst e
    exact h op hop
  rw [follows_run_bind]
  refine (hp.follows stays rfl).mono fun x f' e => ?_
  subst e
  cases x with
  | ok a => exact hk a
  | error e => exact he e

theorem calls_bind {k : α → Prog I β} (hk : ∀ a, (k a).Calls ops) :
    ∀ {p : Prog I α}, p.Calls ops → (p.bind k).Calls ops
  | done a, _ => hk a
  | call _ _, hp => ⟨hp.1, fun x => calls_bind hk (hp.2 x)⟩

theorem calls_map {g : α → β} {p : Prog I α} (hp : p.Calls ops) : (g <$> p).Calls ops :=
  calls_bind (k := fun a => .done (g a)) (fun _ => trivial) hp

theorem calls_run_bind {p : ExceptT ε (Prog I) α} {k : α → ExceptT ε (Prog I) β} (hp : p.run.Calls ops)
    (hk : ∀ a, (k a).run.Calls ops) : (p >>= k).run.Calls ops := by
  rw [ExceptT.run_bind]
  refine calls_bind (fun x => ?_) hp
  cases x with
  | ok a => exact hk a
  | error e => trivial

theorem calls_run_lift {p : Prog I α} (hp : p.Calls ops) :
    (ExceptT.lift p : ExceptT ε (Prog I) α).run.Calls ops := by
  rw [ExceptT.run_lift]; exact calls_map hp

theorem calls_run_forM {ι : Type} {g : ι → ExceptT ε (Prog I) PUnit} (hg : ∀ i, (g i).run.Calls ops) :
    ∀ l : List ι, (l.forM g).run.Calls ops
  | [] => trivial
  | i :: l => calls_run_bind (k := fun _ => l.forM g) (hg i) fun _ => calls_run_forM hg l

theorem calls_run_mapM {ι : Type} {g : ι → ExceptT ε (Prog I) β} (hg : ∀ i, (g i).run.Calls ops) :
    ∀ l : List ι, (l.mapM g).run.Calls ops
  | [] => trivial
  | i :: l => by
    rw [List.mapM_cons]
    exact calls_run_bind (hg i) fun _ => calls_run_bind (calls_run_mapM hg l) fun _ => trivial

end

/-! ## Programs that keep what holds of a state -/

def Keeps (h : Handler I σ) (inv : σ → Prop) (p : Prog I α) : Prop :=
  ∀ s, inv s → inv (p.run h s).2

section
variable {h : Handler I σ} {inv : σ → Prop}

theorem keeps_done (a : α) : (done a : Prog I α).Keeps h inv := fun _ => id

theorem Calls.keeps {ops : I.Op → Prop} {p : Prog I α} (hp : p.Calls ops)
    (step : ∀ op s, ops op → inv s → inv (h op s).2) : p.Keeps h inv :=
  fun _ => hp.run_keeps inv step

theorem keeps_bind {p : Prog I α} {k : α → Prog I β} (hp : p.Keeps h inv) (hk : ∀ a, (k a).Keeps h inv) :
    (p.bind k).Keeps h inv := by
  intro s hs
  rw [run_bind]
  exact hk _ _ (hp s hs)

theorem keeps_map {g : α → β} {p : Prog I α} (hp : p.Keeps h inv) : (g <$> p).Keeps h inv :=
  keeps_bind (k := fun a => .done (g a)) hp fun _ => keeps_done _

theorem keeps_run_bind {p : ExceptT ε (Prog I) α} {k : α → ExceptT ε (Prog I) β} (hp : p.run.Keeps h inv)
    (hk : ∀ a, (k a).run.Keeps h inv) : (p >>= k).run.Keeps h inv := by
  rw [ExceptT.run_bind]
  refine keeps_bind hp fun x => ?_
  cases x with
  | ok a => exact hk a
  | error e => exact keeps_done _

theorem keeps_run_lift {p : Prog I α} (hp : p.Keeps h inv) :
    (ExceptT.lift p : ExceptT ε (Prog I) α).run.Keeps h inv := by
  rw [ExceptT.run_lift]; exact keeps_map hp

theorem keeps_run_mapM {ι : Type} {g : ι → ExceptT ε (Prog I) β} (hg : ∀ i, (g i).run.Keeps h inv) :
    ∀ l : List ι, (l.mapM g).run.Keeps h inv
  | [] => keeps_done _
  | i :: l => by
    rw [List.mapM_cons]
    exact keeps_run_bind (hg i) fun _ => keeps_run_bind (keeps_run_mapM hg l) fun _ => keeps_done _

end

/-! ## Programs that end -/

/-- The program ends after no more than so many calls, whatever they are answered. -/
def Within : Nat → Prog I α → Prop
  | _, done _ => True
  | 0, call _ _ => False
  | n + 1, call _ next => ∀ x, (next x).Within n

section
variable {k n : Nat}

theorem within_done (a : α) : (done a : Prog I α).Within n := by
  cases n <;> trivial

theorem within_perform (op : I.Op) : (perform op).Within (n + 1) :=
  fun x => within_done x

theorem Within.mono : ∀ {n k : Nat} {p : Prog I α}, p.Within n → n ≤ k → p.Within k
  | _, _, done a, _, _ => within_done a
  | n + 1, 0, call op next, _, hk => by omega
  | n + 1, k + 1, call op next, hp, hk => fun x => (hp x).mono (Nat.le_of_succ_le_succ hk)

theorem within_bind {f : α → Prog I β} (hf : ∀ a, (f a).Within k) :
    ∀ {n : Nat} {p : Prog I α}, p.Within n → (p.bind f).Within (n + k)
  | n, done a, _ => (hf a).mono (Nat.le_add_left k n)
  | n + 1, call op next, hp => by
    rw [Nat.succ_add]
    intro x
    exact within_bind hf (hp x)

theorem within_run_bind {p : ExceptT ε (Prog I) α} {f : α → ExceptT ε (Prog I) β} (hp : p.run.Within n)
    (hf : ∀ a, (f a).run.Within k) : (p >>= f).run.Within (n + k) := by
  rw [ExceptT.run_bind]
  refine within_bind (fun x => ?_) hp
  cases x with
  | ok a => exact hf a
  | error e => exact within_done _

end

/-! ## Programs over one of two interfaces -/

section
variable {p : Prog I α} {q : Prog J α}

theorem calls_left {ops : (I.sum J).Op → Prop} :
    ∀ {p : Prog I α}, p.Calls (fun op => ops (.inl op)) → (left p : Prog (I.sum J) α).Calls ops
  | done _, _ => trivial
  | call _ _, hp => ⟨hp.1, fun x => calls_left (hp.2 x)⟩

theorem calls_right {ops : (I.sum J).Op → Prop} :
    ∀ {q : Prog J α}, q.Calls (fun op => ops (.inr op)) → (right q : Prog (I.sum J) α).Calls ops
  | done _, _ => trivial
  | call _ _, hq => ⟨hq.1, fun x => calls_right (hq.2 x)⟩

end

end Prog

def Discipline.left {I J : Interface} {φ : Type} (d : Discipline (I.sum J) φ) : Discipline I φ :=
  ⟨fun op => d.allows (.inl op), fun op => d.leads (.inl op)⟩

def Discipline.right {I J : Interface} {φ : Type} (d : Discipline (I.sum J) φ) : Discipline J φ :=
  ⟨fun op => d.allows (.inr op), fun op => d.leads (.inr op)⟩

section
variable {I J : Interface} {φ α : Type} {d : Discipline (I.sum J) φ} {want : α → φ → Prop}

theorem Prog.Follows.left : ∀ {p : Prog I α} {f : φ}, p.Follows d.left want f →
    (Prog.left p : Prog (I.sum J) α).Follows d want f
  | done _, _, hp => hp
  | call _ _, _, hp => ⟨hp.1, fun x f' hx => (hp.2 x f' hx).left⟩

theorem Prog.Follows.right : ∀ {q : Prog J α} {f : φ}, q.Follows d.right want f →
    (Prog.right q : Prog (I.sum J) α).Follows d want f
  | done _, _, hq => hq
  | call _ _, _, hq => ⟨hq.1, fun x f' hx => (hq.2 x f' hx).right⟩

end

-- From here on programs are not opened to see what they call.
attribute [irreducible] Prog.Follows Prog.Calls Prog.Within

/-! ## Pools -/

namespace Pool

variable {I : Interface} {J : Jobs I} {σ φ : Type}

def Disciplined (d : Discipline I φ) (want : (j : J.Job) → J.Result j → φ → Prop) (p : Pool J σ)
    (phase : Nat → φ) : Prop :=
  ∀ (k : Nat) (t : Task J), p.tasks[k]? = some t → t.rest.Follows d (want t.job) (phase k)

def shift (phase : Nat → φ) (k : Nat) (f : φ) : Nat → φ :=
  fun i => if i = k then f else phase i

@[simp] theorem shift_self (phase : Nat → φ) (k : Nat) (f : φ) : shift phase k f k = f :=
  if_pos rfl

theorem shift_of_ne (phase : Nat → φ) {i k : Nat} (f : φ) (h : i ≠ k) : shift phase k f i = phase i :=
  if_neg h

theorem shift_eq_iff {phase : Nat → φ} {i k : Nat} {f g : φ} :
    shift phase k f i = g ↔ i = k ∧ f = g ∨ i ≠ k ∧ phase i = g := by
  by_cases hi : i = k
  · simp [hi]
  · simp [hi, shift_of_ne _ _ hi]

theorem Disciplined.start {d : Discipline I φ} {want : (j : J.Job) → J.Result j → φ → Prop} {p : Pool J σ}
    {phase : Nat → φ} (h : Disciplined d want p phase) {j : J.Job} {f : φ}
    (hj : (J.program j).Follows d (want j) f) :
    Disciplined d want (p.start j) (shift phase p.tasks.length f) := by
  intro i u hu
  rcases getElem?_start hu with ⟨rfl, rfl⟩ | ⟨hi, hu⟩
  · rw [shift_self]; exact hj
  · rw [shift_of_ne _ _ hi]; exact h i u hu

/-- What goes together at first, and is kept by every start and every call, goes together in the end. The
phase of a task is at hand to say what the task has found out and what it may still do. -/
theorem Reaches.invariant_of_kind (goes : Pool J σ → (Nat → φ) → Prop) {d : Discipline I φ}
    {want : (j : J.Job) → J.Result j → φ → Prop} {initial : J.Job → φ}
    {t : Transition I σ} {kind : Pool J σ → Prop}
    (begins : ∀ {p : Pool J σ} j, kind (p.start j) → (J.program j).Follows d (want j) (initial j))
    (start : ∀ {p phase} j, goes p phase → kind (p.start j) →
      goes (p.start j) (shift phase p.tasks.length (initial j)))
    (call : ∀ {p phase k j op next x s}, goes p phase → Disciplined d want p phase → kind p →
      p.tasks[k]? = some ⟨j, .call op next⟩ → d.allows op (phase k) → t op p.state x s →
      kind (p.proceed k ⟨j, next x⟩ s) →
      ∃ f, d.leads op (phase k) x f ∧
        (Disciplined d want (p.proceed k ⟨j, next x⟩ s) (shift phase k f) →
          goes (p.proceed k ⟨j, next x⟩ s) (shift phase k f)))
    {p q : Pool J σ} (h : Reaches t kind p q) (hp : kind p) (phase : Nat → φ)
    (hd : Disciplined d want p phase) (hg : goes p phase) :
    kind q ∧ ∃ phase, Disciplined d want q phase ∧ goes q phase := by
  -- Induction on the run. Only the task that makes the call changes its phase.
  induction h with
  | refl => exact ⟨hp, phase, hd, hg⟩
  | @tail p _ _ hs ih =>
    obtain ⟨hk, phase, hd, hg⟩ := ih
    obtain ⟨hs, hk'⟩ := hs
    refine ⟨hk', ?_⟩
    cases hs with
    | start j => exact ⟨_, hd.start (begins j hk'), start j hg hk'⟩
    | @call k j _ next x s ht hc =>
      have hf := Prog.follows_call.mp (hd _ _ ht)
      obtain ⟨f, hl, hgoes⟩ := call hg hd hk ht hf.1 hc hk'
      have hd' : Disciplined d want (p.proceed k ⟨j, next x⟩ s) (shift phase k f) := fun i u hu => by
        rcases getElem?_proceed hu with ⟨hi, rfl⟩ | ⟨hi, hu⟩
        · rw [hi, shift_self]; exact hf.2 _ _ hl
        · rw [shift_of_ne _ _ hi]; exact hd i u hu
      exact ⟨_, hd', hgoes hd'⟩

theorem Reaches.invariant (goes : Pool J σ → (Nat → φ) → Prop) {d : Discipline I φ}
    {want : (j : J.Job) → J.Result j → φ → Prop}
    {initial : J.Job → φ} (begins : ∀ j, (J.program j).Follows d (want j) (initial j))
    {t : Transition I σ} {kind : Pool J σ → Prop}
    (start : ∀ {p phase} j, goes p phase → goes (p.start j) (shift phase p.tasks.length (initial j)))
    (call : ∀ {p phase k j op next x s}, goes p phase → Disciplined d want p phase → kind p →
      p.tasks[k]? = some ⟨j, .call op next⟩ → d.allows op (phase k) → t op p.state x s →
      kind (p.proceed k ⟨j, next x⟩ s) →
      ∃ f, d.leads op (phase k) x f ∧
        (Disciplined d want (p.proceed k ⟨j, next x⟩ s) (shift phase k f) →
          goes (p.proceed k ⟨j, next x⟩ s) (shift phase k f)))
    {p q : Pool J σ} (h : Reaches t kind p q) (hp : kind p) (phase : Nat → φ)
    (hd : Disciplined d want p phase) (hg : goes p phase) :
    kind q ∧ ∃ phase, Disciplined d want q phase ∧ goes q phase :=
  h.invariant_of_kind goes (fun j _ => begins j) (fun j hg _ => start j hg) call hp phase hd hg

theorem disciplined_idle (d : Discipline I φ) (want : (j : J.Job) → J.Result j → φ → Prop) (s : σ)
    (phase : Nat → φ) : Disciplined d want (idle J s) phase := by
  intro k t h; simp [idle] at h

end Pool

end BlobDepot
