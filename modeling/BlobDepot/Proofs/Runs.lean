import BlobDepot.Prog
import Mathlib.Logic.Relation

/-!
# Runs of programs

A handler says what one call does. Here a call may also fail, and the calls of several programs may
be interleaved: a pool holds a state and the jobs that have been started on it, each with what
remains to be done of it.
-/

namespace BlobDepot

abbrev Transition (I : Interface) (σ : Type) :=
  (op : I.Op) → σ → I.Answer op → σ → Prop

section
variable {I : Interface} {σ α : Type}

def Handler.exactly (h : Handler I σ) : Transition I σ :=
  fun op s x s' => h op s = (x, s')

/-- Calls come to what the handler says, or fail and do nothing. -/
def Handler.orFailing (failure : (op : I.Op) → I.Answer op → Prop) (h : Handler I σ) : Transition I σ :=
  fun op s x s' => h op s = (x, s') ∨ failure op x ∧ s' = s

/-- Where two handlers answer alike and keep their states related, so do calls of them that may fail. -/
theorem Handler.orFailing_related {τ : Type} {failure : (op : I.Op) → I.Answer op → Prop} {h : Handler I σ}
    {h' : Handler I τ} (related : σ → τ → Prop) {op : I.Op} {x : I.Answer op} {s s' : σ} {u : τ}
    (hr : related s u) (ha : (h op s).1 = (h' op u).1) (hs : related (h op s).2 (h' op u).2)
    (ht : h.orFailing failure op s x s') : ∃ u', h'.orFailing failure op u x u' ∧ related s' u' := by
  rcases ht with ht | ⟨hx, rfl⟩
  · rw [ht] at ha hs
    exact ⟨_, .inl (Prod.ext ha.symm rfl), hs⟩
  · exact ⟨u, .inr ⟨hx, rfl⟩, hr⟩

/-- A program may end with a result, in a state. -/
inductive Prog.Outcome (t : Transition I σ) : Prog I α → σ → α → σ → Prop
  | done (a : α) (s : σ) : Outcome t (.done a) s a s
  | call {op : I.Op} {next : I.Answer op → Prog I α} {s s₁ s₂ : σ} {x : I.Answer op} {a : α} :
    t op s x s₁ → Outcome t (next x) s₁ a s₂ → Outcome t (.call op next) s a s₂

/-- Where a run may have got to: the calls that have been answered, what remains of the program, and the state. -/
inductive Prog.Partway (t : Transition I σ) :
    Prog I α → σ → List ((op : I.Op) × I.Answer op) → Prog I α → σ → Prop
  | start (p : Prog I α) (s : σ) : Partway t p s [] p s
  | call {op : I.Op} {next : I.Answer op → Prog I α} {s s₁ s₂ : σ} {x : I.Answer op}
    {l : List ((op : I.Op) × I.Answer op)} {q : Prog I α} :
      t op s x s₁ → Partway t (next x) s₁ l q s₂ → Partway t (.call op next) s (⟨op, x⟩ :: l) q s₂

theorem Prog.outcome_run {t : Transition I σ} {h : Handler I σ} (ht : ∀ op s, t op s (h op s).1 (h op s).2)
    (p : Prog I α) (s : σ) : p.Outcome t s (p.run h s).1 (p.run h s).2 := by
  induction p generalizing s with
  | done a => exact .done a s
  | call op next ih => exact .call (ht op s) (ih _ _)

/-! ## What a run calls -/

def Prog.trace (h : Handler I σ) : Prog I α → σ → List ((op : I.Op) × I.Answer op)
  | done _, _ => []
  | call op next, s => ⟨op, (h op s).1⟩ :: (next (h op s).1).trace h (h op s).2

theorem Prog.trace_bind {β : Type} (h : Handler I σ) (p : Prog I α) (f : α → Prog I β) (s : σ) :
    (p.bind f).trace h s = p.trace h s ++ (f (p.run h s).1).trace h (p.run h s).2 := by
  induction p generalizing s with
  | done a => rfl
  | call op next ih => simp only [bind, trace, run, ih, List.cons_append]

theorem Prog.partway_run {t : Transition I σ} {h : Handler I σ} (ht : ∀ op s, t op s (h op s).1 (h op s).2)
    (p : Prog I α) (s : σ) : p.Partway t s (p.trace h s) (.done (p.run h s).1) (p.run h s).2 := by
  induction p generalizing s with
  | done a => exact .start _ s
  | call op next ih => exact .call (ht op s) (ih _ _)

theorem Prog.partway_done {t : Transition I σ} {a : α} {s s' : σ} {l : List ((op : I.Op) × I.Answer op)} {q : Prog I α}
    (h : Partway t (.done a) s l q s') : q = .done a ∧ s' = s := by
  cases h with
  | start => exact ⟨rfl, rfl⟩

theorem Prog.partway_call {t : Transition I σ} {op : I.Op} {next : I.Answer op → Prog I α} {s s' : σ}
    {l : List ((op : I.Op) × I.Answer op)} {q : Prog I α} (h : Partway t (.call op next) s l q s') :
    q = .call op next ∧ s' = s ∨ ∃ x s₁ l', t op s x s₁ ∧ Partway t (next x) s₁ l' q s' := by
  cases h with
  | start => exact .inl ⟨rfl, rfl⟩
  | call hcall hrest => exact .inr ⟨_, _, _, hcall, hrest⟩

/-- What holds of each call that is made while the state is sound holds of all calls of a run. -/
theorem Prog.forall_trace {h : Handler I σ} {sound : σ → Prop} {good : ((op : I.Op) × I.Answer op) → Prop}
    (step : ∀ op s, sound s → good ⟨op, (h op s).1⟩ ∧ sound (h op s).2) (p : Prog I α) {s : σ}
    (hs : sound s) : ∀ a ∈ p.trace h s, good a := by
  induction p generalizing s with
  | done a => simp [trace]
  | call op next ih =>
    have ⟨hgood, hs'⟩ := step op s hs
    intro a ha
    rcases List.mem_cons.mp ha with rfl | ha
    · exact hgood
    · exact ih _ hs' a ha

def Prog.calling : List I.Op → Prog I Unit
  | [] => done ()
  | op :: l => call op fun _ => calling l

/-! ## A call that fails -/

/-- A run in which the call at a place fails and does nothing. -/
def Prog.runFailing (h : Handler I σ) (failure : (op : I.Op) → I.Answer op) : Nat → Prog I α → σ → α × σ
  | _, done a, s => (a, s)
  | 0, call op next, s => (next (failure op)).run h s
  | n + 1, call op next, s => (next (h op s).1).runFailing h failure n (h op s).2

def Prog.stateAt (h : Handler I σ) : Nat → Prog I α → σ → σ
  | 0, _, s => s
  | _ + 1, done _, s => s
  | n + 1, call op next, s => (next (h op s).1).stateAt h n (h op s).2

/-- Whichever call fails, the program ends there with this result. -/
def Prog.Surfaces (failure : (op : I.Op) → I.Answer op) (a : α) : Prog I α → Prop
  | done _ => True
  | call op next => next (failure op) = done a ∧ ∀ x, (next x).Surfaces failure a

theorem Prog.Surfaces.runFailing {failure : (op : I.Op) → I.Answer op} {h : Handler I σ} {p : Prog I α} {a : α}
    (hp : p.Surfaces failure a) {n : Nat} {s : σ} (hn : n < (p.trace h s).length) :
    p.runFailing h failure n s = (a, p.stateAt h n s) := by
  induction p generalizing n s with
  | done b => simp [trace] at hn
  | call op next ih =>
    obtain ⟨hend, hnext⟩ := hp
    cases n with
    | zero =>
      unfold Prog.runFailing
      rw [hend]
      rfl
    | succ n => exact ih _ (hnext _) (Nat.lt_of_succ_lt_succ hn)

end

/-! ## Calls of one of two interfaces -/

section
variable {I J : Interface} {σ τ α : Type}

def Handler.left (h : Handler (I.sum J) σ) : Handler I σ :=
  fun op s => h (.inl op) s

def Handler.right (h : Handler (I.sum J) σ) : Handler J σ :=
  fun op s => h (.inr op) s

theorem Prog.run_left (h : Handler (I.sum J) σ) (p : Prog I α) (s : σ) :
    (left p : Prog (I.sum J) α).run h s = p.run h.left s := by
  induction p generalizing s with
  | done a => rfl
  | call op next ih => exact ih _ _

theorem Prog.run_right (h : Handler (I.sum J) σ) (p : Prog J α) (s : σ) :
    (right p : Prog (I.sum J) α).run h s = p.run h.right s := by
  induction p generalizing s with
  | done a => rfl
  | call op next ih => exact ih _ _

theorem Prog.trace_right (h : Handler (I.sum J) σ) (p : Prog J α) (s : σ) :
    (right p : Prog (I.sum J) α).trace h s = (p.trace h.right s).map fun e => ⟨.inr e.1, e.2⟩ := by
  induction p generalizing s with
  | done a => rfl
  | call op next ih =>
    refine congrArg (List.cons _) ?_
    exact ih _ _

/-- Calls of one interface do not meet the state of the other. -/
theorem Prog.run_sum_left (h : Handler I σ) (k : Handler J τ) (p : Prog I α) (s : σ × τ) :
    p.run (Handler.sum h k).left s = ((p.run h s.1).1, (p.run h s.1).2, s.2) := by
  induction p generalizing s with
  | done a => rfl
  | call op next ih => exact ih _ _

theorem Prog.run_sum_right (h : Handler I σ) (k : Handler J τ) (q : Prog J α) (s : σ × τ) :
    q.run (Handler.sum h k).right s = ((q.run k s.2).1, s.1, (q.run k s.2).2) := by
  induction q generalizing s with
  | done a => rfl
  | call op next ih => exact ih _ _

end

/-! ## Programs that may fail -/

namespace Prog

variable {I : Interface} {σ ε α β : Type} (h : Handler I σ)

theorem run_map (g : α → β) (p : Prog I α) (s : σ) : (g <$> p).run h s = (g (p.run h s).1, (p.run h s).2) :=
  run_bind h p (done ∘ g) s

theorem run_run_bind (p : ExceptT ε (Prog I) α) (k : α → ExceptT ε (Prog I) β) (s : σ) :
    (p >>= k).run.run h s =
      match p.run.run h s with
      | (.ok a, s) => (k a).run.run h s
      | (.error e, s) => (.error e, s) := by
  rw [ExceptT.run_bind]
  show (p.run.bind _).run h s = _
  rw [run_bind]
  rcases p.run.run h s with ⟨a | e, s⟩ <;> rfl

theorem run_bind_ok {p : ExceptT ε (Prog I) α} {k : α → ExceptT ε (Prog I) β} {s s' : σ} {b : β} :
    (p >>= k).run.run h s = (.ok b, s') ↔
      ∃ a s₁, p.run.run h s = (.ok a, s₁) ∧ (k a).run.run h s₁ = (.ok b, s') := by
  rw [run_run_bind]
  constructor
  · intro hb
    rcases hp : p.run.run h s with ⟨e | a, s₁⟩
    · rw [hp] at hb
      cases hb
    · rw [hp] at hb
      exact ⟨a, s₁, rfl, hb⟩
  · intro hb
    obtain ⟨a, s₁, hp, hb⟩ := hb
    rw [hp]
    exact hb

theorem run_run_lift (p : Prog I α) (s : σ) :
    (ExceptT.lift p : ExceptT ε (Prog I) α).run.run h s = (.ok (p.run h s).1, (p.run h s).2) := by
  rw [ExceptT.run_lift, run_map]

theorem run_run_map (g : α → β) (p : ExceptT ε (Prog I) α) (s : σ) :
    (g <$> p).run.run h s = ((p.run.run h s).1.map g, (p.run.run h s).2) := by
  rw [map_eq_pure_bind, run_run_bind]
  rcases p.run.run h s with ⟨a | e, s⟩ <;> rfl

/-- What succeeds for a list of items has succeeded for each of them at some point of the run. -/
theorem run_mapM_ok {ι : Type} {g : ι → ExceptT ε (Prog I) β} {R : σ → σ → Prop} (refl : ∀ s, R s s)
    (trans : ∀ {s₁ s₂ s₃}, R s₁ s₂ → R s₂ s₃ → R s₁ s₃)
    (step : ∀ i s, R s ((g i).run.run h s).2) : ∀ {l : List ι} {ys : List β} {s s' : σ},
      (l.mapM g).run.run h s = (.ok ys, s') → R s s' ∧ ∀ y ∈ ys, ∃ i ∈ l, ∃ s₁ s₂,
        R s s₁ ∧ (g i).run.run h s₁ = (.ok y, s₂) ∧ R s₂ s'
  | [], _, s, _, hrun => by
    cases hrun
    exact ⟨refl s, fun y hy => by cases hy⟩
  | i :: l, ys, s, s', hrun => by
    rw [List.mapM_cons] at hrun
    obtain ⟨y, s₁, hi, hrun⟩ := (run_bind_ok h).mp hrun
    obtain ⟨ys, s₂, hl, hrun⟩ := (run_bind_ok h).mp hrun
    cases hrun
    have first := step i s
    rw [hi] at first
    obtain ⟨rest, each⟩ := run_mapM_ok refl trans step hl
    refine ⟨trans first rest, fun z hz => ?_⟩
    rcases List.mem_cons.mp hz with rfl | hz
    · exact ⟨i, List.mem_cons_self, s, s₁, refl s, hi, rest⟩
    · obtain ⟨j, hj, s₃, s₄, hbefore, hz, hafter⟩ := each z hz
      exact ⟨j, List.mem_cons_of_mem _ hj, s₃, s₄, trans first hbefore, hz, hafter⟩

theorem run_mapM_unchanged {ι : Type} {g : ι → ExceptT ε (Prog I) β} {f : ι → β} {s : σ} {l : List ι}
    (step : ∀ i ∈ l, (g i).run.run h s = (.ok (f i), s)) : (l.mapM g).run.run h s = (.ok (l.map f), s) := by
  induction l with
  | nil => rfl
  | cons i l ih =>
    rw [List.mapM_cons, run_run_bind, step i List.mem_cons_self]
    dsimp only
    rw [run_run_bind, ih fun j hj => step j (List.mem_cons_of_mem i hj)]
    rfl

theorem surfaces_run_bind {failure : (op : I.Op) → I.Answer op} {e : ε} {p : ExceptT ε (Prog I) α}
    {k : α → ExceptT ε (Prog I) β} (hp : p.run.Surfaces failure (.error e))
    (hk : ∀ a, (k a).run.Surfaces failure (.error e)) : (p >>= k).run.Surfaces failure (.error e) := by
  rw [ExceptT.run_bind]
  show (p.run.bind _).Surfaces failure _
  generalize p.run = q at hp
  induction q with
  | done x =>
    rcases x with e | a
    · trivial
    · exact hk a
  | call op next ih =>
    obtain ⟨hend, hnext⟩ := hp
    refine ⟨?_, fun x => ih x (hnext x)⟩
    dsimp only
    rw [hend]
    rfl

theorem trace_run_bind (p : ExceptT ε (Prog I) α) (k : α → ExceptT ε (Prog I) β) (s : σ) :
    (p >>= k).run.trace h s = p.run.trace h s ++
      match p.run.run h s with
      | (.ok a, s) => (k a).run.trace h s
      | (.error _, _) => [] := by
  rw [ExceptT.run_bind]
  show (p.run.bind _).trace h s = _
  rw [trace_bind]
  rcases p.run.run h s with ⟨a | e, s⟩ <;> rfl

end Prog

/-! ## Jobs side by side -/

structure Jobs (I : Interface) where
  Job : Type
  Result : Job → Type
  program : (j : Job) → Prog I (Result j)

structure Task {I : Interface} (J : Jobs I) where
  job : J.Job
  rest : Prog I (J.Result job)

def Task.IsDone {I : Interface} {J : Jobs I} (t : Task J) : Prop :=
  ∃ a, t.rest = .done a

theorem Task.not_isDone_call {I : Interface} {J : Jobs I} {j : J.Job} {op : I.Op}
    {next : I.Answer op → Prog I (J.Result j)} : ¬ (⟨j, .call op next⟩ : Task J).IsDone := by
  intro h
  obtain ⟨a, ha⟩ := h
  cases ha

instance {I : Interface} {J : Jobs I} (t : Task J) : Decidable t.IsDone :=
  match t with
  | ⟨_, .done a⟩ => isTrue ⟨a, rfl⟩
  | ⟨_, .call _ _⟩ => isFalse Task.not_isDone_call

/-- Tasks stand in the order in which they were started, and stay when they are done. -/
structure Pool {I : Interface} (J : Jobs I) (σ : Type) where
  state : σ
  tasks : List (Task J)

namespace Pool

variable {I : Interface} {J : Jobs I} {σ : Type}

def idle (J : Jobs I) (s : σ) : Pool J σ :=
  ⟨s, []⟩

def start (p : Pool J σ) (j : J.Job) : Pool J σ :=
  ⟨p.state, p.tasks ++ [⟨j, J.program j⟩]⟩

def proceed (p : Pool J σ) (k : Nat) (t : Task J) (s : σ) : Pool J σ :=
  ⟨s, p.tasks.set k t⟩

inductive Step (t : Transition I σ) (p : Pool J σ) : Pool J σ → Prop
  | start (j : J.Job) : Step t p (p.start j)
  | call {k : Nat} {j : J.Job} {op : I.Op} {next : I.Answer op → Prog I (J.Result j)}
    {x : I.Answer op} {s : σ} :
    p.tasks[k]? = some ⟨j, .call op next⟩ → t op p.state x s → Step t p (p.proceed k ⟨j, next x⟩ s)

/-- One pool is reached from another by steps that end in pools of a kind. -/
def Reaches (t : Transition I σ) (kind : Pool J σ → Prop) : Pool J σ → Pool J σ → Prop :=
  Relation.ReflTransGen fun p q => Step t p q ∧ kind q

def AtRest (p : Pool J σ) : Prop :=
  ∀ t ∈ p.tasks, t.IsDone

instance (p : Pool J σ) : Decidable p.AtRest :=
  inferInstanceAs (Decidable (∀ t ∈ p.tasks, t.IsDone))

/-! ## Tasks in their places -/

section
variable {p q : Pool J σ} {t : Transition I σ} {kind : Pool J σ → Prop} {k i : Nat} {u : Task J}

theorem getElem?_proceed {t : Task J} {s : σ}
    (h : (p.proceed k t s).tasks[i]? = some u) : i = k ∧ u = t ∨ i ≠ k ∧ p.tasks[i]? = some u := by
  unfold proceed at h
  rw [List.getElem?_set] at h
  split at h
  · next hk =>
    split at h
    · exact .inl ⟨hk.symm, (Option.some.inj h).symm⟩
    · cases h
  · next hk => exact .inr ⟨fun e => hk e.symm, h⟩

theorem getElem?_proceed_self {k : Nat} {u : Task J} (t : Task J) (s : σ) (h : p.tasks[k]? = some u) :
    (p.proceed k t s).tasks[k]? = some t :=
  List.getElem?_set_self (List.getElem?_eq_some_iff.mp h).choose

theorem getElem?_start {j : J.Job} {i : Nat} {u : Task J}
    (h : (p.start j).tasks[i]? = some u) :
    i = p.tasks.length ∧ u = ⟨j, J.program j⟩ ∨ i ≠ p.tasks.length ∧ p.tasks[i]? = some u := by
  unfold start at h
  rw [List.getElem?_append] at h
  split at h
  · next hi => exact .inr ⟨Nat.ne_of_lt hi, h⟩
  · next hi =>
    rw [List.getElem?_singleton] at h
    split at h
    · next he => exact .inl ⟨by omega, (Option.some.inj h).symm⟩
    · cases h

theorem getElem?_start_length (p : Pool J σ) (j : J.Job) :
    (p.start j).tasks[p.tasks.length]? = some ⟨j, J.program j⟩ :=
  List.getElem?_concat_length

theorem getElem?_start_of_ne {j : J.Job} (hi : i ≠ p.tasks.length) :
    (p.start j).tasks[i]? = p.tasks[i]? := by
  unfold Pool.start
  rw [List.getElem?_append]
  split
  · rfl
  · rw [List.getElem?_singleton, if_neg (by omega), List.getElem?_eq_none (by omega)]

theorem getElem?_proceed_of_ne {t : Task J} {s : σ} (hi : i ≠ k) :
    (p.proceed k t s).tasks[i]? = p.tasks[i]? :=
  List.getElem?_set_ne (Ne.symm hi)

theorem Step.length_le (h : Step t p q) : p.tasks.length ≤ q.tasks.length := by
  cases h with
  | start j => simp [Pool.start]
  | call hk hc => simp [proceed]

theorem Step.getElem?_done (h : Step t p q) (hk : p.tasks[k]? = some u) (hu : u.IsDone) :
    q.tasks[k]? = some u := by
  cases h with
  | start j =>
    unfold Pool.start
    rw [List.getElem?_append_left (List.getElem?_eq_some_iff.mp hk).choose, hk]
  | @call i j op next x s hi hc =>
    unfold proceed
    rw [List.getElem?_set_ne, hk]
    intro e
    rw [e, hk] at hi
    cases hi
    exact Task.not_isDone_call hu

theorem Reaches.length_le (h : Reaches t kind p q) : p.tasks.length ≤ q.tasks.length := by
  induction h with
  | refl => exact Nat.le_refl _
  | tail _ hs ih => exact Nat.le_trans ih hs.1.length_le

theorem Reaches.of_kind (h : Reaches t kind p q) (hp : kind p) : kind q := by
  cases h with
  | refl => exact hp
  | tail _ hs => exact hs.2

theorem Reaches.getElem?_done (h : Reaches t kind p q) (hk : p.tasks[k]? = some u) (hu : u.IsDone) :
    q.tasks[k]? = some u := by
  induction h with
  | refl => exact hk
  | tail _ hs ih => exact hs.1.getElem?_done ih hu

/-- Every pool on the way lies between the first and the last. -/
theorem Reaches.between (h : Reaches t kind p q) : ∀ {q' : Pool J σ}, Reaches t kind q q' →
    Reaches t (fun r => kind r ∧ Reaches t kind p r ∧ Reaches t kind r q') p q := by
  induction h with
  | refl => exact fun _ => .refl
  | tail h hs ih => exact fun h' => .tail (ih (.head hs h')) ⟨hs.1, hs.2, .tail h hs, h'⟩

end

/-! ## Schedules -/

def next? (h : Handler I σ) (p : Pool J σ) (k : Nat) : Option (Pool J σ) :=
  match p.tasks[k]? with
  | some ⟨j, .call op next⟩ => some (p.proceed k ⟨j, next (h op p.state).1⟩ (h op p.state).2)
  | _ => none

/-- The pool after a schedule of jobs to start and tasks to make a call, if it consists of pools that pass a
test. -/
def drive? (h : Handler I σ) (test : Pool J σ → Bool) : List (J.Job ⊕ Nat) → Pool J σ → Option (Pool J σ)
  | [], p => some p
  | .inl j :: l, p => if test (p.start j) then drive? h test l (p.start j) else none
  | .inr k :: l, p => do
    let q ← p.next? h k
    if test q then drive? h test l q else none

variable {t : Transition I σ} {h : Handler I σ} {p q : Pool J σ} {k : Nat}

theorem step_next (ht : ∀ op s, t op s (h op s).1 (h op s).2) (hn : p.next? h k = some q) : Step t p q := by
  unfold next? at hn
  split at hn
  · next j op next hj =>
    cases hn
    exact .call hj (ht _ _)
  · cases hn

theorem reaches_drive (ht : ∀ op s, t op s (h op s).1 (h op s).2) {test : Pool J σ → Bool}
    {kind : Pool J σ → Prop}
    (hk : ∀ p, test p = true → kind p) :
    ∀ {l : List (J.Job ⊕ Nat)} {p q : Pool J σ}, p.drive? h test l = some q → Reaches t kind p q
  | [], p, q, hd => by cases hd; exact .refl
  | .inl j :: l, p, q, hd => by
    unfold drive? at hd
    split at hd
    · next hp => exact .head ⟨.start j, hk _ hp⟩ (reaches_drive ht hk hd)
    · cases hd
  | .inr k :: l, p, q, hd => by
    unfold drive? at hd
    obtain ⟨p', hn, hd⟩ := Option.bind_eq_some_iff.mp hd
    split at hd
    · next hp => exact .head ⟨step_next ht hn, hk _ hp⟩ (reaches_drive ht hk hd)
    · cases hd

end Pool

end BlobDepot
