/-!
# Programs over an interface

A program is a tree of calls of an interface. What a call answers is left open until a handler runs
the program, so a program can be run against any implementation, with other programs in between, or
with calls that fail.
-/

namespace BlobDepot

structure Interface where
  Op : Type
  Answer : Op → Type

/-- Either a result, or a call and what to do with its answer. -/
inductive Prog (I : Interface) (α : Type) : Type where
  | done (a : α)
  | call (op : I.Op) (next : I.Answer op → Prog I α)

namespace Prog

variable {I J : Interface} {α β γ : Type}

def bind : Prog I α → (α → Prog I β) → Prog I β
  | done a, f => f a
  | call op next, f => call op fun x => (next x).bind f

instance : Monad (Prog I) where
  pure := done
  bind := bind

theorem bind_done (p : Prog I α) : p.bind done = p := by
  induction p with
  | done a => rfl
  | call op next ih => simp only [bind, ih]

theorem bind_assoc (p : Prog I α) (f : α → Prog I β) (g : β → Prog I γ) :
    (p.bind f).bind g = p.bind fun a => (f a).bind g := by
  induction p with
  | done a => rfl
  | call op next ih => simp only [bind, ih]

instance : LawfulMonad (Prog I) :=
  LawfulMonad.mk' (Prog I) (fun p => bind_done p) (fun _ _ => rfl) fun p f g => bind_assoc p f g

def perform (op : I.Op) : Prog I (I.Answer op) :=
  call op done

end Prog

/-- Answers a call and changes a state. -/
abbrev Handler (I : Interface) (σ : Type) :=
  (op : I.Op) → σ → I.Answer op × σ

namespace Prog

variable {I J : Interface} {α β σ : Type}

def run (h : Handler I σ) : Prog I α → σ → α × σ
  | done a, s => (a, s)
  | call op next, s =>
    let (x, s) := h op s
    (next x).run h s

theorem run_bind (h : Handler I σ) (p : Prog I α) (f : α → Prog I β) (s : σ) :
    (p.bind f).run h s = (f (p.run h s).1).run h (p.run h s).2 := by
  induction p generalizing s with
  | done a => rfl
  | call op next ih => simp only [bind, run, ih]

/-- Replaces each call by a program over another interface. -/
def interpret (f : (op : I.Op) → Prog J (I.Answer op)) : Prog I α → Prog J α
  | done a => done a
  | call op next => (f op).bind fun x => (next x).interpret f

end Prog

/-! ## Two interfaces side by side -/

/-- The calls of either interface. -/
def Interface.sum (I J : Interface) : Interface :=
  ⟨I.Op ⊕ J.Op, Sum.elim I.Answer J.Answer⟩

namespace Prog

variable {I J : Interface} {α : Type}

def left (p : Prog I α) : Prog (I.sum J) α :=
  p.interpret fun op => .call (.inl op) .done

def right (p : Prog J α) : Prog (I.sum J) α :=
  p.interpret fun op => .call (.inr op) .done

/-- Answers the calls of the first interface, so that those of the second remain. -/
def supply {σ : Type} (h : Handler I σ) : Prog (I.sum J) α → σ → Prog J (α × σ)
  | done a, s => done (a, s)
  | call (.inl op) next, s => (next (h op s).1).supply h (h op s).2
  | call (.inr op) next, s => call op fun x => (next x).supply h s

end Prog

/-- Each interface has a handler and a state of its own. -/
def Handler.sum {I J : Interface} {σ τ : Type} (h : Handler I σ) (k : Handler J τ) :
    Handler (I.sum J) (σ × τ)
  | .inl op, s =>
    let (x, a) := h op s.1
    (x, (a, s.2))
  | .inr op, s =>
    let (x, b) := k op s.2
    (x, (s.1, b))

end BlobDepot
