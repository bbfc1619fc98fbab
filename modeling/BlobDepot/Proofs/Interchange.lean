import BlobDepot.Proofs.Disciplines
import BlobDepot.Proofs.Transactions

/-!
# Catalogs in memory and in tables

A catalog in tables answers as the memory that its tables hold. So two catalogs that start empty, one in memory
and one in tables, cannot be told apart until one of them is closed: `answers_alike`.
-/

namespace BlobDepot.Catalog

open Prog

/-- Whatever is done with a catalog is answered as by the memory that it holds. -/
theorem Backing.run_holds {α : Type} {b : Backing} {m : Memory} {p : Prog interface α}
    (hp : p.Calls fun op : Op => op ≠ .close) (h : b.Holds m) :
    p.trace Backing.handle b = p.trace Memory.handle m ∧ (p.run Backing.handle b).1 = (p.run Memory.handle m).1 ∧
      (p.run Backing.handle b).2.Holds (p.run Memory.handle m).2 := by
  have step : ∀ (op : Op) (b : Backing) (m : Memory), op ≠ .close → b.Holds m →
      (Backing.handle op b).1 = (Memory.handle op m).1 ∧ (Backing.handle op b).2.Holds (Memory.handle op m).2 := by
    intro op b m hop hb
    exact handle_holds hb hop
  exact hp.run_related step h

theorem Backing.run_of_calls_read {α : Type} {p : Prog interface α}
    (hp : p.Calls fun op : Op => (∃ oid, op = .readObject oid) ∨ ∃ user, op = .readUser user) (b : Backing) :
    (p.run Backing.handle b).2 = b := by
  refine hp.run_unchanged (fun op b' hop => ?_) b
  rcases hop with ⟨oid, rfl⟩ | ⟨user, rfl⟩
  · exact handle_readObject oid b'
  · exact handle_readUser user b'

theorem Relational.run_trace {α : Type} (p : Prog interface α) (r : Relational) :
    p.trace Relational.handle r = p.trace Backing.handle (.relational r) := by
  induction p generalizing r with
  | done a => rfl
  | call op next ih =>
    unfold trace
    rw [ih]
    rfl

def Unmarked : (op : Op) × interface.Answer op → Prop
  | ⟨.readObject _, x⟩ => ∀ r, x = Except.ok (some r) → r.existing = false
  | ⟨.listObjects, x⟩ => ∀ l, x = Except.ok l → ∀ r ∈ l, r.existing = false
  | _ => True

theorem Memory.unmarked_respond {m : Memory} (hk : m.Keyed) (op : Op) :
    Unmarked ⟨op, Except.ok (m.respond op).1⟩ := by
  cases op with
  | readObject oid =>
    intro r hr
    exact (hk oid r (Except.ok.inj hr)).2
  | listObjects =>
    intro l hl r hr
    cases hl
    obtain ⟨oid, ho⟩ := SortedMap.mem_values_iff.mp hr
    exact (hk oid r ho).2
  | _ => trivial

/-- Two catalogs that start empty answer every sequence of calls alike, and never mark a record as found. -/
theorem answers_alike {l : List Op} (hl : Op.close ∉ l) :
    (calling l).trace Memory.handle .empty = (calling l).trace Relational.handle .empty ∧
      ∀ a ∈ (calling l).trace Relational.handle .empty, Unmarked a := by
  have hcalls : (calling l : Prog interface Unit).Calls fun op : Op => op ≠ .close := by
    apply calls_calling
    intro op hop e
    exact hl (e ▸ hop)
  have hempty : (Backing.relational .empty).Holds .empty :=
    .relational Memory.keyed_empty Database.holds_empty
  have htrace : (calling l).trace Memory.handle .empty = (calling l).trace Relational.handle .empty := by
    rw [Relational.run_trace]
    exact (Backing.run_holds hcalls hempty).1.symm
  have hstep : ∀ (op : Op) (m : Memory), m.Keyed →
      Unmarked ⟨op, (Memory.handle op m).1⟩ ∧ (Memory.handle op m).2.Keyed := by
    intro op m hk
    exact ⟨Memory.unmarked_respond hk op, Memory.keyed_respond hk op⟩
  refine ⟨htrace, ?_⟩
  rw [← htrace]
  exact forall_trace hstep _ Memory.keyed_empty

namespace Sample

def session : List Op :=
  [.insertObject (.pending default 3 "q"), .insertObject (.pending default 5 "p"), .addObjectProject default "p",
    .setObjectState default .committed, .addProjectMember "q" default, .createProject "p", .listProjects,
    .insertUser ⟨"b", "1"⟩, .insertUser ⟨"a", "2"⟩, .readObject default, .listObjects, .listUsernames]

end Sample

open Sample in
theorem answers_alike_in_session : Op.close ∉ session ∧
    (calling session).trace Memory.handle .empty = (calling session).trace Relational.handle .empty ∧
      (∀ a ∈ (calling session).trace Relational.handle .empty, Unmarked a) ∧
    ⟨.listUsernames, Except.ok ["a", "b"]⟩ ∈ (calling session).trace Relational.handle .empty := by
  have hclose : Op.close ∉ session := by decide
  have ⟨alike, unmarked⟩ := answers_alike hclose
  refine ⟨hclose, alike, unmarked, ?_⟩
  rw [← alike]
  exact List.mem_of_getElem? (i := 11) rfl

end BlobDepot.Catalog
