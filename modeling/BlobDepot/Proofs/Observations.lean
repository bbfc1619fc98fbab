import BlobDepot.Proofs.Disciplines
import BlobDepot.Proofs.Vaults

/-!
# Vaults in memory and in files

A vault of files answers as the memory that its files hold, whoever calls it and whatever is made of the answers.
So a vault of files that starts below an empty root cannot be told from a vault in memory that starts empty:
`indistinguishable`.
-/

namespace BlobDepot.Vault

open Prog

/-! ## Fresh roots -/

def Filed.Fresh (root : FilePath) (t : Files.Tree) : Prop :=
  ∃ l, t.resolve root = .ok l ∧ t.node? l = some .directory ∧ ∀ x, x ≠ [] → t.node? (l ++ x) = none

theorem Filed.fresh_of_makePath {root : FilePath} {t : Files.Tree} {l : Files.Location} (hp : root.parts ≠ [])
    (hr : t.resolve root = .ok l) (hl : l ≠ []) (hn : ∀ x, t.node? (l ++ x) = none) :
    ∃ t', (Files.makePath root).run.run Files.Tree.handle t = (.ok (), t') ∧ Fresh root t' := by
  obtain ⟨name, above, hparts⟩ := List.exists_cons_of_ne_nil (mt List.reverse_eq_nil_iff.mp hp)
  have hroot : (⟨root.isAbsolute, (name :: above).reverse⟩ : FilePath) = root := by
    rw [← hparts, List.reverse_reverse]
  have hnone : t.node? l = none := by simpa using hn []
  obtain ⟨t', hrun, hh, -, hn'⟩ := Files.Tree.run_makeDirectories (hroot.symm ▸ hr) hl (.inl hnone)
  have hd : ∀ x, t.node? x = some .directory → t'.node? x = some .directory := by
    intro x hx
    rw [hn']
    split
    · rfl
    · exact hx
  refine ⟨t', ?_, l, Files.Tree.resolve_mono hd hh hr, by rw [hn', if_pos rfl], fun x hx => ?_⟩
  · unfold Files.makePath
    rw [hparts]
    exact hrun
  · rw [hn', if_neg (by simpa using hx), hn]

/-! ## Sessions -/

inductive Request where
  | write (oid : Oid) (source : Stream) (length : Nat)
  | openBlob (oid : Oid)
  | size (oid : Oid)
  | present (oid : Oid)
  | delete (oid : Oid)

@[reducible] def Request.Result : Request → Type
  | write _ _ _ => Unit
  | openBlob _ => Option Stream
  | size _ => Option Nat
  | present _ | delete _ => Bool

def Request.program : (r : Request) → VaultM r.Result
  | write oid source length => ask (.write oid source length)
  | openBlob oid => ask (.openBlob oid)
  | size oid => ask (.size oid)
  | present oid => Vault.present oid
  | delete oid => ask (.delete oid)

abbrev Answered :=
  (r : Request) × Except VaultError r.Result

/-- Requests one after another, whatever comes of them. -/
def session : List Request → Prog interface (List Answered)
  | [] => pure []
  | r :: later => do
    let x ← r.program.run
    let answers ← session later
    pure (⟨r, x⟩ :: answers)

/-- All that is answered after a write that fails is answered as if it had not been made. -/
def LeavesNoTrace {σ : Type} (h : Handler interface σ) (s : σ) : Prop :=
  ∀ oid source length e, (h (.write oid source length) s).1 = .error e →
    ∀ later, ((session later).run h (h (.write oid source length) s).2).1 = ((session later).run h s).1

/-! ## Answers -/

theorem Memory.handle_write_error {m : Memory} {oid : Oid} {source : Stream} {length : Nat} {e : VaultError}
    (h : (handle (.write oid source length) m).1 = .error e) : (handle (.write oid source length) m).2 = m := by
  unfold handle at h ⊢
  dsimp only at h ⊢
  cases hread : readExactly source length with
  | ok b =>
    rw [hread] at h
    cases h
  | error e => rfl

theorem Memory.leavesNoTrace (m : Memory) : LeavesNoTrace handle m := by
  intro oid source length e he later
  rw [handle_write_error he]

namespace Filed

variable {root : FilePath} {t : Files.Tree} {l : Files.Location} {m : Memory}

/-- Whatever is done with a vault of files is answered as by the memory that its files hold. -/
theorem HoldsAt.run_holds {α : Type} (h : HoldsAt root t l m) (p : Prog interface α) :
    p.trace (Filed.handle Files.Tree.handle root) t = p.trace Memory.handle m ∧
      (p.run (Filed.handle Files.Tree.handle root) t).1 = (p.run Memory.handle m).1 ∧
      HoldsAt root (p.run (Filed.handle Files.Tree.handle root) t).2 l (p.run Memory.handle m).2 := by
  have step : ∀ op t m, True → HoldsAt root t l m →
      (Filed.handle Files.Tree.handle root op t).1 = (Memory.handle op m).1 ∧
        HoldsAt root (Filed.handle Files.Tree.handle root op t).2 l (Memory.handle op m).2 :=
    fun op _ _ _ ht => ht.handle_holds op
  exact (calls_any p).run_related step h

theorem HoldsAt.leavesNoTrace (h : HoldsAt root t l m) :
    LeavesNoTrace (Filed.handle Files.Tree.handle root) t := by
  intro oid source length e he later
  obtain ⟨ha, hs⟩ := h.handle_holds (.write oid source length)
  rw [ha] at he
  rw [Memory.handle_write_error he] at hs
  rw [(hs.run_holds (session later)).2.1, (h.run_holds (session later)).2.1]

end Filed

/-- Every session with a vault of files below a fresh root is answered as one with an empty vault in memory, and
after it no write that fails leaves a trace in either of them. -/
theorem indistinguishable {root : FilePath} {t : Files.Tree} (h : Filed.Fresh root t) (requests : List Request) :
    ((session requests).run (Filed.handle Files.Tree.handle root) t).1 =
        ((session requests).run Memory.handle .empty).1 ∧
      LeavesNoTrace (Filed.handle Files.Tree.handle root)
        ((session requests).run (Filed.handle Files.Tree.handle root) t).2 ∧
      LeavesNoTrace Memory.handle ((session requests).run Memory.handle .empty).2 := by
  obtain ⟨l, hr, hb, hn⟩ := h
  obtain ⟨-, answers, holds⟩ := (Filed.holdsAt_empty hr hb hn).run_holds (session requests)
  exact ⟨answers, holds.leavesNoTrace, Memory.leavesNoTrace _⟩

namespace Sample

def root : FilePath :=
  ⟨false, ["blobs"]⟩

def fault : IoFault :=
  .other "connection reset"

def opened : Files.Tree :=
  ((Files.makePath root).run.run Files.Tree.handle (.ofHome ["srv"])).2

def two : ByteArray :=
  ⟨#[1, 2]⟩

def requests : List Request :=
  [.write default [.bytes two] 3, .present default, .write default [.bytes two, .bytes two] 2, .size default,
    .present default, .write default [.bytes two, .fault fault] 4, .openBlob default, .delete default, .present default,
    .delete default]

theorem fresh_opened : Filed.Fresh root opened := by
  have hn : ∀ x, (Files.Tree.ofHome ["srv"]).node? (["srv", "blobs"] ++ x) = none := by
    intro x
    have hentries : (Files.Tree.ofHome ["srv"]).nodes.entries.map Prod.fst = [["srv"]] := by decide
    rw [Files.Tree.node?, if_neg (by simp), SortedMap.get?_eq_none_iff]
    intro n hn
    have hkey := List.mem_map_of_mem (f := Prod.fst) hn
    rw [hentries] at hkey
    simp at hkey
  obtain ⟨t, hrun, ht⟩ :
      ∃ t, (Files.makePath root).run.run Files.Tree.handle (.ofHome ["srv"]) = (.ok (), t) ∧ Filed.Fresh root t :=
    Filed.fresh_of_makePath (by decide) rfl (by decide) hn
  unfold opened
  rw [hrun]
  exact ht

end Sample

open Sample in
theorem indistinguishable_when_readers_fail : Filed.Fresh root opened ∧
    ((session requests).run (Filed.handle Files.Tree.handle root) opened).1 =
      [⟨requests[0], .error (.sizeMismatch 3 2)⟩, ⟨requests[1], .ok false⟩, ⟨requests[2], .ok ()⟩,
        ⟨requests[3], .ok (some 2)⟩, ⟨requests[4], .ok true⟩, ⟨requests[5], .error (.io fault)⟩,
        ⟨requests[6], .ok (some (Stream.ofBytes two))⟩, ⟨requests[7], .ok true⟩, ⟨requests[8], .ok false⟩,
        ⟨requests[9], .ok false⟩] ∧
    LeavesNoTrace (Filed.handle Files.Tree.handle root)
      ((session requests).run (Filed.handle Files.Tree.handle root) opened).2 ∧
    LeavesNoTrace Memory.handle ((session requests).run Memory.handle .empty).2 := by
  obtain ⟨alike, files, memory⟩ := indistinguishable fresh_opened requests
  refine ⟨fresh_opened, ?_, files, memory⟩
  rw [alike]
  rfl

end BlobDepot.Vault
