import BlobDepot.Files.Tree
import BlobDepot.Proofs.Runs
import BlobDepot.Proofs.SortedMap

/-!
# Places in a tree

What stands at a place after a change, and where a path leads. A path that leads somewhere still leads
there when directories have been added.
-/

namespace BlobDepot

namespace Files

theorem run_ask {σ : Type} (h : Handler interface σ) (op : Op) (s : σ) :
    (ask op).run.run h s = h op s := rfl

namespace Tree

variable {t t' : Tree} {l l' : Location}

/-! ## Nodes -/

theorem node?_put (hl : l ≠ []) (n : Node) (x : Location) :
    (t.put l n).node? x = if x = l then some n else t.node? x := by
  unfold node? put
  by_cases hx : x = []
  · rw [if_pos hx, if_pos hx, if_neg (hx ▸ Ne.symm hl)]
  · rw [if_neg hx, if_neg hx]; exact SortedMap.get?_insert _ _ _ _

theorem node?_erase (hl : l ≠ []) (x : Location) :
    (t.erase l).node? x = if x = l then none else t.node? x := by
  unfold node? erase
  by_cases hx : x = []
  · rw [if_pos hx, if_pos hx, if_neg (hx ▸ Ne.symm hl)]
  · rw [if_neg hx, if_neg hx]; exact SortedMap.get?_erase _ _ _

/-! ## Paths -/

theorem walk_cons {name : String} {r : List String} (hl : t.node? l = some .directory) (hn : name ≠ "..") :
    t.walk l (name :: r) = t.walk (l ++ [name]) r := by
  simp only [walk, hl, if_neg hn]

theorem walk_cons_none {name : String} {r : List String} (hl : t.node? l = none) :
    t.walk l (name :: r) = .error .noEntry := by
  simp only [walk, hl]

theorem walk_append {more : List String} : ∀ {names : List String} {l : Location}, t.walk l names = .ok l' →
    t.walk l (names ++ more) = t.walk l' more
  | [], l, h => by cases h; rfl
  | name :: names, l, h => by
    unfold walk at h
    rw [List.cons_append, walk]
    split at h
    · cases h
    · split at h
      · next hn => rw [if_pos hn]; exact walk_append h
      · next hn => rw [if_neg hn]; exact walk_append h
    · cases h

theorem walk_mono (hd : ∀ x, t.node? x = some .directory → t'.node? x = some .directory) :
    ∀ {names : List String} {l : Location}, t.walk l names = .ok l' → t'.walk l names = .ok l'
  | [], l, h => h
  | name :: names, l, h => by
    unfold walk at h ⊢
    split at h
    · cases h
    · next hl =>
      rw [hd l hl]
      split at h
      · next hn => rw [if_pos hn]; exact walk_mono hd h
      · next hn => rw [if_neg hn]; exact walk_mono hd h
    · cases h

theorem resolve_mono (hd : ∀ x, t.node? x = some .directory → t'.node? x = some .directory)
    (hh : t'.home = t.home)
    {p : FilePath} (h : t.resolve p = .ok l) : t'.resolve p = .ok l := by
  unfold resolve at h ⊢
  rw [hh]; exact walk_mono hd h

theorem resolve_put {p : FilePath} {q : Location} (hq : q ≠ []) (hn : t.node? q ≠ some .directory) (n : Node)
    (h : t.resolve p = .ok l) : (t.put q n).resolve p = .ok l := by
  have hd : ∀ x, t.node? x = some .directory → (t.put q n).node? x = some .directory := by
    intro x hx
    rw [node?_put hq, if_neg]
    · exact hx
    · intro e; exact hn (e ▸ hx)
  exact resolve_mono hd rfl h

theorem resolve_join {p : FilePath} (h : t.resolve p = .ok l) (parts : List String) :
    t.resolve (p.join parts) = t.walk l parts :=
  walk_append h

theorem lookUp_of_resolve {p : FilePath} (h : t.resolve p = .ok l) :
    t.lookUp p = match t.node? l with
      | some n => .ok (l, n)
      | none => .error .noEntry := by
  unfold lookUp
  rw [h]
  show (match t.node? l with
    | some n => pure (l, n)
    | none => throw .noEntry : Except IoFault (Location × Node)) = _
  cases t.node? l <;> rfl

/-! ## Files -/

theorem handle_create {p : FilePath} (h : t.resolve p = .ok l) (hn : t.node? l ≠ some .directory) :
    handle (.create p) t = (.ok (), t.put l (.file .empty)) := by
  have : t.create p = .ok (t.put l (.file .empty)) := by
    unfold create
    rw [h]
    dsimp only [bind, Except.bind]
    split
    · next hd => exact absurd hd hn
    · rfl
  simp only [handle, this]; rfl

theorem handle_rename {p p' : FilePath} {n : Node} (h : t.lookUp p = .ok (l, n))
    (h' : t.resolve p' = .ok l')
    (hn : t.node? l' ≠ some .directory) : handle (.rename p p') t = (.ok (), (t.erase l).put l' n) := by
  have : t.rename p p' = .ok ((t.erase l).put l' n) := by
    unfold rename
    rw [h, h']
    dsimp only [bind, Except.bind]
    split
    · next hd => exact absurd hd hn
    · rfl
  simp only [handle, this]; rfl

/-! A call that fails changes nothing. -/

theorem create_cases (t : Tree) (p : FilePath) :
    (∃ l, t.resolve p = .ok l ∧ t.node? l ≠ some .directory ∧
      handle (.create p) t = (.ok (), t.put l (.file .empty))) ∨
    ∃ f, handle (.create p) t = (.error f, t) := by
  cases h : t.resolve p with
  | error f =>
    refine .inr ⟨f, ?_⟩
    simp only [handle, create, h]
    rfl
  | ok l =>
    by_cases hn : t.node? l = some .directory
    · have hfailed : t.create p = .error .isDirectory := by
        unfold create
        rw [h]
        dsimp only [bind, Except.bind]
        rw [hn]
        rfl
      exact .inr ⟨.isDirectory, congrArg t.change hfailed⟩
    · exact .inl ⟨l, rfl, hn, handle_create h hn⟩

theorem rename_cases (t : Tree) (p p' : FilePath) :
    (∃ l n l', t.lookUp p = .ok (l, n) ∧ t.resolve p' = .ok l' ∧ t.node? l' ≠ some .directory ∧
      handle (.rename p p') t = (.ok (), (t.erase l).put l' n)) ∨
    ∃ f, handle (.rename p p') t = (.error f, t) := by
  cases h : t.lookUp p with
  | error f =>
    refine .inr ⟨f, ?_⟩
    simp only [handle, rename, h]
    rfl
  | ok found =>
    obtain ⟨l, n⟩ := found
    cases h' : t.resolve p' with
    | error f =>
      refine .inr ⟨f, ?_⟩
      simp only [handle, rename, h, h']
      rfl
    | ok l' =>
      by_cases hn : t.node? l' = some .directory
      · have hfailed : t.rename p p' = .error .isDirectory := by
          unfold rename
          rw [h, h']
          dsimp only [bind, Except.bind]
          rw [hn]
          rfl
        exact .inr ⟨.isDirectory, congrArg t.change hfailed⟩
      · exact .inl ⟨l, n, l', rfl, rfl, hn, handle_rename h h' hn⟩

theorem remove_cases (t : Tree) (p : FilePath) :
    (∃ l n, t.lookUp p = .ok (l, n) ∧ n ≠ .directory ∧ handle (.remove p) t = (.ok (), t.erase l)) ∨
    (∀ l n, t.lookUp p = .ok (l, n) → n = .directory) ∧ ∃ f, handle (.remove p) t = (.error f, t) := by
  cases h : t.lookUp p with
  | error f =>
    refine .inr ⟨fun l n hn => (by cases hn), f, ?_⟩
    simp only [handle, remove, h]
    rfl
  | ok found =>
    obtain ⟨l, n⟩ := found
    cases n with
    | directory =>
      refine .inr ⟨fun l' n hn => (by cases hn; rfl), .isDirectory, ?_⟩
      simp only [handle, remove, h]
      rfl
    | _ =>
      refine .inl ⟨l, _, rfl, by simp, ?_⟩
      simp only [handle, remove, h]
      rfl

/-! ## Making directories -/

theorem makeDirectory_absent {p : FilePath} (h : t.resolve p = .ok l) (hn : t.node? l = none) :
    handle (.makeDirectory p) t = (.ok (), t.put l .directory) := by
  simp only [handle, makeDirectory, h]
  show t.change (match t.node? l with
    | some _ => throw .exists
    | none => pure (t.put l .directory)) = _
  rw [hn]; rfl

theorem makeDirectory_present {p : FilePath} (h : t.resolve p = .ok l) (hn : t.node? l = some .directory) :
    handle (.makeDirectory p) t = (.error .exists, t) := by
  simp only [handle, makeDirectory, h]
  show t.change (match t.node? l with
    | some _ => throw .exists
    | none => pure (t.put l .directory)) = _
  rw [hn]; rfl

theorem makeDirectory_error {p : FilePath} {f : IoFault} (h : t.resolve p = .error f) :
    handle (.makeDirectory p) t = (.error f, t) := by
  simp only [handle, makeDirectory, h]; rfl

theorem makeDirectory_cases (t : Tree) (p : FilePath) :
    (∃ l, t.resolve p = .ok l ∧ t.node? l = none ∧ handle (.makeDirectory p) t = (.ok (), t.put l .directory)) ∨
    ∃ f, handle (.makeDirectory p) t = (.error f, t) := by
  cases h : t.resolve p with
  | error f => exact .inr ⟨f, makeDirectory_error h⟩
  | ok l =>
    cases hn : t.node? l with
    | none => exact .inl ⟨l, rfl, hn, makeDirectory_absent h hn⟩
    | some n =>
      refine .inr ⟨.exists, ?_⟩
      simp only [handle, makeDirectory, h]
      show t.change (match t.node? l with
        | some _ => throw .exists
        | none => pure (t.put l .directory)) = _
      rw [hn]
      rfl

theorem isDirectory_of_resolve {p : FilePath} (h : t.resolve p = .ok l) (hn : t.node? l = some .directory) :
    t.isDirectory p = true := by
  unfold isDirectory
  rw [lookUp_of_resolve h, hn]

theorem run_makeDirectories {isAbsolute : Bool} {name : String} {above : List String}
    (h : t.resolve ⟨isAbsolute, (name :: above).reverse⟩ = .ok l) (hl : l ≠ [])
    (hn : t.node? l = none ∨ t.node? l = some .directory) :
    ∃ t', (makeDirectories isAbsolute (name :: above)).run.run handle t = (.ok (), t') ∧
      t'.home = t.home ∧ t'.next = t.next ∧
      ∀ x, t'.node? x = if x = l then some .directory else t.node? x := by
  unfold makeDirectories
  rw [Prog.run_run_bind, Prog.run_run_lift, run_ask]
  rcases hn with hn | hn
  · rw [makeDirectory_absent h hn]
    exact ⟨_, rfl, rfl, rfl, fun x => node?_put hl _ x⟩
  · rw [makeDirectory_present h hn]
    dsimp only
    rw [Prog.run_run_bind, run_ask]
    simp only [handle, isDirectory_of_resolve h hn]
    refine ⟨t, rfl, rfl, rfl, fun x => ?_⟩
    split
    · next hx => rw [hx, hn]
    · rfl

theorem run_makeDirectories_above {isAbsolute : Bool} {name : String} {above : List String} {t₁ : Tree}
    (hm : t.resolve ⟨isAbsolute, (name :: above).reverse⟩ = .error .noEntry)
    (ha : (makeDirectories isAbsolute above).run.run handle t = (.ok (), t₁))
    (h : t₁.resolve ⟨isAbsolute, (name :: above).reverse⟩ = .ok l) (hn : t₁.node? l = none) :
    (makeDirectories isAbsolute (name :: above)).run.run handle t = (.ok (), t₁.put l .directory) := by
  unfold makeDirectories
  rw [Prog.run_run_bind, Prog.run_run_lift, run_ask, makeDirectory_error hm]
  dsimp only
  rw [Prog.run_run_bind, ha]
  dsimp only
  rw [Prog.run_run_bind, Prog.run_run_lift, run_ask, makeDirectory_absent h hn]
  rfl

/-! ## Calls that are cut short -/

/-- How far a call may have come when it fails. A file is renamed in one step, and removing one does not fail. -/
inductive Leaves : Op → Tree → Tree → Prop
  | nothing {op : Op} (t : Tree) : (∀ p, op ≠ .remove p) → Leaves op t t
  | directory (p : FilePath) (t : Tree) : Leaves (.makeDirectory p) t (handle (.makeDirectory p) t).2
  | file (p : FilePath) (t : Tree) : Leaves (.create p) t (handle (.create p) t).2
  | bytes (p : FilePath) (b : ByteArray) (k : Nat) (t : Tree) :
    Leaves (.append p b) t (handle (.append p (b.extract 0 k)) t).2

def orCutShort : Transition interface Tree :=
  fun op t x t' => handle op t = (x, t') ∨ (∃ f, x = .error f) ∧ Leaves op t t'

end Tree

end Files

end BlobDepot
