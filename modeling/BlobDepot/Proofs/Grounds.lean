import BlobDepot.Proofs.Vaults

/-!
# Where the files of objects are

Below a root that is a directory, each object has a place of its own, and no file in the making has the place of an
object. What is answered of an object depends on what is in its place, and so making directories and files beside it
makes no difference: `Undisturbed`. A file that is renamed takes the place of one object and leaves all others alone.
-/

namespace BlobDepot.Vault

open Files (Location Node)

namespace Filed

variable {root : FilePath} {t t' : Files.Tree} {l q : Location} {oid : Oid} {name : String} {n : Node}

/-! ## Paths -/

theorem join_inj {parts parts' : List String} (h : root.join parts = root.join parts') : parts = parts' :=
  List.append_cancel_left (congrArg FilePath.parts h)

theorem path_inj {o : Oid} (h : path root oid = path root o) : oid = o := by
  have hnames := join_inj h
  simp only [shard, List.cons_append, List.nil_append, List.cons.injEq, and_true] at hnames
  exact Oid.hex_inj.mp hnames.2.2

/-- No file in the making is where an object's is to be. -/
theorem partialPath_ne_path (root : FilePath) (oid : Oid) (k : Nat) (o : Oid) :
    partialPath root oid k ≠ path root o := by
  intro h
  have hnames := join_inj h
  simp only [shard, List.cons_append, List.nil_append, List.cons.injEq, and_true] at hnames
  exact partialName_ne_hex oid k o hnames.2.2

/-! ## Trees with a root -/

/-- The root is a directory, and everything lies in directories. -/
structure Grounded (root : FilePath) (t : Files.Tree) (l : Location) : Prop where
  rooted : t.resolve root = .ok l
  base : t.node? l = some .directory
  closed : ∀ x name, t.node? (x ++ [name]) ≠ none → t.node? x = some .directory

def place (l : Location) (oid : Oid) (name : String) : Location :=
  l ++ [outer oid, inner oid, name]

theorem place_ne_nil (l : Location) (oid : Oid) (name : String) : place l oid name ≠ [] := by
  simp [place]

theorem length_place (l : Location) (oid : Oid) (name : String) : (place l oid name).length = l.length + 3 := by
  simp [place]

theorem place_inj {o : Oid} {name' : String} : place l o name = place l oid name' ↔
    outer o = outer oid ∧ inner o = inner oid ∧ name = name' := by
  simp [place]

namespace Grounded

theorem lookUp_file (h : Grounded root t l) (oid : Oid) (hname : name ≠ "..") :
    t.lookUp (root.join [outer oid, inner oid, name]) =
      match t.node? (l ++ [outer oid]) with
      | none => .error .noEntry
      | some .directory =>
        match t.node? (l ++ [outer oid, inner oid]) with
        | none => .error .noEntry
        | some .directory =>
          match t.node? (place l oid name) with
          | some n => .ok (place l oid name, n)
          | none => .error .noEntry
        | some _ => .error .notDirectory
      | some _ => .error .notDirectory := by
  have houter : l ++ [outer oid] ++ [inner oid] = l ++ [outer oid, inner oid] := by simp
  have hinner : l ++ [outer oid] ++ [inner oid] ++ [name] = place l oid name := by simp [place]
  unfold Files.Tree.lookUp
  rw [Files.Tree.resolve_join h.rooted, Files.Tree.walk_cons h.base (outer_ne_dots oid)]
  unfold Files.Tree.walk
  cases t.node? (l ++ [outer oid]) with
  | none => rfl
  | some a =>
    cases a with
    | directory =>
      dsimp only
      rw [if_neg (inner_ne_dots oid)]
      unfold Files.Tree.walk
      rw [houter]
      cases t.node? (l ++ [outer oid, inner oid]) with
      | none => rfl
      | some b =>
        cases b with
        | directory =>
          dsimp only
          rw [if_neg hname, ← houter, hinner]
          show (match t.node? (place l oid name) with
            | some n => pure (place l oid name, n)
            | none => throw .noEntry : Except IoFault (Location × Node)) = _
          cases t.node? (place l oid name) <;> rfl
        | _ => rfl
    | _ => rfl

theorem outer_of_inner (h : Grounded root t l) (hn : t.node? (l ++ [outer oid, inner oid]) ≠ none) :
    t.node? (l ++ [outer oid]) = some .directory :=
  h.closed _ (inner oid) (by simpa using hn)

theorem inner_of_place (h : Grounded root t l) (hn : t.node? (place l oid name) ≠ none) :
    t.node? (l ++ [outer oid, inner oid]) = some .directory :=
  h.closed _ name (by simpa [place] using hn)

theorem missing_below (h : Grounded root t l) {x : Location} (hx : t.node? x = none) (name : String) :
    t.node? (x ++ [name]) = none := by
  by_contra hn
  rw [h.closed x name hn] at hx
  cases hx

theorem lookUp_iff (h : Grounded root t l) (hname : name ≠ "..") :
    t.lookUp (root.join [outer oid, inner oid, name]) = .ok (q, n) ↔
      q = place l oid name ∧ t.node? (place l oid name) = some n := by
  rw [h.lookUp_file oid hname]
  constructor
  · intro hn
    split at hn
    · cases hn
    · split at hn
      · cases hn
      · split at hn
        · next hplace =>
          cases hn
          exact ⟨rfl, hplace⟩
        · cases hn
      · cases hn
    · cases hn
  · intro hn
    obtain ⟨rfl, hplace⟩ := hn
    have hinner := h.inner_of_place (by simp [hplace] : t.node? (place l oid name) ≠ none)
    have houter := h.outer_of_inner (by simp [hinner] : t.node? (l ++ [outer oid, inner oid]) ≠ none)
    simp only [houter, hinner, hplace]

theorem resolve_file (h : Grounded root t l) (hname : name ≠ "..")
    (hinner : t.node? (l ++ [outer oid, inner oid]) = some .directory) :
    t.resolve (root.join [outer oid, inner oid, name]) = .ok (place l oid name) :=
  resolve_file_of_directories h.rooted h.base (h.outer_of_inner (by simp [hinner])) hinner hname

/-- What a path leads to is the same when directories have been added and other files have been changed. -/
theorem lookUp_congr (h : Grounded root t l) (h' : Grounded root t' l) (hname : name ≠ "..")
    (habove : ∀ x : Location, x.length ≠ l.length + 3 →
      t'.node? x = t.node? x ∨ t.node? x = none ∧ t'.node? x = some .directory)
    (hplace : t'.node? (place l oid name) = t.node? (place l oid name)) :
    t'.lookUp (root.join [outer oid, inner oid, name]) = t.lookUp (root.join [outer oid, inner oid, name]) := by
  have hmissing (hinner : t.node? (l ++ [outer oid, inner oid]) = none) : t.node? (place l oid name) = none := by
    simpa [place] using h.missing_below hinner name
  rw [h.lookUp_file oid hname, h'.lookUp_file oid hname, hplace]
  rcases habove (l ++ [outer oid]) (by simp) with houter | ⟨houter, houter'⟩
  · rw [houter]
    rcases habove (l ++ [outer oid, inner oid]) (by simp) with hinner | ⟨hinner, hinner'⟩
    · rw [hinner]
    · rw [hinner, hinner', hmissing hinner]
  · have hinner : t.node? (l ++ [outer oid, inner oid]) = none := by simpa using h.missing_below houter (inner oid)
    rw [houter, houter', hmissing hinner]
    rcases habove (l ++ [outer oid, inner oid]) (by simp) with hinner' | ⟨-, hinner'⟩
    · rw [hinner', hinner]
    · rw [hinner']

theorem place_of_resolve (h : Grounded root t l) (hname : name ≠ "..")
    (hq : t.resolve (root.join [outer oid, inner oid, name]) = .ok q) :
    q = place l oid name ∧ t.node? (l ++ [outer oid, inner oid]) = some .directory := by
  by_cases hinner : t.node? (l ++ [outer oid, inner oid]) = some .directory
  · rw [h.resolve_file hname hinner] at hq
    cases hq
    exact ⟨rfl, hinner⟩
  · rw [Files.Tree.resolve_join h.rooted, Files.Tree.walk_cons h.base (outer_ne_dots oid)] at hq
    unfold Files.Tree.walk at hq
    split at hq
    · cases hq
    · rw [if_neg (inner_ne_dots oid)] at hq
      unfold Files.Tree.walk at hq
      split at hq
      · cases hq
      · next hdirectory => exact absurd (by simpa using hdirectory) hinner
      · cases hq
    · cases hq

/-- Directories stay, and what is new lies in directories. -/
theorem carry (h : Grounded root t l) (hhome : t'.home = t.home)
    (hd : ∀ x, t.node? x = some .directory → t'.node? x = some .directory)
    (hnew : ∀ x name, t'.node? (x ++ [name]) ≠ none → t.node? (x ++ [name]) ≠ none ∨ t.node? x = some .directory) :
    Grounded root t' l where
  rooted := Files.Tree.resolve_mono hd hhome h.rooted
  base := hd l h.base
  closed x name hx := hd x ((hnew x name hx).elim (h.closed x name) id)

/-- A file in the directory of an object is made, is changed or is taken away. -/
theorem refiled {v : Option Node} (h : Grounded root t l) (hhome : t'.home = t.home)
    (hn : ∀ x, t'.node? x = if x = place l oid name then v else t.node? x)
    (hold : t.node? (place l oid name) ≠ some .directory)
    (hv : v = none ∨ t.node? (l ++ [outer oid, inner oid]) = some .directory) : Grounded root t' l := by
  refine h.carry hhome (fun x hx => ?_) fun x last hx => ?_
  · rw [hn, if_neg]
    · exact hx
    · intro e
      exact hold (e ▸ hx)
  · rw [hn] at hx
    split at hx
    · next e =>
      right
      have hparent : x = l ++ [outer oid, inner oid] := by
        have hdrop := congrArg List.dropLast e
        simpa [place] using hdrop
      rw [hparent]
      exact hv.resolve_left hx
    · exact .inl hx

theorem shelved (h : Grounded root t l) (hhome : t'.home = t.home)
    (hq : q = l ++ [outer oid] ∨ q = l ++ [outer oid, inner oid] ∧ t.node? (l ++ [outer oid]) = some .directory)
    (hn : ∀ x, t'.node? x = if x = q then some .directory else t.node? x) : Grounded root t' l := by
  refine h.carry hhome (fun x hx => ?_) fun x last hx => ?_
  · rw [hn]
    split
    · rfl
    · exact hx
  · rw [hn] at hx
    split at hx
    · next e =>
      right
      have hdrop := congrArg List.dropLast e
      rcases hq with rfl | ⟨rfl, houter⟩
      · have hparent : x = l := by simpa using hdrop
        rw [hparent]
        exact h.base
      · have hparent : x = l ++ [outer oid] := by simpa using hdrop
        rw [hparent]
        exact houter
    · exact .inl hx

/-- On the way to the directory of an object nothing but its own two directories can be missing. -/
theorem missing_of_resolve {p : FilePath} (h : Grounded root t l) (hstart : p.isAbsolute = root.isAbsolute)
    (hparts : p.parts <+: (directory root oid).parts) (hq : t.resolve p = .ok q) (hn : t.node? q = none) :
    q = l ++ [outer oid] ∨ q = l ++ [outer oid, inner oid] ∧ t.node? (l ++ [outer oid]) = some .directory := by
  have hroot : root.parts <+: (directory root oid).parts := List.prefix_append _ _
  rcases List.prefix_or_prefix_of_prefix hparts hroot with ⟨more, hmore⟩ | ⟨more, hmore⟩
  · -- the path is part of the way to the root, on which there are directories
    exfalso
    have hwalk : t.walk q more = .ok l := by
      have hrooted := h.rooted
      unfold Files.Tree.resolve at hq hrooted
      rw [hstart] at hq
      rw [← hmore, Files.Tree.walk_append hq] at hrooted
      exact hrooted
    cases more with
    | nil =>
      cases hwalk
      rw [h.base] at hn
      cases hn
    | cons name more =>
      rw [Files.Tree.walk_cons_none hn] at hwalk
      cases hwalk
  · have hjoin : p = root.join more := by
      obtain ⟨isAbsolute, parts⟩ := p
      cases hstart
      cases hmore
      rfl
    have hmore' : more <+: [outer oid, inner oid] := by
      rw [← hmore] at hparts
      exact (List.prefix_append_right_inj _).mp hparts
    rw [hjoin, Files.Tree.resolve_join h.rooted] at hq
    rcases more with _ | ⟨a, _ | ⟨b, more⟩⟩
    · cases hq
      rw [h.base] at hn
      cases hn
    · rw [List.cons_prefix_cons] at hmore'
      obtain ⟨rfl, -⟩ := hmore'
      rw [Files.Tree.walk_cons h.base (outer_ne_dots oid)] at hq
      cases hq
      exact .inl rfl
    · rw [List.cons_prefix_cons, List.cons_prefix_cons, List.prefix_nil] at hmore'
      obtain ⟨rfl, rfl, rfl⟩ := hmore'
      rw [Files.Tree.walk_cons h.base (outer_ne_dots oid)] at hq
      unfold Files.Tree.walk at hq
      split at hq
      · cases hq
      · next houter =>
        rw [if_neg (inner_ne_dots oid)] at hq
        cases hq
        exact .inr ⟨by simp, houter⟩
      · cases hq

end Grounded

/-! ## Answers -/

def answers (root : FilePath) (t : Files.Tree) (oid : Oid) :
    Except VaultError (Option Stream) × Except VaultError (Option Nat) × Except VaultError Bool :=
  ((handle Files.Tree.handle root (.openBlob oid) t).1, (handle Files.Tree.handle root (.size oid) t).1,
    ((Vault.present oid).run.run (handle Files.Tree.handle root) t).1)

theorem run_present (root : FilePath) (t : Files.Tree) (oid : Oid) :
    ((Vault.present oid).run.run (handle Files.Tree.handle root) t).1 =
      (handle Files.Tree.handle root (.size oid) t).1.map Option.isSome := by
  have hask : (Vault.ask (.size oid)).run.run (handle Files.Tree.handle root) t =
      handle Files.Tree.handle root (.size oid) t := rfl
  unfold Vault.present
  rw [Prog.run_run_bind, hask]
  rcases handle Files.Tree.handle root (.size oid) t with ⟨e | n, t'⟩ <;> rfl

theorem handle_openBlob (root : FilePath) (t : Files.Tree) (oid : Oid) :
    (handle Files.Tree.handle root (.openBlob oid) t).1 = match (t.openFile (path root oid)).map some with
      | .ok x => .ok x
      | .error .noEntry => .ok none
      | .error f => .error (.io f) := by
  unfold handle answer
  rw [run_orMissing, Prog.run_run_map, Files.run_ask]
  simp only [Files.Tree.handle]
  rcases t.openFile (path root oid) with f | x
  · cases f <;> rfl
  · rfl

theorem handle_size (root : FilePath) (t : Files.Tree) (oid : Oid) :
    (handle Files.Tree.handle root (.size oid) t).1 = match (t.size (path root oid)).map some with
      | .ok x => .ok x
      | .error .noEntry => .ok none
      | .error f => .error (.io f) := by
  unfold handle answer
  rw [run_orMissing, Prog.run_run_map, Files.run_ask]
  simp only [Files.Tree.handle]
  rcases t.size (path root oid) with f | x
  · cases f <;> rfl
  · rfl

/-- What is answered of an object depends on what its path leads to. -/
theorem answers_congr (h : t'.lookUp (path root oid) = t.lookUp (path root oid)) :
    answers root t' oid = answers root t oid := by
  unfold answers
  simp only [run_present, handle_openBlob, handle_size, Files.Tree.openFile, Files.Tree.size, h]

theorem answers_file {b : ByteArray} (h : t.lookUp (path root oid) = .ok (q, .file b)) :
    answers root t oid = (.ok (some (Stream.ofBytes b)), .ok (some b.size), .ok true) := by
  unfold answers
  simp only [run_present, handle_openBlob, handle_size, Files.Tree.openFile, Files.Tree.size, h]
  rfl

/-! ## Files beside the objects' -/

/-- Whatever has been done, each object's path leads to what it led to. -/
structure Undisturbed (root : FilePath) (l : Location) (t t' : Files.Tree) : Prop where
  grounded : Grounded root t' l
  paths : ∀ oid, t'.lookUp (path root oid) = t.lookUp (path root oid)

theorem Undisturbed.trans {t'' : Files.Tree} (h : Undisturbed root l t t') (h' : Undisturbed root l t' t'') :
    Undisturbed root l t t'' :=
  ⟨h'.grounded, fun oid => (h'.paths oid).trans (h.paths oid)⟩

theorem hex_ne_dots (oid : Oid) : oid.hex ≠ ".." :=
  ne_dots (dot_not_mem_hex oid)

namespace Grounded

theorem undisturbed (h : Grounded root t l) : Undisturbed root l t t :=
  ⟨h, fun _ => rfl⟩

theorem undisturbed_of_node (h : Grounded root t l) (hhome : t'.home = t.home) (hn : ∀ x, t'.node? x = t.node? x) :
    Undisturbed root l t t' := by
  have h' : Grounded root t' l := by
    refine h.carry hhome (fun x hx => (hn x).trans hx) fun x name hx => ?_
    rw [hn] at hx
    exact .inl hx
  exact ⟨h', fun oid => h.lookUp_congr h' (hex_ne_dots oid) (fun x _ => .inl (hn x)) (hn _)⟩

theorem undisturbed_makeDirectory {p : FilePath} (h : Grounded root t l) (hstart : p.isAbsolute = root.isAbsolute)
    (hparts : p.parts <+: (directory root oid).parts) :
    Undisturbed root l t (Files.Tree.handle (.makeDirectory p) t).2 := by
  rcases Files.Tree.makeDirectory_cases t p with ⟨q, hq, hnone, hmade⟩ | ⟨f, hfailed⟩
  · rw [hmade]
    have hplace := h.missing_of_resolve hstart hparts hq hnone
    have hne : q ≠ [] := by rcases hplace with rfl | ⟨rfl, -⟩ <;> simp
    have hlength : q.length ≠ l.length + 3 := by rcases hplace with rfl | ⟨rfl, -⟩ <;> simp
    have hn := Files.Tree.node?_put (t := t) hne .directory
    have h' : Grounded root (t.put q .directory) l := h.shelved rfl hplace hn
    refine ⟨h', fun o => h.lookUp_congr h' (hex_ne_dots o) (fun x _ => ?_) ?_⟩
    · rw [hn]
      split
      · next e => exact .inr ⟨e ▸ hnone, rfl⟩
      · exact .inl rfl
    · rw [hn, if_neg]
      intro e
      exact hlength (e ▸ length_place l o _)
  · rw [hfailed]
    exact h.undisturbed

/-- A file that bears no object's name is made, is changed or is taken away. -/
theorem undisturbed_refiled {v : Option Node} (h : Grounded root t l) (hhome : t'.home = t.home)
    (hname : ∀ o : Oid, name ≠ o.hex) (hn : ∀ x, t'.node? x = if x = place l oid name then v else t.node? x)
    (hold : t.node? (place l oid name) ≠ some .directory)
    (hv : v = none ∨ t.node? (l ++ [outer oid, inner oid]) = some .directory) : Undisturbed root l t t' := by
  have h' := h.refiled hhome hn hold hv
  refine ⟨h', fun o => h.lookUp_congr h' (hex_ne_dots o) (fun x hx => ?_) ?_⟩
  · rw [hn, if_neg]
    · exact .inl rfl
    · intro e
      exact hx (e ▸ length_place l oid name)
  · rw [hn, if_neg]
    intro e
    exact hname o (place_inj.mp e).2.2.symm

theorem undisturbed_put {k : Nat} (h : Grounded root t l)
    (hold : t.node? (place l oid (partialName oid k)) ≠ some .directory)
    (hinner : t.node? (l ++ [outer oid, inner oid]) = some .directory) (n : Node) :
    Undisturbed root l t (t.put (place l oid (partialName oid k)) n) :=
  h.undisturbed_refiled rfl (partialName_ne_hex oid k) (Files.Tree.node?_put (place_ne_nil l oid _) n) hold
    (.inr hinner)

theorem undisturbed_erase {k : Nat} (h : Grounded root t l)
    (hold : t.node? (place l oid (partialName oid k)) ≠ some .directory) :
    Undisturbed root l t (t.erase (place l oid (partialName oid k))) :=
  h.undisturbed_refiled rfl (partialName_ne_hex oid k) (Files.Tree.node?_erase (place_ne_nil l oid _)) hold (.inl rfl)

theorem undisturbed_create (h : Grounded root t l) (oid : Oid) (k : Nat) :
    Undisturbed root l t (Files.Tree.handle (.create (partialPath root oid k)) t).2 := by
  rcases Files.Tree.create_cases t (partialPath root oid k) with ⟨q, hq, hold, hmade⟩ | ⟨f, hfailed⟩
  · obtain ⟨rfl, hinner⟩ := h.place_of_resolve (partialName_ne_dots oid k) hq
    rw [hmade]
    exact h.undisturbed_put hold hinner _
  · rw [hfailed]
    exact h.undisturbed

theorem node?_create (h : Grounded root t l) {k : Nat}
    (hmade : (Files.Tree.handle (.create (partialPath root oid k)) t).1 = .ok ()) :
    (Files.Tree.handle (.create (partialPath root oid k)) t).2.node? (place l oid (partialName oid k)) =
      some (.file .empty) := by
  rcases Files.Tree.create_cases t (partialPath root oid k) with ⟨q, hq, -, hmade⟩ | ⟨f, hfailed⟩
  · obtain ⟨rfl, -⟩ := h.place_of_resolve (partialName_ne_dots oid k) hq
    rw [hmade, Files.Tree.node?_put (place_ne_nil l oid _), if_pos rfl]
  · rw [hfailed] at hmade
    cases hmade

theorem handle_append (h : Grounded root t l) {k : Nat} {b : ByteArray}
    (hfile : t.node? (place l oid (partialName oid k)) = some (.file b)) (c : ByteArray) :
    Files.Tree.handle (.append (partialPath root oid k) c) t =
      (.ok (), t.put (place l oid (partialName oid k)) (.file (b ++ c))) := by
  have hlook : t.lookUp (partialPath root oid k) = .ok (place l oid (partialName oid k), .file b) :=
    (h.lookUp_iff (partialName_ne_dots oid k)).mpr ⟨rfl, hfile⟩
  simp only [Files.Tree.handle, Files.Tree.append, hlook]
  rfl

theorem undisturbed_append (h : Grounded root t l) {k : Nat} {b : ByteArray}
    (hfile : t.node? (place l oid (partialName oid k)) = some (.file b)) (c : ByteArray) :
    Undisturbed root l t (Files.Tree.handle (.append (partialPath root oid k) c) t).2 := by
  have hnode : t.node? (place l oid (partialName oid k)) ≠ none := by simp [hfile]
  rw [h.handle_append hfile]
  exact h.undisturbed_put (by simp [hfile]) (h.inner_of_place hnode) _

theorem undisturbed_remove (h : Grounded root t l) (oid : Oid) (k : Nat) :
    Undisturbed root l t (Files.Tree.handle (.remove (partialPath root oid k)) t).2 := by
  rcases Files.Tree.remove_cases t (partialPath root oid k) with ⟨q, n, hlook, hn, hremoved⟩ | ⟨-, f, hfailed⟩
  · obtain ⟨rfl, hfile⟩ := (h.lookUp_iff (partialName_ne_dots oid k)).mp hlook
    rw [hremoved]
    exact h.undisturbed_erase (by simpa [hfile] using hn)
  · rw [hfailed]
    exact h.undisturbed

/-- No file is left under the name. -/
theorem lookUp_remove (h : Grounded root t l) (oid : Oid) (k : Nat)
    (hn : (Files.Tree.handle (.remove (partialPath root oid k)) t).2.lookUp (partialPath root oid k) = .ok (q, n)) :
    n = .directory := by
  rcases Files.Tree.remove_cases t (partialPath root oid k) with ⟨q, n, hlook, -, hremoved⟩ | ⟨hdirectory, f, hfailed⟩
  · obtain ⟨rfl, hfile⟩ := (h.lookUp_iff (partialName_ne_dots oid k)).mp hlook
    obtain ⟨-, hnone⟩ := ((h.undisturbed_remove oid k).grounded.lookUp_iff (partialName_ne_dots oid k)).mp hn
    rw [hremoved, Files.Tree.node?_erase (place_ne_nil l oid _), if_pos rfl] at hnone
    cases hnone
  · rw [hfailed] at hn
    exact hdirectory q n hn

/-- A file takes the place of the object's. -/
theorem put_blob (h : Grounded root t l) (hold : t.node? (place l oid oid.hex) ≠ some .directory)
    (hinner : t.node? (l ++ [outer oid, inner oid]) = some .directory) (b : ByteArray) :
    Grounded root (t.put (place l oid oid.hex) (.file b)) l ∧
      (t.put (place l oid oid.hex) (.file b)).lookUp (path root oid) = .ok (place l oid oid.hex, .file b) ∧
        ∀ o, o ≠ oid → (t.put (place l oid oid.hex) (.file b)).lookUp (path root o) = t.lookUp (path root o) := by
  have hn := Files.Tree.node?_put (t := t) (place_ne_nil l oid oid.hex) (.file b)
  have h' : Grounded root (t.put (place l oid oid.hex) (.file b)) l := h.refiled rfl hn hold (.inr hinner)
  refine ⟨h', (h'.lookUp_iff (hex_ne_dots oid)).mpr ⟨rfl, ?_⟩, fun o ho => ?_⟩
  · rw [hn, if_pos rfl]
  · refine h.lookUp_congr h' (hex_ne_dots o) (fun x hx => ?_) ?_
    · rw [hn, if_neg]
      · exact .inl rfl
      · intro e
        exact hx (e ▸ length_place l oid _)
    · rw [hn, if_neg]
      intro e
      exact ho (Oid.hex_inj.mp (place_inj.mp e).2.2)

/-- Renaming a file in the making puts it in the place of the object's, or does nothing. -/
theorem rename_cases (h : Grounded root t l) {k : Nat} {b : ByteArray}
    (hfile : t.node? (place l oid (partialName oid k)) = some (.file b)) :
    (∃ t', Files.Tree.handle (.rename (partialPath root oid k) (path root oid)) t = (.ok (), t') ∧ Grounded root t' l ∧
      t'.lookUp (path root oid) = .ok (place l oid oid.hex, .file b) ∧
        ∀ o, o ≠ oid → t'.lookUp (path root o) = t.lookUp (path root o)) ∨
    ∃ f, Files.Tree.handle (.rename (partialPath root oid k) (path root oid)) t = (.error f, t) := by
  rcases Files.Tree.rename_cases t (partialPath root oid k) (path root oid) with
    ⟨old, n, new, hlook, hnew, hold, hrenamed⟩ | hfailed
  · left
    obtain ⟨rfl, hn⟩ := (h.lookUp_iff (partialName_ne_dots oid k)).mp hlook
    obtain ⟨rfl, hinner⟩ := h.place_of_resolve (hex_ne_dots oid) hnew
    rw [hfile] at hn
    cases hn
    have hne : place l oid oid.hex ≠ place l oid (partialName oid k) := fun e =>
      partialName_ne_hex oid k oid (place_inj.mp e).2.2.symm
    have herased : Undisturbed root l t (t.erase (place l oid (partialName oid k))) :=
      h.undisturbed_erase (by simp [hfile])
    have hnode := Files.Tree.node?_erase (t := t) (place_ne_nil l oid (partialName oid k))
    obtain ⟨hgrounded, hpath, hothers⟩ := herased.grounded.put_blob (by rwa [hnode, if_neg hne])
      (by rwa [hnode, if_neg (by simp [place])]) b
    exact ⟨_, hrenamed, hgrounded, hpath, fun o ho => (hothers o ho).trans (herased.paths o)⟩
  · exact .inr hfailed

end Grounded

end Filed

end BlobDepot.Vault
