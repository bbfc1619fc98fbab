import BlobDepot.Proofs.Identifiers
import BlobDepot.Proofs.Trees
import BlobDepot.Vault.Store

/-!
# What vaults of files hold

A tree holds a memory below a directory if the files of objects are there and hold the bytes that the
memory says. Then each call of the vault of files answers as it would on the memory, and leaves a tree
that holds the memory after the call: `Filed.handle_holds`.
-/

namespace BlobDepot.Vault

open Files (Location Node)

namespace Filed

/-! ## Names -/

def outer (oid : Oid) : String :=
  String.ofList (oid.hex.toList.take 2)

def inner (oid : Oid) : String :=
  String.ofList ((oid.hex.toList.drop 2).take 2)

def partialName (oid : Oid) (n : Nat) : String :=
  "." ++ oid.hex ++ "." ++ Text.decimal n ++ ".partial"

theorem directory_eq (root : FilePath) (oid : Oid) :
    directory root oid = root.join [outer oid, inner oid] := rfl

theorem path_eq (root : FilePath) (oid : Oid) :
    path root oid = root.join [outer oid, inner oid, oid.hex] := rfl

theorem partialPath_eq (root : FilePath) (oid : Oid) (n : Nat) :
    partialPath root oid n = root.join [outer oid, inner oid, partialName oid n] := rfl

theorem dot_not_mem_encode : ∀ l : List UInt8, '.' ∉ Text.Hex.encode l
  | [], h => by cases h
  | b :: r, h => by
    have key : ∀ k : Fin 16, '.' ≠ Text.Hex.digit k := by decide
    simp only [Text.Hex.encode, List.mem_cons] at h
    rcases h with h | h | h
    · exact key ⟨_, Text.Hex.high_lt b⟩ h
    · exact key ⟨_, Text.Hex.low_lt b⟩ h
    · exact dot_not_mem_encode r h

theorem dot_not_mem_hex (oid : Oid) : '.' ∉ oid.hex.toList := by
  rw [Oid.toList_hex]; exact dot_not_mem_encode _

theorem ne_dots {s : String} (h : '.' ∉ s.toList) : s ≠ ".." := by
  intro hin
  subst hin
  exact h (by decide)

theorem outer_ne_dots (oid : Oid) : outer oid ≠ ".." := by
  refine ne_dots fun h => dot_not_mem_hex oid ?_
  rw [outer, String.toList_ofList] at h
  exact List.mem_of_mem_take h

theorem inner_ne_dots (oid : Oid) : inner oid ≠ ".." := by
  refine ne_dots fun h => dot_not_mem_hex oid ?_
  rw [inner, String.toList_ofList] at h
  exact List.mem_of_mem_drop (List.mem_of_mem_take h)

theorem toList_partialName (oid : Oid) (n : Nat) :
    ∃ r, (partialName oid n).toList = '.' :: (oid.hex.toList ++ r) := by
  refine ⟨('.' :: (Text.decimal n).toList) ++ ".partial".toList, ?_⟩
  simp [partialName, String.toList_append]

theorem partialName_ne_hex (oid : Oid) (n : Nat) (oid' : Oid) : partialName oid n ≠ oid'.hex := by
  intro h
  obtain ⟨r, hr⟩ := toList_partialName oid n
  rw [h] at hr
  exact dot_not_mem_hex oid' (hr ▸ List.mem_cons_self)

theorem partialName_ne_dots (oid : Oid) (n : Nat) : partialName oid n ≠ ".." := by
  intro h
  obtain ⟨r, hr⟩ := toList_partialName oid n
  have hl := congrArg List.length hr
  rw [h, List.length_cons, List.length_append, Oid.toList_hex, Text.Hex.length_encode, oid.length_eq] at hl
  simp at hl
  omega

theorem resolve_file_of_directories {root : FilePath} {t : Files.Tree} {l : Location} {oid : Oid} {name : String}
    (hroot : t.resolve root = .ok l) (hbase : t.node? l = some .directory)
    (houter : t.node? (l ++ [outer oid]) = some .directory)
    (hinner : t.node? (l ++ [outer oid, inner oid]) = some .directory) (hname : name ≠ "..") :
    t.resolve (root.join [outer oid, inner oid, name]) = .ok (l ++ [outer oid, inner oid, name]) := by
  rw [Files.Tree.resolve_join hroot, Files.Tree.walk_cons hbase (outer_ne_dots oid),
    Files.Tree.walk_cons houter (inner_ne_dots oid), Files.Tree.walk_cons (by simpa using hinner) hname]
  simp [Files.Tree.walk]

/-! ## Trees that hold a memory -/

/-- Below a directory stand the files of the objects that have bytes, in directories of their own. Nothing
else stands where these could be. -/
structure HoldsAt (root : FilePath) (t : Files.Tree) (l : Location) (m : Memory) : Prop where
  rooted : t.resolve root = .ok l
  base : t.node? l = some .directory
  outer : ∀ oid, t.node? (l ++ [outer oid]) = none ∨ t.node? (l ++ [outer oid]) = some .directory
  inner : ∀ oid, t.node? (l ++ [Filed.outer oid, inner oid]) = none ∨
    t.node? (l ++ [Filed.outer oid]) = some .directory ∧
      t.node? (l ++ [Filed.outer oid, inner oid]) = some .directory
  blobs : ∀ oid, t.node? (l ++ [Filed.outer oid, Filed.inner oid, oid.hex]) = (m.blobs.get? oid).map .file
  enclosed : ∀ oid b, m.blobs.get? oid = some b →
    t.node? (l ++ [Filed.outer oid, Filed.inner oid]) = some .directory
  spare : ∀ oid n, t.node? (l ++ [Filed.outer oid, Filed.inner oid, partialName oid n]) ≠ some .directory

theorem holdsAt_empty {root : FilePath} {t : Files.Tree} {l : Location} (hr : t.resolve root = .ok l)
    (hb : t.node? l = some .directory) (he : ∀ x, x ≠ [] → t.node? (l ++ x) = none) :
    HoldsAt root t l .empty where
  rooted := hr
  base := hb
  outer oid := .inl (he _ (by simp))
  inner oid := .inl (he _ (by simp))
  blobs oid := by rw [he _ (by simp)]; rfl
  enclosed oid b h := by cases h
  spare oid n := by rw [he _ (by simp)]; simp

namespace HoldsAt

variable {root : FilePath} {t : Files.Tree} {l : Location} {m : Memory}

theorem outer_of_inner (h : HoldsAt root t l m) {oid : Oid}
    (hi : t.node? (l ++ [Filed.outer oid, Filed.inner oid]) = some .directory) :
    t.node? (l ++ [Filed.outer oid]) = some .directory := by
  rcases h.inner oid with hn | hn
  · rw [hn] at hi; cases hi
  · exact hn.1

theorem resolve_file (h : HoldsAt root t l m) {oid : Oid}
    (hi : t.node? (l ++ [Filed.outer oid, Filed.inner oid]) = some .directory) {name : String}
    (hn : name ≠ "..") :
    t.resolve (root.join [Filed.outer oid, Filed.inner oid, name]) =
      .ok (l ++ [Filed.outer oid, Filed.inner oid, name]) := by
  exact resolve_file_of_directories h.rooted h.base (h.outer_of_inner hi) hi hn

theorem resolve_file_missing (h : HoldsAt root t l m) {oid : Oid}
    (hi : t.node? (l ++ [Filed.outer oid, Filed.inner oid]) = none) (name : String) :
    t.resolve (root.join [Filed.outer oid, Filed.inner oid, name]) = .error .noEntry := by
  rw [Files.Tree.resolve_join h.rooted, Files.Tree.walk_cons h.base (outer_ne_dots oid)]
  rcases h.outer oid with ho | ho
  · exact Files.Tree.walk_cons_none ho
  · rw [Files.Tree.walk_cons ho (inner_ne_dots oid), Files.Tree.walk_cons_none (by simpa using hi)]

theorem lookUp_path (h : HoldsAt root t l m) (oid : Oid) :
    t.lookUp (path root oid) = match m.blobs.get? oid with
      | some b => .ok (l ++ [Filed.outer oid, Filed.inner oid, oid.hex], .file b)
      | none => .error .noEntry := by
  rw [path_eq]
  rcases h.inner oid with hi | ⟨-, hi⟩
  · cases hb : m.blobs.get? oid with
    | some b => rw [h.enclosed oid b hb] at hi; cases hi
    | none => unfold Files.Tree.lookUp; rw [h.resolve_file_missing hi]; rfl
  · rw [Files.Tree.lookUp_of_resolve (h.resolve_file hi (ne_dots (dot_not_mem_hex oid))), h.blobs]
    cases m.blobs.get? oid <;> rfl

/-- Directories stay, and so do all nodes but some files of objects. -/
theorem refile {t' : Files.Tree} {m' : Memory} (h : HoldsAt root t l m) (hh : t'.home = t.home)
    (hd : ∀ x, t.node? x = some .directory → t'.node? x = some .directory)
    (hs : ∀ x, x.length ≠ l.length + 3 → t'.node? x = t.node? x)
    (blobs : ∀ oid, t'.node? (l ++ [Filed.outer oid, Filed.inner oid, oid.hex]) =
      (m'.blobs.get? oid).map .file)
    (enclosed : ∀ oid b, m'.blobs.get? oid = some b →
      t.node? (l ++ [Filed.outer oid, Filed.inner oid]) = some .directory)
    (spare : ∀ oid n,
      t'.node? (l ++ [Filed.outer oid, Filed.inner oid, partialName oid n]) ≠ some .directory) :
    HoldsAt root t' l m' where
  rooted := Files.Tree.resolve_mono hd hh h.rooted
  base := hd l h.base
  outer oid := by
    rw [hs (l ++ [Filed.outer oid]) (by simp)]; exact h.outer oid
  inner oid := by
    rw [hs (l ++ [Filed.outer oid]) (by simp), hs (l ++ [Filed.outer oid, Filed.inner oid]) (by simp)]
    exact h.inner oid
  blobs := blobs
  enclosed oid b hb := hd _ (enclosed oid b hb)
  spare := spare

theorem congr {t' : Files.Tree} (h : HoldsAt root t l m) (hh : t'.home = t.home)
    (hn : ∀ x, t'.node? x = t.node? x) :
    HoldsAt root t' l m :=
  h.refile hh (fun x hx => (hn x).trans hx) (fun x _ => hn x) (fun oid => (hn _).trans (h.blobs oid))
    h.enclosed
    fun oid n => by rw [hn]; exact h.spare oid n

theorem shelve {t' : Files.Tree} (h : HoldsAt root t l m) (oid : Oid) (hh : t'.home = t.home)
    (hn : ∀ x, t'.node? x = if x = l ++ [Filed.outer oid] ∨ x = l ++ [Filed.outer oid, Filed.inner oid]
      then some .directory else t.node? x) : HoldsAt root t' l m := by
  have hd : ∀ x, t.node? x = some .directory → t'.node? x = some .directory := by
    intro x hx
    rw [hn]
    split
    · rfl
    · exact hx
  have hs : ∀ x : Location, x.length = l.length + 3 → t'.node? x = t.node? x := by
    intro x hx
    rw [hn, if_neg]
    intro e
    rcases e with e | e <;> simp [e] at hx
  refine ⟨Files.Tree.resolve_mono hd hh h.rooted, hd l h.base, ?_, ?_, ?_, fun o b hb =>
    hd _ (h.enclosed o b hb), ?_⟩
  · intro o
    rw [hn]
    split
    · exact .inr rfl
    · exact h.outer o
  · intro o
    by_cases ho : Filed.outer o = Filed.outer oid ∧ Filed.inner o = Filed.inner oid
    · right
      rw [hn, hn, ho.1, ho.2]
      simp
    · rcases h.inner o with hi | ⟨h1, h2⟩
      · left
        rw [hn, if_neg, hi]
        simpa using ho
      · exact .inr ⟨hd _ h1, hd _ h2⟩
  · intro o
    rw [hs _ (by simp)]; exact h.blobs o
  · intro o n
    rw [hs _ (by simp)]; exact h.spare o n

theorem run_makePath (h : HoldsAt root t l m) (oid : Oid) :
    ∃ t', (Files.makePath (directory root oid)).run.run Files.Tree.handle t = (.ok (), t') ∧
      HoldsAt root t' l m ∧
      t'.node? (l ++ [Filed.outer oid, Filed.inner oid]) = some .directory := by
  have parts : (directory root oid).parts.reverse =
      Filed.inner oid :: Filed.outer oid :: root.parts.reverse := by
    rw [directory_eq]; simp [FilePath.join]
  have above : (⟨root.isAbsolute, (Filed.outer oid :: root.parts.reverse).reverse⟩ : FilePath) =
      root.join [Filed.outer oid] := by simp [FilePath.join]
  have whole :
      (⟨root.isAbsolute, (Filed.inner oid :: Filed.outer oid :: root.parts.reverse).reverse⟩ : FilePath) =
      root.join [Filed.outer oid, Filed.inner oid] := by simp [FilePath.join]
  have resolved : ∀ {u : Files.Tree}, u.resolve root = .ok l → u.node? l = some .directory →
      u.node? (l ++ [Filed.outer oid]) = some .directory →
      u.resolve (root.join [Filed.outer oid, Filed.inner oid]) =
        .ok (l ++ [Filed.outer oid, Filed.inner oid]) := by
    intro u hr hb ho
    rw [Files.Tree.resolve_join hr, Files.Tree.walk_cons hb (outer_ne_dots oid),
      Files.Tree.walk_cons ho (inner_ne_dots oid)]
    simp [Files.Tree.walk]
  unfold Files.makePath
  rw [parts]
  rcases h.outer oid with ho | ho
  · have hi : t.node? (l ++ [Filed.outer oid, Filed.inner oid]) = none := by
      rcases h.inner oid with hi | hi
      · exact hi
      · rw [hi.1] at ho; cases ho
    have hr : t.resolve (root.join [Filed.outer oid]) = .ok (l ++ [Filed.outer oid]) := by
      rw [Files.Tree.resolve_join h.rooted, Files.Tree.walk_cons h.base (outer_ne_dots oid)]
      rfl
    have hm : t.resolve (root.join [Filed.outer oid, Filed.inner oid]) = .error .noEntry := by
      rw [Files.Tree.resolve_join h.rooted, Files.Tree.walk_cons h.base (outer_ne_dots oid),
        Files.Tree.walk_cons_none ho]
    obtain ⟨t₁, hrun, hh, -, hn⟩ := Files.Tree.run_makeDirectories (above ▸ hr) (by simp) (.inl ho)
    have hd : ∀ x, t.node? x = some .directory → t₁.node? x = some .directory := by
      intro x hx
      rw [hn]
      split
      · rfl
      · exact hx
    have ho₁ : t₁.node? (l ++ [Filed.outer oid]) = some .directory := by rw [hn, if_pos rfl]
    have hi₁ : t₁.node? (l ++ [Filed.outer oid, Filed.inner oid]) = none := by rw [hn, if_neg (by simp), hi]
    have hr₁ := resolved (Files.Tree.resolve_mono hd hh h.rooted) (hd l h.base) ho₁
    refine ⟨_, Files.Tree.run_makeDirectories_above (whole ▸ hm) hrun (whole ▸ hr₁) hi₁,
      h.shelve oid hh fun x => ?_, ?_⟩
    · rw [Files.Tree.node?_put (by simp), hn]
      by_cases h1 : x = l ++ [Filed.outer oid] <;>
        by_cases h2 : x = l ++ [Filed.outer oid, Filed.inner oid] <;>
        simp [h1, h2]
    · rw [Files.Tree.node?_put (by simp), if_pos rfl]
  · obtain ⟨t', hrun, hh, -, hn⟩ := Files.Tree.run_makeDirectories
      (whole ▸ resolved h.rooted h.base ho) (by simp)
      ((h.inner oid).imp_right fun hi => hi.2)
    refine ⟨t', hrun, h.shelve oid hh fun x => ?_, ?_⟩
    · rw [hn]
      by_cases h1 : x = l ++ [Filed.outer oid]
      · simp [h1, ho]
      · simp [h1]
    · rw [hn, if_pos rfl]

end HoldsAt

/-! ## Running -/

theorem run_lift {α : Type} (p : FilesM α) (t : Files.Tree) :
    (lift p).run.run Files.Tree.handle t =
      ((p.run.run Files.Tree.handle t).1.mapError .io, (p.run.run Files.Tree.handle t).2) := by
  show (((fun x => x.mapError VaultError.io) <$> p.run : Prog Files.interface _)).run
      Files.Tree.handle t = _
  rw [map_eq_pure_bind]
  show (p.run.bind _).run Files.Tree.handle t = _
  rw [Prog.run_bind]; rfl

theorem run_orMissing {α : Type} (missing : α) (p : FilesM α) (t : Files.Tree) :
    (orMissing missing p).run.run Files.Tree.handle t = (match (p.run.run Files.Tree.handle t).1 with
      | .ok x => .ok x
      | .error .noEntry => .ok missing
      | .error f => .error (.io f), (p.run.run Files.Tree.handle t).2) := by
  unfold orMissing
  rw [Prog.run_run_bind, Prog.run_run_lift]
  generalize p.run.run Files.Tree.handle t = x
  obtain ⟨f | x, t'⟩ := x
  · cases f <;> rfl
  · rfl

theorem run_removing (file : FilePath) (steps : ExceptT VaultError (Prog Files.interface) Unit)
    (t : Files.Tree) :
    (removing file steps).run.run Files.Tree.handle t =
      match steps.run.run Files.Tree.handle t with
      | (.ok (), t) => (.ok (), t)
      | (.error e, t) => (.error e, (Files.Tree.handle (.remove file) t).2) := by
  unfold removing
  rw [Prog.run_run_bind, Prog.run_run_lift]
  generalize steps.run.run Files.Tree.handle t = x
  obtain ⟨x | u, t'⟩ := x
  · dsimp only
    rw [Prog.run_run_bind, Prog.run_run_lift, Files.run_ask]
    rfl
  · rfl

theorem run_copy {file : FilePath} {q : Location} :
    ∀ (s : Stream) (n : Nat) {t : Files.Tree} {b : ByteArray},
    t.resolve file = .ok q → q ≠ [] → t.node? q = some (.file b) →
    ∃ t' b', (copy file s n).run.run Files.Tree.handle t =
      ((s.collect b).map fun c => n + (c.size - b.size), t') ∧
      t'.home = t.home ∧ (∀ x, t'.node? x = if x = q then some (.file b') else t.node? x) ∧
      ∀ c, s.collect b = .ok c → c = b' ∧ b.size ≤ c.size
  | [], n, t, b, _, _, hn => by
    refine ⟨t, b, by simp [copy, Stream.collect, Except.map, Prog.run, pure, ExceptT.pure, ExceptT.mk,
      ExceptT.run], rfl, fun x => ?_, fun c hc => ?_⟩
    · split
      · next hx => rw [hx, hn]
      · rfl
    · cases hc; exact ⟨rfl, Nat.le_refl _⟩
  | .fault f :: r, n, t, b, _, _, hn => by
    refine ⟨t, b, rfl, rfl, fun x => ?_, fun c hc => by cases hc⟩
    split
    · next hx => rw [hx, hn]
    · rfl
  | .bytes a :: r, n, t, b, hr, hq, hn => by
    have ha : Files.Tree.handle (.append file a) t = (.ok (), t.put q (.file (b ++ a))) := by
      simp only [Files.Tree.handle, Files.Tree.append, Files.Tree.lookUp_of_resolve hr, hn]; rfl
    have hp : (t.put q (.file (b ++ a))).node? q = some (.file (b ++ a)) := by
      rw [Files.Tree.node?_put hq, if_pos rfl]
    have hr' := Files.Tree.resolve_put hq (by simp [hn]) (.file (b ++ a)) hr
    obtain ⟨t', b', hrun, hh, hnode, hc⟩ := run_copy r (n + a.size) hr' hq hp
    refine ⟨t', b', ?_, hh, fun x => ?_, fun c h => ?_⟩
    · unfold copy
      rw [Prog.run_run_bind, Files.run_ask, ha]
      dsimp only
      rw [hrun]
      simp only [Stream.collect]
      cases hcol : Stream.collect r (b ++ a) with
      | error f => rfl
      | ok c =>
        have := (hc c hcol).2
        rw [ByteArray.size_append] at this
        simp only [Except.map, ByteArray.size_append]
        congr 2
        omega
    · rw [hnode, Files.Tree.node?_put hq]; split <;> rfl
    · have := hc c h
      rw [ByteArray.size_append] at this
      exact ⟨this.1, by omega⟩

theorem run_writePartial {file : FilePath} {q : Location} {t : Files.Tree}
    (hr : t.resolve file = .ok q) (hq : q ≠ [])
    (hn : t.node? q ≠ some .directory) (source : Stream) (length : Nat) :
    ∃ t' b', (writePartial file source length).run.run Files.Tree.handle t =
        ((Memory.readExactly source length).map fun _ => (), t') ∧
      t'.home = t.home ∧ (∀ x, t'.node? x = if x = q then some (.file b') else t.node? x) ∧
      ∀ c, Memory.readExactly source length = .ok c → c = b' := by
  have hp : (t.put q (.file .empty)).node? q = some (.file .empty) := by
    rw [Files.Tree.node?_put hq, if_pos rfl]
  have hr' := Files.Tree.resolve_put hq hn (.file .empty) hr
  obtain ⟨t', b', hrun, hh, hnode, hcol⟩ := run_copy (source.takeBytes length) 0 hr' hq hp
  refine ⟨t', b', ?_, hh, fun x => ?_, fun c hread => ?_⟩
  · unfold writePartial
    rw [Prog.run_run_bind, run_lift, Files.run_ask, Files.Tree.handle_create hr hn]
    dsimp only [Except.mapError]
    rw [Prog.run_run_bind, run_lift, hrun]
    unfold Memory.readExactly Stream.readAll
    cases hb : Stream.collect (source.takeBytes length) .empty with
    | error f => rfl
    | ok c =>
      simp only [Except.map, Except.mapError, ByteArray.size_empty, Nat.sub_zero, Nat.zero_add]
      by_cases hl : c.size = length
      · simp only [hl, ne_eq, not_true_eq_false, if_false, if_true]
        rfl
      · simp only [ne_eq, hl, not_false_eq_true, if_true, if_false]
        rfl
  · rw [hnode, Files.Tree.node?_put hq]; split <;> rfl
  · unfold Memory.readExactly Stream.readAll at hread
    cases hb : Stream.collect (source.takeBytes length) .empty with
    | error f => rw [hb] at hread; cases hread
    | ok d =>
      rw [hb] at hread
      dsimp only at hread
      split at hread
      · cases hread; exact (hcol _ hb).1
      · cases hread

namespace HoldsAt

variable {root : FilePath} {t : Files.Tree} {l : Location} {m : Memory}

/-- A file in the making, or none, does no harm. -/
theorem beside {t' : Files.Tree} {oid : Oid} {n : Nat} {b : Option ByteArray} (h : HoldsAt root t l m)
    (hh : t'.home = t.home)
    (hn : ∀ x, t'.node? x = if x = l ++ [Filed.outer oid, Filed.inner oid, partialName oid n]
      then b.map .file else t.node? x) : HoldsAt root t' l m := by
  refine h.refile hh (fun x hx => ?_) (fun x hx => ?_) (fun o => ?_) h.enclosed fun o k => ?_
  · rw [hn, if_neg]
    · exact hx
    · intro e; exact h.spare oid n (e ▸ hx)
  · rw [hn, if_neg]
    intro e; simp [e] at hx
  · rw [hn, if_neg]
    · exact h.blobs o
    · intro e
      simp only [List.append_cancel_left_eq, List.cons.injEq, and_true] at e
      exact partialName_ne_hex oid n o e.2.2.symm
  · rw [hn]
    split
    · cases b <;> simp
    · exact h.spare o k

theorem blob_ne_directory (h : HoldsAt root t l m) (oid : Oid) :
    t.node? (l ++ [Filed.outer oid, Filed.inner oid, oid.hex]) ≠ some .directory := by
  rw [h.blobs]
  cases m.blobs.get? oid <;> simp

/-- A file that is complete takes the place of the object's. -/
theorem renamed {t' : Files.Tree} {oid : Oid} {n : Nat} {b : ByteArray} (h : HoldsAt root t l m)
    (hh : t'.home = t.home)
    (hi : t.node? (l ++ [Filed.outer oid, Filed.inner oid]) = some .directory)
    (hn : ∀ x, t'.node? x = if x = l ++ [Filed.outer oid, Filed.inner oid, oid.hex] then some (.file b)
      else if x = l ++ [Filed.outer oid, Filed.inner oid, partialName oid n] then none else t.node? x) :
    HoldsAt root t' l ⟨m.blobs.insert oid b⟩ := by
  refine h.refile hh (fun x hx => ?_) (fun x hx => ?_) (fun o => ?_) (fun o c hc => ?_) fun o k => ?_
  · rw [hn, if_neg, if_neg]
    · exact hx
    · intro e; exact h.spare oid n (e ▸ hx)
    · intro e; exact h.blob_ne_directory oid (e ▸ hx)
  · rw [hn, if_neg, if_neg]
    · intro e; simp [e] at hx
    · intro e; simp [e] at hx
  · rw [hn, SortedMap.get?_insert]
    by_cases ho : o = oid
    · simp [ho]
    · have h1 : l ++ [Filed.outer o, Filed.inner o, o.hex] ≠
          l ++ [Filed.outer oid, Filed.inner oid, oid.hex] := by
        simp [Oid.hex_inj, ho]
      have h2 : l ++ [Filed.outer o, Filed.inner o, o.hex] ≠
          l ++ [Filed.outer oid, Filed.inner oid, partialName oid n] := by
        simp [(partialName_ne_hex oid n o).symm]
      rw [if_neg h1, if_neg h2, if_neg ho]
      exact h.blobs o
  · rw [SortedMap.get?_insert] at hc
    by_cases ho : o = oid
    · rw [ho]; exact hi
    · rw [if_neg ho] at hc
      exact h.enclosed o c hc
  · rw [hn]
    split
    · simp
    · split
      · simp
      · exact h.spare o k

theorem erased {t' : Files.Tree} {oid : Oid} (h : HoldsAt root t l m) (hh : t'.home = t.home)
    (hn : ∀ x, t'.node? x =
      if x = l ++ [Filed.outer oid, Filed.inner oid, oid.hex] then none else t.node? x) :
    HoldsAt root t' l ⟨m.blobs.erase oid⟩ := by
  refine h.refile hh (fun x hx => ?_) (fun x hx => ?_) (fun o => ?_) (fun o c hc => ?_) fun o k => ?_
  · rw [hn, if_neg]
    · exact hx
    · intro e; exact h.blob_ne_directory oid (e ▸ hx)
  · rw [hn, if_neg]
    intro e; simp [e] at hx
  · rw [hn, SortedMap.get?_erase]
    by_cases ho : o = oid
    · simp [ho]
    · have hne : l ++ [Filed.outer o, Filed.inner o, o.hex] ≠
          l ++ [Filed.outer oid, Filed.inner oid, oid.hex] := by
        simp [Oid.hex_inj, ho]
      rw [if_neg hne, if_neg ho]
      exact h.blobs o
  · rw [SortedMap.get?_erase] at hc
    split at hc
    · cases hc
    · exact h.enclosed o c hc
  · rw [hn]
    split
    · simp
    · exact h.spare o k

theorem run_write (h : HoldsAt root t l m) (oid : Oid) (source : Stream) (length : Nat) :
    ∃ t', (write root oid source length).run.run Files.Tree.handle t =
      ((Memory.handle (.write oid source length) m).1, t') ∧
      HoldsAt root t' l (Memory.handle (.write oid source length) m).2 := by
  obtain ⟨t₁, hrun₁, h₁, hi₁⟩ := h.run_makePath oid
  have h₂ : HoldsAt root { t₁ with next := t₁.next + 1 } l m := h₁.congr rfl fun _ => rfl
  have hr := h₂.resolve_file hi₁ (partialName_ne_dots oid t₁.next)
  obtain ⟨t₃, b, hrun₃, hh₃, hn₃, hread⟩ :=
    run_writePartial hr (by simp) (h₂.spare oid t₁.next) source length
  have h₃ : HoldsAt root t₃ l m := h₂.beside (b := some b) hh₃ hn₃
  have hi₃ : t₃.node? (l ++ [Filed.outer oid, Filed.inner oid]) = some .directory := by
    rw [hn₃, if_neg]
    · exact hi₁
    · simp
  have hfile := Files.Tree.lookUp_of_resolve (h₃.resolve_file hi₃ (partialName_ne_dots oid t₁.next))
  rw [hn₃, if_pos rfl] at hfile
  have hrun : (write root oid source length).run.run Files.Tree.handle t =
      ((removing (partialPath root oid t₁.next)
        (writePartial (partialPath root oid t₁.next) source length) >>= fun _ =>
        removing (partialPath root oid t₁.next)
          (lift (Files.ask (.rename (partialPath root oid t₁.next) (path root oid))))).run.run
        Files.Tree.handle { t₁ with next := t₁.next + 1 }) := by
    unfold write
    rw [Prog.run_run_bind, run_lift, hrun₁]
    dsimp only [Except.mapError]
    rw [Prog.run_run_bind, run_lift, Files.run_ask]
    rfl
  rw [hrun, Prog.run_run_bind, run_removing, partialPath_eq, hrun₃]
  simp only [Memory.handle]
  -- What comes short is taken away again; what is complete takes the place of the object's file.
  cases hread' : Memory.readExactly source length with
  | error e =>
    have hrem : Files.Tree.handle (.remove
        (root.join [Filed.outer oid, Filed.inner oid, partialName oid t₁.next])) t₃ =
        (.ok (), t₃.erase (l ++ [Filed.outer oid, Filed.inner oid, partialName oid t₁.next])) := by
      simp only [Files.Tree.handle, Files.Tree.remove, hfile]
      rfl
    dsimp only [Except.map]
    rw [hrem]
    exact ⟨_, rfl, h₃.beside (b := none) rfl fun x => Files.Tree.node?_erase (by simp) x⟩
  | ok c =>
    obtain rfl : c = b := hread c hread'
    have hpath := h₃.resolve_file hi₃ (ne_dots (dot_not_mem_hex oid))
    dsimp only [Except.map]
    rw [run_removing, run_lift, Files.run_ask, path_eq,
      Files.Tree.handle_rename hfile hpath (h₃.blob_ne_directory oid)]
    refine ⟨_, rfl, h₃.renamed (n := t₁.next) rfl hi₃ fun x => ?_⟩
    rw [Files.Tree.node?_put (by simp), Files.Tree.node?_erase (by simp)]

theorem run_remove (h : HoldsAt root t l m) (oid : Oid) :
    ∃ t', Files.Tree.handle (.remove (path root oid)) t =
        (if m.blobs.contains oid then .ok () else .error .noEntry, t') ∧
      HoldsAt root t' l ⟨m.blobs.erase oid⟩ := by
  have hl := h.lookUp_path oid
  simp only [Files.Tree.handle, Files.Tree.remove]
  cases hb : m.blobs.get? oid with
  | none =>
    rw [hb] at hl
    have hc := SortedMap.contains_eq_false_iff.mpr hb
    rw [hl, SortedMap.erase_eq_self hc, hc]
    exact ⟨t, rfl, h⟩
  | some b =>
    rw [hb] at hl
    rw [hl, SortedMap.contains_iff.mpr ⟨b, hb⟩]
    exact ⟨t.erase (l ++ [Filed.outer oid, Filed.inner oid, oid.hex]), rfl,
      h.erased rfl fun x => Files.Tree.node?_erase (by simp) x⟩

/-- A call on a tree answers as it would on the memory that the tree holds, and leaves one that holds the
memory after it. -/
theorem handle_holds (h : HoldsAt root t l m) (op : Op) :
    (Filed.handle Files.Tree.handle root op t).1 = (Memory.handle op m).1 ∧
      HoldsAt root (Filed.handle Files.Tree.handle root op t).2 l (Memory.handle op m).2 := by
  cases op with
  | openBlob oid =>
    have hopen : Files.Tree.handle (.openFile (path root oid)) t = (match m.blobs.get? oid with
        | some b => .ok (Stream.ofBytes b)
        | none => .error .noEntry, t) := by
      simp only [Files.Tree.handle, Files.Tree.openFile, h.lookUp_path oid]
      cases m.blobs.get? oid <;> rfl
    unfold Filed.handle answer
    rw [run_orMissing, Prog.run_run_map, Files.run_ask, hopen]
    refine ⟨?_, h⟩
    simp only [Memory.handle]
    cases m.blobs.get? oid <;> rfl
  | write oid source length =>
    obtain ⟨t', hrun, h'⟩ := h.run_write oid source length
    unfold Filed.handle answer
    rw [hrun]
    exact ⟨rfl, h'⟩
  | size oid =>
    have hsize : Files.Tree.handle (.size (path root oid)) t = (match m.blobs.get? oid with
        | some b => .ok b.size
        | none => .error .noEntry, t) := by
      simp only [Files.Tree.handle, Files.Tree.size, h.lookUp_path oid]
      cases m.blobs.get? oid <;> rfl
    unfold Filed.handle answer
    rw [run_orMissing, Prog.run_run_map, Files.run_ask, hsize]
    refine ⟨?_, h⟩
    simp only [Memory.handle]
    cases m.blobs.get? oid <;> rfl
  | delete oid =>
    obtain ⟨t', hrun, h'⟩ := h.run_remove oid
    unfold Filed.handle answer
    rw [run_orMissing, Prog.run_run_map, Files.run_ask, hrun]
    refine ⟨?_, h'⟩
    simp only [Memory.handle]
    cases m.blobs.contains oid <;> rfl

end HoldsAt

end Filed

/-! ## Stores -/

theorem Memory.readExactly_ofBytes (b : ByteArray) : readExactly (Stream.ofBytes b) b.size = .ok b := by
  have hread : (Stream.takeBytes b.size (Stream.ofBytes b)).readAll = .ok b := by
    unfold Stream.ofBytes Stream.takeBytes
    by_cases h : b.size = 0
    · rw [if_pos h, ByteArray.size_eq_zero_iff.mp h]; rfl
    · rw [if_neg h, if_neg (Nat.lt_irrefl _), ByteArray.extract_zero_size]
      show Except.ok (ByteArray.empty ++ b) = _
      rw [ByteArray.empty_append]
  unfold readExactly
  rw [hread]
  exact if_pos rfl

inductive Store.Holds : Store → Memory → Prop
  | memory (m : Memory) : Holds (.memory m) m
  | filed {root : FilePath} {t : Files.Tree} {l : Location} {m : Memory} :
    Filed.HoldsAt root t l m → Holds (.filed root t) m

/-- A call of a vault answers as it would on the memory that the vault holds. -/
theorem Store.handle_holds {v : Store} {m : Memory} (h : v.Holds m) (op : Op) :
    (Store.handle op v).1 = (Memory.handle op m).1 ∧
    (Store.handle op v).2.Holds (Memory.handle op m).2 := by
  cases h with
  | memory m => exact ⟨rfl, .memory _⟩
  | filed h => exact ⟨(h.handle_holds op).1, .filed (h.handle_holds op).2⟩

end BlobDepot.Vault
