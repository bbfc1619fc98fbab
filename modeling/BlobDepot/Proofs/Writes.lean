import BlobDepot.Proofs.Grounds
import BlobDepot.Proofs.Observations

/-!
# Writes that are under way

Until a write of a vault of files has put its file into place, what is answered of every object is what was answered
before. From then on the whole of what was read is there: `all_or_nothing`. This is so wherever the write is, and
whichever calls have failed. The middle of a call is no exception: there the tree is as the call may leave it when it
fails.
-/

namespace BlobDepot.Vault

open Files (Location)

namespace Filed

variable {root : FilePath} {t t' : Files.Tree} {l : Location} {oid : Oid}

/-! ## The phases of a write -/

/-- How far a write has come, with the number of its file and the bytes that are in it. -/
inductive Phase where
  | preparing
  | drawn (n : Nat)
  | holding (n : Nat) (b : ByteArray)
  /-- A call has failed, and the file is still to be removed. -/
  | failing (n : Nat)
  | failed (n : Nat)
  | placed (b : ByteArray)

def Phase.after : (op : Files.Op) → Files.interface.Answer op → Phase → Phase
  | .freshNumber, .ok n, .preparing => drawn n
  | .create _, .ok _, drawn n => holding n .empty
  | .create _, .error _, drawn n => failing n
  | .append _ c, .ok _, holding n b => holding n (b ++ c)
  | .append _ _, .error _, holding n _ => failing n
  | .flush _, .error _, holding n _ => failing n
  | .sync _, .error _, holding n _ => failing n
  | .rename _ _, .ok _, holding _ b => placed b
  | .rename _ _, .error _, holding n _ => failing n
  | .remove _, _, holding n _ => failed n
  | .remove _, _, failing n => failed n
  | _, _, f => f

/-- The calls of a write. A file is renamed only when all that was to be read is in it. -/
def writing (root : FilePath) (oid : Oid) (source : Stream) (length : Nat) : Discipline Files.interface Phase where
  allows
    | .makeDirectory p, .preparing => p.isAbsolute = root.isAbsolute ∧ p.parts <+: (directory root oid).parts
    | .isDirectory _, .preparing => True
    | .freshNumber, .preparing => True
    | .create p, .drawn n => p = partialPath root oid n
    | .append p _, .holding n _ => p = partialPath root oid n
    | .flush _, .holding _ _ => True
    | .sync _, .holding _ _ => True
    | .rename p p', .holding n b =>
      p = partialPath root oid n ∧ p' = path root oid ∧ Memory.readExactly source length = .ok b
    | .remove p, .holding n _ => p = partialPath root oid n
    | .remove p, .failing n => p = partialPath root oid n
    | _, _ => False
  leads op f x f' := f' = f.after op x

section
variable {source : Stream} {length k : Nat}

open Prog

def Ends (source : Stream) (length : Nat) : Except VaultError Unit → Phase → Prop
  | .ok (), .placed b => Memory.readExactly source length = .ok b
  | .error _, .preparing => True
  | .error _, .failed _ => True
  | _, _ => False

theorem follows_lift {α : Type} {d : Discipline Files.interface Phase} {want : Except VaultError α → Phase → Prop}
    {p : FilesM α} {f : Phase} :
    (lift p).run.Follows d want f ↔ p.run.Follows d (fun x => want (x.mapError .io)) f :=
  follows_map

theorem follows_ask {d : Discipline Files.interface Phase} (op : Files.Op)
    {want : Except IoFault op.Result → Phase → Prop} {f : Phase} :
    (Files.ask op).run.Follows d want f ↔ d.allows op f ∧ ∀ x f', d.leads op f x f' → want x f' :=
  follows_perform

def Phase.Open (k : Nat) (f : Phase) : Prop :=
  f = .failing k ∨ ∃ b, f = .holding k b

theorem Phase.Open.allows {f : Phase} (h : f.Open k) :
    (writing root oid source length).allows (.remove (partialPath root oid k)) f := by
  rcases h with rfl | ⟨b, rfl⟩ <;> rfl

theorem Phase.Open.after_remove {f : Phase} (h : f.Open k) (p : FilePath) (x : Except IoFault Unit) :
    f.after (.remove p) x = .failed k := by
  rcases h with rfl | ⟨b, rfl⟩ <;> rfl

def Copied (s : Stream) (b : ByteArray) (k : Nat) : Except IoFault Nat → Phase → Prop
  | .ok c, f => ∃ b', s.collect b = .ok b' ∧ c = b'.size ∧ f = .holding k b'
  | .error _, f => f.Open k

theorem follows_copy {file : FilePath} (hfile : file = partialPath root oid k) : ∀ (s : Stream) (b : ByteArray),
    (copy file s b.size).run.Follows (writing root oid source length) (Copied s b k) (.holding k b)
  | [], b => by
    unfold copy
    exact follows_done.mpr ⟨b, rfl, rfl, rfl⟩
  | .fault f :: r, b => by
    unfold copy
    exact follows_done.mpr (Or.inr ⟨b, rfl⟩)
  | .bytes c :: r, b => by
    unfold copy
    rw [follows_run_bind]
    refine (follows_ask (.append file c)).mpr ⟨hfile, fun x f' hf => ?_⟩
    cases hf
    cases x with
    | error f => exact .inl rfl
    | ok _ =>
      show (copy file r (b.size + c.size)).run.Follows _ _ (Phase.holding k (b ++ c))
      rw [← ByteArray.size_append]
      exact follows_copy hfile r (b ++ c)

theorem readExactly_of_collect {b : ByteArray} (h : (source.takeBytes length).collect .empty = .ok b)
    (hsize : b.size = length) : Memory.readExactly source length = .ok b := by
  unfold Memory.readExactly Stream.readAll
  rw [h]
  exact if_pos hsize

theorem size_of_readExactly {b : ByteArray} (h : Memory.readExactly source length = .ok b) : b.size = length := by
  unfold Memory.readExactly at h
  split at h
  · cases h
  · split at h
    · next hsize =>
      cases h
      exact hsize
    · cases h

def Filled (source : Stream) (length k : Nat) : Except VaultError Unit → Phase → Prop
  | .ok (), f => ∃ b, Memory.readExactly source length = .ok b ∧ f = .holding k b
  | .error _, f => f.Open k

theorem follows_writePartial : (writePartial (partialPath root oid k) source length).run.Follows
    (writing root oid source length) (Filled source length k) (.drawn k) := by
  unfold writePartial
  rw [follows_run_bind, follows_lift]
  refine (follows_ask (.create _)).mpr ⟨rfl, fun x f hf => ?_⟩
  cases hf
  cases x with
  | error e => exact .inl rfl
  | ok _ =>
    show Follows _ _ _ (Phase.holding k .empty)
    rw [follows_run_bind, follows_lift]
    refine (follows_copy rfl (source.takeBytes length) .empty).mono fun x f hf => ?_
    cases x with
    | error e => exact hf
    | ok copied =>
      obtain ⟨b, hb, rfl, rfl⟩ := hf
      dsimp only [Except.mapError]
      split
      · exact follows_done.mpr (Or.inr ⟨b, rfl⟩)
      · next hsize =>
        have hread := readExactly_of_collect hb (not_not.mp hsize)
        rw [follows_run_bind, follows_lift]
        refine (follows_ask (.flush _)).mpr ⟨trivial, fun x f hf => ?_⟩
        cases hf
        cases x with
        | error e => exact .inl rfl
        | ok _ =>
          show Follows _ _ _ (Phase.holding k b)
          rw [follows_lift]
          refine (follows_ask (.sync _)).mpr ⟨trivial, fun x f hf => ?_⟩
          cases hf
          cases x with
          | error e => exact .inl rfl
          | ok _ => exact ⟨b, hread, rfl⟩

/-- Where the steps fail, the file that they leave is removed. -/
theorem follows_removing {steps : ExceptT VaultError (Prog Files.interface) Unit} {f : Phase}
    {want : Except VaultError Unit → Phase → Prop}
    (h : steps.run.Follows (writing root oid source length) (fun
      | .ok (), f => want (.ok ()) f
      | .error e, f => f.Open k ∧ want (.error e) (.failed k)) f) :
    (removing (partialPath root oid k) steps).run.Follows (writing root oid source length) want f := by
  unfold removing
  rw [follows_run_bind, ExceptT.run_lift, follows_map]
  refine h.mono fun x f hf => ?_
  cases x with
  | ok _ => exact follows_done.mpr hf
  | error e =>
    obtain ⟨hopen, hend⟩ := hf
    dsimp only
    rw [follows_run_bind, ExceptT.run_lift, follows_map]
    refine (follows_ask (.remove _)).mpr ⟨hopen.allows, fun x f' hf => ?_⟩
    cases hf
    rw [hopen.after_remove]
    exact follows_done.mpr hend

def Approaches (root : FilePath) (oid : Oid) : Files.Op → Prop
  | .makeDirectory p => p.isAbsolute = root.isAbsolute ∧ p.parts <+: (directory root oid).parts
  | .isDirectory _ => True
  | _ => False

theorem calls_makeDirectories : ∀ {names : List String}, names.reverse <+: (directory root oid).parts →
    (Files.makeDirectories root.isAbsolute names).run.Calls (Approaches root oid)
  | [], _ => by
    unfold Files.makeDirectories
    exact calls_done _
  | name :: above, h => by
    have habove : above.reverse <+: (directory root oid).parts := by
      rw [List.reverse_cons] at h
      exact (List.prefix_append _ _).trans h
    have hmake : (ExceptT.lift (Files.ask (.makeDirectory ⟨root.isAbsolute, (name :: above).reverse⟩)).run :
        FilesM (Except IoFault Unit)).run.Calls (Approaches root oid) :=
      calls_run_lift (calls_perform ⟨rfl, h⟩)
    have hagain : ∀ f : IoFault, (Files.ask (.isDirectory ⟨root.isAbsolute, (name :: above).reverse⟩) >>= fun there =>
        if there then pure () else throw f : FilesM Unit).run.Calls (Approaches root oid) := by
      intro f
      refine calls_run_bind (calls_perform trivial) fun there => ?_
      split <;> exact calls_done _
    unfold Files.makeDirectories
    refine calls_run_bind hmake fun x => ?_
    split
    · exact calls_done _
    · refine calls_run_bind (calls_makeDirectories habove) fun _ => calls_run_bind hmake fun y => ?_
      split
      · exact calls_done _
      · exact hagain _
    · exact hagain _

theorem follows_write : (write root oid source length).run.Follows (writing root oid source length)
    (Ends source length) .preparing := by
  have hpath : (lift (Files.makePath (directory root oid))).run.Calls (Approaches root oid) := by
    have hnames : (directory root oid).parts.reverse.reverse <+: (directory root oid).parts := by simp
    exact calls_map (calls_makeDirectories hnames)
  have hstays : ∀ op, Approaches root oid op → (writing root oid source length).allows op .preparing ∧
      ∀ x f, (writing root oid source length).leads op .preparing x f → f = .preparing := by
    intro op hop
    cases op with
    | makeDirectory p => exact ⟨hop, fun x f hf => hf⟩
    | isDirectory p => exact ⟨trivial, fun x f hf => hf⟩
    | _ => cases hop
  unfold write
  refine follows_calls_bind hstays hpath (fun _ => ?_) fun e => trivial
  rw [follows_run_bind, follows_lift]
  refine (follows_ask .freshNumber).mpr ⟨trivial, fun x f hf => ?_⟩
  cases hf
  cases x with
  | error e => trivial
  | ok k =>
    show Follows _ _ _ (Phase.drawn k)
    rw [follows_run_bind]
    refine follows_removing (follows_writePartial.mono fun x f hf => ?_)
    cases x with
    | error e => exact ⟨hf, trivial⟩
    | ok _ =>
      obtain ⟨b, hread, rfl⟩ := hf
      refine follows_removing ?_
      rw [follows_lift]
      refine (follows_ask (.rename _ _)).mpr ⟨⟨rfl, rfl, hread⟩, fun x f hf => ?_⟩
      cases hf
      cases x with
      | error e => exact ⟨.inl rfl, trivial⟩
      | ok _ => exact hread

end

/-! ## What there is in a phase -/

def State (root : FilePath) (l : Location) (oid : Oid) (source : Stream) (length : Nat) (t t' : Files.Tree) :
    Phase → Prop
  | .preparing | .drawn _ | .failing _ => Undisturbed root l t t'
  | .holding k b => Undisturbed root l t t' ∧ t'.node? (place l oid (partialName oid k)) = some (.file b)
  | .failed k => Undisturbed root l t t' ∧ ∀ q n, t'.lookUp (partialPath root oid k) = .ok (q, n) → n = .directory
  | .placed b => Memory.readExactly source length = .ok b ∧ Grounded root t' l ∧
    t'.lookUp (path root oid) = .ok (place l oid oid.hex, .file b) ∧
      ∀ o, o ≠ oid → t'.lookUp (path root o) = t.lookUp (path root o)

section
variable {source : Stream} {length : Nat} {f : Phase} {t₁ t₂ : Files.Tree} {op : Files.Op}

theorem State.grounded (h : State root l oid source length t t₁ f) : Grounded root t₁ l := by
  cases f with
  | preparing | drawn _ | failing _ => exact h.grounded
  | holding k b => exact h.1.grounded
  | failed k => exact h.1.grounded
  | placed b => exact h.2.1

theorem State.undisturbed (h : State root l oid source length t t₁ f) (hf : ¬ ∃ b, f = .placed b) (o : Oid) :
    t₁.lookUp (path root o) = t.lookUp (path root o) := by
  cases f with
  | preparing | drawn _ | failing _ => exact h.paths o
  | holding k b => exact h.1.paths o
  | failed k => exact h.1.paths o
  | placed b => exact absurd ⟨b, rfl⟩ hf

theorem state_of_preparing (h : Undisturbed root l t t₁) {x : Files.interface.Answer op}
    (hop : (writing root oid source length).allows op .preparing) (hstep : Files.Tree.orCutShort op t₁ x t₂) :
    State root l oid source length t t₂ (Phase.preparing.after op x) := by
  cases op with
  | makeDirectory p =>
    have hmade : Undisturbed root l t₁ (Files.Tree.handle (.makeDirectory p) t₁).2 :=
      h.grounded.undisturbed_makeDirectory hop.1 hop.2
    rcases hstep with hrun | ⟨-, hleft⟩
    · rw [hrun] at hmade
      exact h.trans hmade
    · cases hleft with
      | nothing _ => exact h
      | directory _ _ => exact h.trans hmade
  | isDirectory p =>
    rcases hstep with hrun | ⟨-, hleft⟩
    · cases hrun
      exact h
    · cases hleft
      exact h
  | freshNumber =>
    rcases hstep with hrun | ⟨⟨e, rfl⟩, hleft⟩
    · cases hrun
      exact h.trans (h.grounded.undisturbed_of_node rfl fun _ => rfl)
    · cases hleft
      exact h
  | _ => cases hop

theorem state_of_drawn {k : Nat} (h : Undisturbed root l t t₁) {x : Files.interface.Answer op}
    (hop : (writing root oid source length).allows op (.drawn k)) (hstep : Files.Tree.orCutShort op t₁ x t₂) :
    State root l oid source length t t₂ ((Phase.drawn k).after op x) := by
  cases op with
  | create p =>
    cases hop
    have hmade := h.trans (h.grounded.undisturbed_create oid k)
    rcases hstep with hrun | ⟨⟨e, rfl⟩, hleft⟩
    · rw [hrun] at hmade
      cases x with
      | error e => exact hmade
      | ok _ =>
        have hnode := h.grounded.node?_create (congrArg Prod.fst hrun)
        rw [hrun] at hnode
        exact ⟨hmade, hnode⟩
    · cases hleft with
      | nothing _ => exact h
      | file _ _ => exact hmade
  | _ => cases hop

theorem failed_of_remove {k : Nat} (h : Undisturbed root l t t₁) {x : Except IoFault Unit}
    (hstep : Files.Tree.orCutShort (.remove (partialPath root oid k)) t₁ x t₂) :
    State root l oid source length t t₂ (.failed k) := by
  have hremoved := h.trans (h.grounded.undisturbed_remove oid k)
  have hgone : ∀ q n, _ → _ := fun q n => h.grounded.lookUp_remove (q := q) (n := n) oid k
  rcases hstep with hrun | ⟨-, hleft⟩
  · rw [hrun] at hremoved hgone
    exact ⟨hremoved, hgone⟩
  · cases hleft with
    | nothing _ hremove => exact absurd rfl (hremove _)

theorem state_of_holding {k : Nat} {b : ByteArray} (h : Undisturbed root l t t₁)
    (hfile : t₁.node? (place l oid (partialName oid k)) = some (.file b)) {x : Files.interface.Answer op}
    (hop : (writing root oid source length).allows op (.holding k b)) (hstep : Files.Tree.orCutShort op t₁ x t₂) :
    State root l oid source length t t₂ ((Phase.holding k b).after op x) := by
  cases op with
  | append p c =>
    cases hop
    rcases hstep with hrun | ⟨⟨e, rfl⟩, hleft⟩
    · have happended := h.trans (h.grounded.undisturbed_append hfile c)
      rw [h.grounded.handle_append hfile] at hrun happended
      cases hrun
      refine ⟨happended, ?_⟩
      rw [Files.Tree.node?_put (place_ne_nil l oid _), if_pos rfl]
    · cases hleft with
      | nothing _ => exact h
      | bytes _ _ i _ => exact h.trans (h.grounded.undisturbed_append hfile _)
  | flush p | sync p =>
    rcases hstep with hrun | ⟨⟨e, rfl⟩, hleft⟩
    · cases hrun
      exact ⟨h, hfile⟩
    · cases hleft
      exact h
  | rename p p' =>
    obtain ⟨rfl, rfl, hread⟩ := hop
    rcases hstep with hrun | ⟨⟨e, rfl⟩, hleft⟩
    · rcases h.grounded.rename_cases hfile with ⟨t', hrenamed, hgrounded, hpath, hothers⟩ | ⟨e, hfailed⟩
      · rw [hrenamed] at hrun
        cases hrun
        exact ⟨hread, hgrounded, hpath, fun o ho => (hothers o ho).trans (h.paths o)⟩
      · rw [hfailed] at hrun
        cases hrun
        exact h
    · cases hleft
      exact h
  | remove p =>
    cases hop
    exact failed_of_remove h hstep
  | _ => cases hop

/-- What a call comes to fits the phase to which its answer leads. -/
theorem State.step (h : State root l oid source length t t₁ f) {x : Files.interface.Answer op}
    (hop : (writing root oid source length).allows op f) (hstep : Files.Tree.orCutShort op t₁ x t₂) :
    State root l oid source length t t₂ (f.after op x) := by
  cases f with
  | preparing => exact state_of_preparing h hop hstep
  | drawn k => exact state_of_drawn h hop hstep
  | holding k b => exact state_of_holding h.1 h.2 hop hstep
  | failing k =>
    cases op with
    | remove p =>
      cases hop
      exact failed_of_remove h hstep
    | _ => cases hop
  | failed k => cases op <;> cases hop
  | placed b => cases op <;> cases hop

/-! ## What the calls so far say of the phase -/

def Renamed (calls : List ((op : Files.Op) × Files.interface.Answer op)) : Prop :=
  ∃ p p', ⟨.rename p p', .ok ()⟩ ∈ calls

def Phase.Numbered (k : Nat) : Phase → Prop
  | .preparing => False
  | .drawn n | .holding n _ | .failing n | .failed n => n = k
  | .placed _ => True

theorem after_eq_placed_iff (hop : (writing root oid source length).allows op f) (x : Files.interface.Answer op) :
    (∃ b, f.after op x = .placed b) ↔
      ∃ p p', (⟨op, x⟩ : (op : Files.Op) × Files.interface.Answer op) = ⟨.rename p p', .ok ()⟩ := by
  -- a phase allows few calls, and each of them succeeds or fails
  cases f <;> cases op <;> cases hop <;> cases x <;> simp [Phase.after]

theorem numbered_after (hop : (writing root oid source length).allows op f) {x : Files.interface.Answer op} {k : Nat}
    (h : f.Numbered k ∨ (⟨op, x⟩ : (op : Files.Op) × Files.interface.Answer op) = ⟨.freshNumber, .ok k⟩) :
    (f.after op x).Numbered k := by
  cases f <;> cases op <;> cases hop <;> cases x <;> simp_all [Phase.after, Phase.Numbered]

/-- How the calls so far and the phase go together. -/
structure Records (calls : List ((op : Files.Op) × Files.interface.Answer op)) (f : Phase) : Prop where
  renamed : Renamed calls ↔ ∃ b, f = .placed b
  numbered : ∀ k, ⟨.freshNumber, .ok k⟩ ∈ calls → f.Numbered k

theorem records_nil : Records [] .preparing where
  renamed := by simp [Renamed]
  numbered k h := by cases h

theorem Records.append {calls : List ((op : Files.Op) × Files.interface.Answer op)} (h : Records calls f)
    (hop : (writing root oid source length).allows op f) (x : Files.interface.Answer op) :
    Records (calls ++ [⟨op, x⟩]) (f.after op x) where
  renamed := by
    have hnot : ¬ Renamed calls := by
      rw [h.renamed]
      intro hplaced
      obtain ⟨b, rfl⟩ := hplaced
      cases op <;> cases hop
    rw [after_eq_placed_iff hop]
    constructor
    · intro hrenamed
      obtain ⟨p, p', hmem⟩ := hrenamed
      rcases List.mem_append.mp hmem with hmem | hmem
      · exact absurd ⟨p, p', hmem⟩ hnot
      · exact ⟨p, p', (List.mem_singleton.mp hmem).symm⟩
    · intro hlast
      obtain ⟨p, p', hlast⟩ := hlast
      refine ⟨p, p', List.mem_append_right calls ?_⟩
      rw [hlast]
      exact List.mem_singleton_self _
  numbered k hk := by
    refine numbered_after hop ?_
    rcases List.mem_append.mp hk with hk | hk
    · exact .inl (h.numbered k hk)
    · exact .inr (List.mem_singleton.mp hk).symm

/-- Wherever a write is, and whatever has failed, all objects are answered as before until the file has been put into
place, and from then on the object has the whole of what was read. A write that has failed has left no file behind. No
file in the making is where an object's is to be, and objects have places of their own. The next write may begin from
wherever this one has got to. -/
theorem all_or_nothing (h : Grounded root t l) (oid : Oid) (source : Stream) (length : Nat)
    {calls : List ((op : Files.Op) × Files.interface.Answer op)} {rest : Prog Files.interface (Except VaultError Unit)}
    (hrun : (write root oid source length).run.Partway Files.Tree.orCutShort t calls rest t') :
    (¬ Renamed calls → ∀ o, answers root t' o = answers root t o) ∧
    (Renamed calls → ∃ b, Memory.readExactly source length = .ok b ∧
      answers root t' oid = (.ok (some (Stream.ofBytes b)), .ok (some length), .ok true) ∧
        ∀ o, o ≠ oid → answers root t' o = answers root t o) ∧
    (rest = .done (.ok ()) → Renamed calls) ∧
    (∀ e, rest = .done (.error e) → ¬ Renamed calls ∧ ∀ k, ⟨.freshNumber, .ok k⟩ ∈ calls →
      ∀ q n, t'.lookUp (partialPath root oid k) = .ok (q, n) → n = .directory) ∧
    (∀ o k o', partialPath root o k ≠ path root o') ∧ (∀ o o', path root o = path root o' → o = o') ∧
    Grounded root t' l := by
  obtain ⟨f, hrest, hrecords, hstate⟩ := Prog.Follows.partway
    (fun calls t' f => Records calls f ∧ State root l oid source length t t' f) hrun
    (fun hgoes hop hstep => ⟨_, rfl, hgoes.1.append hop _, hgoes.2.step hop hstep⟩) follows_write
    ⟨records_nil, h.undisturbed⟩
  have hfinal : ∀ x, rest = .done x → Ends source length x f := by
    intro x hx
    rw [hx] at hrest
    exact Prog.follows_done.mp hrest
  refine ⟨fun hnot o => ?_, fun hrenamed => ?_, fun hok => ?_, fun e he => ?_, partialPath_ne_path root,
    fun o o' => path_inj, hstate.grounded⟩
  · exact answers_congr (hstate.undisturbed (mt hrecords.renamed.mpr hnot) o)
  · obtain ⟨b, rfl⟩ := hrecords.renamed.mp hrenamed
    obtain ⟨hread, -, hfile, hothers⟩ := hstate
    have hsize := size_of_readExactly hread
    exact ⟨b, hread, hsize ▸ answers_file hfile, fun o ho => answers_congr (hothers o ho)⟩
  · have hend := hfinal _ hok
    cases f with
    | placed b => exact hrecords.renamed.mpr ⟨b, rfl⟩
    | _ => cases hend
  · have hend := hfinal _ he
    cases f with
    | preparing =>
      exact ⟨mt hrecords.renamed.mp (by simp), fun k hk => absurd (hrecords.numbered k hk) id⟩
    | failed n =>
      refine ⟨mt hrecords.renamed.mp (by simp), fun k hk => ?_⟩
      have hn : n = k := hrecords.numbered k hk
      exact hn ▸ hstate.2
    | _ => cases hend

end

end Filed

namespace Sample

theorem grounded_opened : Filed.Grounded root opened ["srv", "blobs"] where
  rooted := rfl
  base := rfl
  closed x name hx := by
    have hentries : opened.nodes.entries.map Prod.fst = [["srv"], ["srv", "blobs"]] := by decide +kernel
    rw [Files.Tree.node?, if_neg (by simp)] at hx
    obtain ⟨n, hn⟩ := Option.ne_none_iff_exists'.mp hx
    have hkey := List.mem_map_of_mem (f := Prod.fst) (SortedMap.get?_eq_some_iff.mp hn)
    rw [hentries, List.mem_cons, List.mem_singleton] at hkey
    rcases hkey with hkey | hkey
    · have hparent : x = [] := by simpa using congrArg List.dropLast hkey
      rw [hparent]
      rfl
    · have hparent : x = ["srv"] := by simpa using congrArg List.dropLast hkey
      rw [hparent]
      rfl

def unsynced : Handler Files.interface Files.Tree
  | .sync _, t => (.error fault, t)
  | op, t => Files.Tree.handle op t

theorem orCutShort_unsynced (op : Files.Op) (t : Files.Tree) :
    Files.Tree.orCutShort op t (unsynced op t).1 (unsynced op t).2 := by
  cases op with
  | sync p => exact .inr ⟨⟨fault, rfl⟩, .nothing t (by simp)⟩
  | _ => exact .inl rfl

end Sample

open Sample in
theorem Filed.all_or_nothing_below_opened :
    let p := (write root default [.bytes two] 2).run
    let done := p.run Files.Tree.handle opened
    let failed := p.run unsynced opened
    Grounded root opened ["srv", "blobs"] ∧ done.1 = .ok () ∧
      answers root done.2 default = (.ok (some (Stream.ofBytes two)), .ok (some 2), .ok true) ∧
        failed.1 = .error (.io fault) ∧ answers root failed.2 default = (.ok none, .ok none, .ok false) ∧
          ∀ q n, failed.2.lookUp (partialPath root default 0) = .ok (q, n) → n = .directory := by
  intro p done failed
  have hdone : done.1 = .ok () := rfl
  have hfailed : failed.1 = .error (.io fault) := rfl
  obtain ⟨-, hplaced, hrenamed, -⟩ := all_or_nothing grounded_opened default [.bytes two] 2
    (Prog.partway_run (fun op t => .inl rfl) p opened :
      p.Partway Files.Tree.orCutShort opened (p.trace Files.Tree.handle opened) _ _)
  obtain ⟨hunchanged, -, -, hleft, -⟩ := all_or_nothing grounded_opened default [.bytes two] 2
    (Prog.partway_run orCutShort_unsynced p opened)
  obtain ⟨b, hread, hanswers, -⟩ := hplaced (hrenamed (congrArg _ hdone))
  obtain ⟨hnot, hgone⟩ := hleft _ (congrArg _ hfailed)
  cases hread
  refine ⟨grounded_opened, hdone, hanswers, hfailed, (hunchanged hnot default).trans rfl, hgone 0 ?_⟩
  exact List.mem_of_getElem? (i := 3) rfl

end BlobDepot.Vault
