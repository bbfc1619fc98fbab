import BlobDepot.Encoding.Toml.Reader
import BlobDepot.Proofs.Readings

/-!
# The whole numbers of a document

Every whole number in a tree that is read from a text has 64 bits with its sign: `fits_of_read?`.
-/

namespace BlobDepot

inductive Tree.Fits : Tree → Prop
  | null : Fits .null
  | bool (b : Bool) : Fits (.bool b)
  | int {n : Int} (hlow : Word.minInt64 ≤ n) (hhigh : n ≤ Word.maxInt64) : Fits (.int n)
  | float : Fits .float
  | text (s : String) : Fits (.text s)
  | list {items : List Tree} {stop unread : Option Fault} (h : ∀ t ∈ items, Fits t) : Fits (.list items stop unread)
  | record {fields : List (Label × Tree)} {stop : Option Fault} (h : ∀ f ∈ fields, Fits f.2) : Fits (.record fields stop)
  | refused (fault : Fault) (skipped : Option Fault) (bare : Bool) : Fits (.refused fault skipped bare)

namespace Toml

/-! ## What readings yield -/

namespace Reading

variable {α β : Type} {P : α → Prop} {Q : β → Prop}

/-- Whatever is read has a property. -/
def Yields (x : Reading α) (P : α → Prop) : Prop :=
  ∀ (s : List Char) (a : α) (rest : List Char), x s = some (a, rest) → P a

theorem Yields.pure {a : α} (h : P a) : Yields (Pure.pure a) P := by
  intro s b rest hread
  cases hread
  exact h

theorem yields_failure : Yields (failure : Reading α) P := by
  intro s a rest hread
  cases hread

theorem Yields.bind {x : Reading α} {f : α → Reading β} (hx : Yields x P) (hf : ∀ a, P a → Yields (f a) Q) :
    Yields (x >>= f) Q := by
  intro s b rest hread
  rw [bind_apply, Option.bind_eq_some_iff] at hread
  obtain ⟨⟨a, r⟩, hfirst, hthen⟩ := hread
  exact hf a (hx s a r hfirst) r b rest hthen

/-- The same, when what was read before does not matter. -/
theorem Yields.after {x : Reading α} {f : α → Reading β} (hf : ∀ a, Yields (f a) Q) : Yields (x >>= f) Q :=
  Yields.bind (P := fun _ => True) (fun _ _ _ _ => trivial) fun a _ => hf a

theorem Yields.map {x : Reading α} {f : α → β} (hx : Yields x fun a => Q (f a)) : Yields (f <$> x) Q := by
  intro s b rest hread
  rw [map_apply, Option.map_eq_some_iff] at hread
  obtain ⟨⟨a, r⟩, hfirst, hpair⟩ := hread
  cases hpair
  exact hx s a _ hfirst

theorem Yields.orElse {x y : Reading α} (hx : Yields x P) (hy : Yields y P) : Yields (x <|> y) P := by
  intro s a rest hread
  rw [orElse_apply, Option.or_eq_some_iff] at hread
  rcases hread with hread | ⟨-, hread⟩
  · exact hx s a rest hread
  · exact hy s a rest hread

theorem yields_liftM {x : Option α} (hx : ∀ a, x = some a → P a) : Yields (liftM x) P := by
  intro s a rest hread
  rw [liftM_apply, Option.map_eq_some_iff] at hread
  obtain ⟨b', hb, hpair⟩ := hread
  cases hpair
  exact hx _ hb

theorem yields_cons {x : Reading α} {y : Reading (List α)} (hx : Yields x P) (hy : Yields y fun l => ∀ a ∈ l, P a) :
    Yields (do let a ← x; Pure.pure (a :: (← y))) fun l => ∀ a ∈ l, P a :=
  hx.bind fun _ ha => hy.bind fun _ hl => .pure (List.forall_mem_cons.mpr ⟨ha, hl⟩)

theorem Yields.upTo {item : Reading α} (h : Yields item P) : ∀ n : Nat, Yields (upTo item n) fun l => ∀ a ∈ l, P a
  | 0 => .pure (by simp)
  | n + 1 => .orElse (yields_cons h (h.upTo n)) (.pure (by simp))

theorem Yields.many {item : Reading α} (h : Yields item P) : Yields (many item) fun l => ∀ a ∈ l, P a :=
  fun s l rest hread => h.upTo s.length s l rest hread

/-- What each step keeps, they all keep. -/
theorem yields_foldlM {step : β → α → Reading β} (hstep : ∀ b a, Q b → P a → Yields (step b a) Q) :
    ∀ {l : List α} {b : β}, Q b → (∀ a ∈ l, P a) → Yields (l.foldlM step b) Q
  | [], _, hb, _ => .pure hb
  | a :: _, b, hb, hl => by
    rw [List.foldlM_cons]
    exact (hstep b a hb (hl a List.mem_cons_self)).bind fun _ hnext =>
      yields_foldlM hstep hnext fun a' ha' => hl a' (List.mem_cons_of_mem _ ha')

theorem Yields.separated {sep : Reading Unit} {item : Reading α} (h : Yields item P) :
    Yields (separated sep item) fun l => ∀ a ∈ l, P a :=
  yields_cons h (Yields.many (.after fun _ => h))

end Reading

open Reading

/-! ## Tables under construction -/

inductive Node.Fits : Node → Prop
  | value {t : Tree} (h : t.Fits) : Fits (.value t)
  | table {origin : Origin} {fields : List (String × Node)} (h : ∀ f ∈ fields, Fits f.2) : Fits (.table origin fields)
  | tables {newest : List (String × Node)} {older : List (List (String × Node))} (hnewest : ∀ f ∈ newest, Fits f.2)
    (holder : ∀ fields ∈ older, ∀ f ∈ fields, Fits f.2) : Fits (.tables newest older)

theorem fieldTrees_eq_map (fields : Fields) : fieldTrees fields = fields.map fun f => (.text f.1, f.2.tree) := by
  induction fields with
  | nil => rfl
  | cons f r ih => rw [fieldTrees, ih, List.map_cons]

theorem itemTrees_eq_map (items : List Fields) : itemTrees items = items.map Fields.tree := by
  induction items with
  | nil => rfl
  | cons fields r ih => rw [itemTrees, ih, List.map_cons, Fields.tree]

theorem Node.Fits.tree {node : Node} (h : node.Fits) : node.tree.Fits := by
  have hrecord {fields : Fields} (ih : ∀ f ∈ fields, f.2.tree.Fits) : fields.tree.Fits := by
    refine .record fun f hf => ?_
    rw [fieldTrees_eq_map, List.mem_map] at hf
    obtain ⟨g, hg, rfl⟩ := hf
    exact ih g hg
  induction h with
  | value h => exact h
  | table h ih => exact hrecord ih
  | tables hnewest holder ihnewest iholder =>
    refine .list fun t ht => ?_
    rw [List.mem_reverse, List.mem_cons, itemTrees_eq_map, List.mem_map] at ht
    rcases ht with rfl | ⟨fields, hfields, rfl⟩
    · exact hrecord ihnewest
    · exact hrecord (iholder fields hfields)

namespace Fields

def Fit (fields : Fields) : Prop :=
  ∀ f ∈ fields, f.2.Fits

variable {fields : Fields}

theorem Fit.get? (h : fields.Fit) {key : String} {node : Node} (hget : fields.get? key = some node) : node.Fits := by
  rw [Fields.get?, Option.map_eq_some_iff] at hget
  obtain ⟨f, hfind, rfl⟩ := hget
  exact h f (List.mem_of_find?_eq_some hfind)

theorem Fit.set (h : fields.Fit) (key : String) {node : Node} (hnode : node.Fits) : (fields.set key node).Fit := by
  intro f hf
  unfold Fields.set at hf
  split at hf
  · obtain ⟨g, hg, rfl⟩ := List.mem_map.mp hf
    split
    · exact hnode
    · exact h g hg
  · apply (List.mem_append.mp hf).elim (h f)
    intro hlast
    rw [List.mem_singleton.mp hlast]
    exact hnode

/-- A change that keeps to 64 bits does so at the end of any path. -/
theorem Fit.update {dotted : Bool} {change : Origin → Fields → Option Fields} {path : List String}
    (hchange : ∀ (origin : Origin) (fields after : Fields), fields.Fit → change origin fields = some after → after.Fit)
    {origin : Origin} {fields after : Fields} (h : fields.Fit)
    (hupdate : Fields.update dotted change path origin fields = some after) : after.Fit := by
  induction path generalizing origin fields after with
  | nil => exact hchange origin fields after h hupdate
  | cons key path ih =>
    unfold Fields.update at hupdate
    split at hupdate
    · simp only [Option.bind_eq_bind, Option.bind_eq_some_iff] at hupdate
      obtain ⟨inner, hinner, hpure⟩ := hupdate
      cases hpure
      exact h.set key (.table (ih (List.forall_mem_nil _) hinner))
    · cases hupdate
    · next hget =>
      split at hupdate
      · cases hupdate
      · simp only [Option.bind_eq_bind, Option.bind_eq_some_iff] at hupdate
        obtain ⟨inner, hinner, hpure⟩ := hupdate
        cases hpure
        cases h.get? hget with
        | table hold => exact h.set key (.table (ih hold hinner))
    · next hget =>
      simp only [Option.bind_eq_bind, Option.bind_eq_some_iff] at hupdate
      obtain ⟨newest, hnewest, hpure⟩ := hupdate
      cases hpure
      cases h.get? hget with
      | tables hold holder => exact h.set key (.tables (ih hold hnewest) holder)

theorem Fit.insert (h : fields.Fit) {path : List String} {key : String} {t : Tree} (ht : t.Fits) {after : Fields}
    (hinsert : Fields.insert path key t fields = some after) : after.Fit := by
  refine h.update (fun origin fields after h hchange => ?_) hinsert
  split at hchange
  · cases hchange
  · split at hchange
    · cases hchange
    · cases hchange
      exact h.set key (.value ht)

theorem Fit.begin (h : fields.Fit) {path : List String} {key : String} {after : Fields}
    (hbegin : Fields.begin path key fields = some after) : after.Fit := by
  refine h.update (fun origin fields after h hchange => ?_) hbegin
  split at hchange
  · cases hchange
    exact h.set key (.table (List.forall_mem_nil _))
  · next hget =>
    cases hchange
    cases h.get? hget with
    | table hold => exact h.set key (.table hold)
  · cases hchange

theorem Fit.beginItem (h : fields.Fit) {path : List String} {key : String} {after : Fields}
    (hbegin : Fields.beginItem path key fields = some after) : after.Fit := by
  refine h.update (fun origin fields after h hchange => ?_) hbegin
  split at hchange
  · cases hchange
    exact h.set key (.tables (List.forall_mem_nil _) (List.forall_mem_nil _))
  · next hget =>
    cases hchange
    cases h.get? hget with
    | tables hold holder =>
      exact h.set key (.tables (List.forall_mem_nil _) (List.forall_mem_cons.mpr ⟨hold, holder⟩))
  · cases hchange

theorem Fit.tree (h : fields.Fit) : fields.tree.Fits := by
  have htable : (Node.table .header fields).Fits := .table h
  exact htable.tree

end Fields

/-! ## Values -/

theorem fits_of_int64? {n : Int} {t : Tree} (h : int64? n = some t) : t.Fits := by
  unfold int64? at h
  split at h
  · next hn =>
    cases h
    exact .int hn.1 hn.2
  · cases h

theorem fits_of_natIn? {base : Nat} {l : List Char} {t : Tree} (h : natIn? base l = some t) : t.Fits := by
  simp only [natIn?, Option.bind_eq_bind, Option.bind_eq_some_iff] at h
  obtain ⟨ds, -, hint⟩ := h
  exact fits_of_int64? hint

theorem fits_of_int? {l : List Char} {t : Tree} (h : int? l = some t) : t.Fits := by
  unfold int? at h
  split at h
  · exact fits_of_natIn? h
  · exact fits_of_natIn? h
  · exact fits_of_natIn? h
  · simp only [Option.bind_eq_bind, Option.bind_eq_some_iff] at h
    obtain ⟨ds, -, hint⟩ := h
    exact fits_of_int64? hint

theorem eq_float_of_float? {l : List Char} {t : Tree} (h : float? l = some t) : t = .float := by
  unfold float? at h
  simp only [Option.bind_eq_bind] at h
  split at h
  · exact (Option.some.inj h).symm
  · -- With a power or without one, and with a fraction or without one, the size is tested last.
    split at h
    all_goals
      obtain ⟨power, -, h⟩ := Option.bind_eq_some_iff.mp h
      obtain ⟨whole, -, h⟩ := Option.bind_eq_some_iff.mp h
      split at h
      all_goals
        obtain ⟨fraction, -, h⟩ := Option.bind_eq_some_iff.mp h
        split at h
        · cases h
        · split at h
          · cases h
          · exact (Option.some.inj h).symm

theorem fits_momentTree (l : List Char) : (momentTree l).Fits := by
  refine .record fun f hf => ?_
  rw [List.mem_singleton.mp hf]
  exact .text _

theorem fits_of_token? {l : List Char} {t : Tree} (h : token? l = some t) : t.Fits := by
  unfold token? at h
  split at h
  · cases h
    exact .bool true
  · split at h
    · cases h
      exact .bool false
    · split at h
      · cases h
        exact fits_momentTree l
      · cases hint : int? l with
        | some t' =>
          rw [hint] at h
          cases h
          exact fits_of_int? hint
        | none =>
          rw [hint] at h
          rw [eq_float_of_float? h]
          exact .float

theorem yields_scalar : Yields scalar Tree.Fits := by
  refine .after fun l => .orElse (.after fun _ => .after fun r => ?_) (yields_liftM fun t => fits_of_token?)
  split
  · exact .pure (fits_momentTree _)
  · exact yields_failure

theorem yields_assignment {v : Reading Tree} (hv : Yields v Tree.Fits) :
    Yields (assignment v) fun a => a.2.2.Fits :=
  .after fun _ => .after fun _ => .after fun _ => hv.bind fun _ ht => .pure ht

theorem yields_list {v : Reading Tree} (hv : Yields v Tree.Fits) : Yields (list v) Tree.Fits := by
  have hitems : Yields (items v) fun l => ∀ t ∈ l, t.Fits := by
    refine .orElse (.bind (Yields.separated ?_) fun l hl => .after fun _ => .pure hl) (.pure (by simp))
    exact .after fun _ => hv.bind fun t ht => .after fun _ => .pure ht
  exact .after fun _ => hitems.bind fun l hl => .after fun _ => .after fun _ => .pure (.list hl)

theorem yields_record {v : Reading Tree} (hv : Yields v Tree.Fits) : Yields (record v) Tree.Fits := by
  have hfields : Yields (separated (symbol ',') (do
      let a ← assignment v
      spaces
      pure a) <|> pure []) fun l => ∀ a ∈ l, a.2.2.Fits :=
    .orElse (Yields.separated ((yields_assignment hv).bind fun a ha => .after fun _ => .pure ha)) (.pure (by simp))
  refine .after fun _ => hfields.bind fun l hl => .after fun _ => .after fun _ =>
    .bind (yields_foldlM (Q := Fields.Fit) ?_ (List.forall_mem_nil _) hl) fun fields h => .pure h.tree
  exact fun fields a h ha => yields_liftM fun after hinsert => h.insert ha hinsert

theorem yields_value : ∀ room : Nat, Yields (value room) Tree.Fits
  | 0 => .orElse (.map fun _ _ _ _ => .text _) yields_scalar
  | room + 1 =>
    .orElse (.map fun _ _ _ _ => .text _)
      (.orElse (yields_list (yields_value room)) (.orElse (yields_record (yields_value room)) yields_scalar))

/-! ## Lines -/

def Line.Fits : Line → Prop
  | .field _ _ t => t.Fits
  | _ => True

theorem yields_readLine : Yields readLine Line.Fits := by
  have hcontent : Yields (readItemHeader <|> readHeader <|> readField <|> pure Line.blank) Line.Fits := by
    refine .orElse (.after fun _ => .after fun _ => .after fun _ => .pure trivial) (.orElse ?_ (.orElse ?_ (.pure trivial)))
    · exact .after fun _ => .after fun _ => .after fun _ => .pure trivial
    · exact (yields_assignment (yields_value _)).bind fun _ ht => .pure ht
  refine .after fun atEnd => ?_
  split
  · exact Yields.bind (P := fun _ => False) yields_failure fun _ h => h.elim
  · exact .after fun _ => hcontent.bind fun _ hl => .after fun _ => .pure hl

theorem Document.fit_add {d d' : Document} {l : Line} (h : d.fields.Fit) (hl : l.Fits) (hadd : d.add l = some d') :
    d'.fields.Fit := by
  cases l with
  | blank =>
    cases hadd
    exact h
  | header path key =>
    simp only [Document.add, Option.bind_eq_bind, Option.bind_eq_some_iff] at hadd
    obtain ⟨fields, hbegin, hpure⟩ := hadd
    cases hpure
    exact h.begin hbegin
  | itemHeader path key =>
    simp only [Document.add, Option.bind_eq_bind, Option.bind_eq_some_iff] at hadd
    obtain ⟨fields, hbegin, hpure⟩ := hadd
    cases hpure
    exact h.beginItem hbegin
  | field path key t =>
    simp only [Document.add, Option.bind_eq_bind, Option.bind_eq_some_iff] at hadd
    obtain ⟨fields, hinsert, hpure⟩ := hadd
    cases hpure
    exact h.update (fun _ fields after h hchange => h.insert hl hchange) hinsert

theorem Document.fit_foldlM : ∀ {l : List Line} {d d' : Document}, d.fields.Fit → (∀ a ∈ l, a.Fits) →
    l.foldlM Document.add d = some d' → d'.fields.Fit
  | [], _, _, h, _, hfold => by
    cases hfold
    exact h
  | a :: r, d, d', h, hl, hfold => by
    rw [List.foldlM_cons, Option.bind_eq_bind, Option.bind_eq_some_iff] at hfold
    obtain ⟨next, hadd, hrest⟩ := hfold
    exact fit_foldlM (fit_add h (hl a List.mem_cons_self) hadd) (fun b hb => hl b (List.mem_cons_of_mem _ hb)) hrest

theorem fits_of_read? {s : String} {t : Tree} (h : read? s = some t) : t.Fits := by
  obtain ⟨lines, hlines, h⟩ := Option.bind_eq_some_iff.mp h
  obtain ⟨d, hfold, hpure⟩ := Option.bind_eq_some_iff.mp h
  cases hpure
  have hfits : ∀ l ∈ lines, l.Fits := by
    dsimp only [readLines?] at hlines
    generalize (if s.toList.head? = some byteOrderMark then s.toList.drop 1 else s.toList) = content at hlines
    split at hlines
    · next l hmany =>
      cases hlines
      exact yields_readLine.many _ _ _ hmany
    · cases hlines
  have hempty : Fields.Fit [] := List.forall_mem_nil _
  exact (Document.fit_foldlM hempty hfits hfold).tree

end Toml

end BlobDepot
