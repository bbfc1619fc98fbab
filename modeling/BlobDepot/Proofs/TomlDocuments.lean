import BlobDepot.Proofs.TomlLines

/-!
# Documents of TOML

A record is written as a table, and what is written is read back as the tree of the record: `read?_write?`. The tables
are read from the outermost to the innermost, so that all lines add to what is newest in the document.
-/

namespace BlobDepot.Toml

open Reading

/-! ## Tables under construction -/

namespace Fields

variable {k : String} {fields : Fields} {node node' : Node}

abbrev keys (fields : Fields) : List String :=
  fields.map (·.1)

theorem get?_of_notMem (h : k ∉ fields.keys) : fields.get? k = none := by
  have hfind : fields.find? (·.1 == k) = none := by
    rw [List.find?_eq_none]
    intro f hf hk
    exact h (List.mem_map.mpr ⟨f, hf, eq_of_beq hk⟩)
  rw [get?, hfind]
  rfl

theorem get?_newest (h : k ∉ fields.keys) : get? k (fields ++ [(k, node)]) = some node := by
  have hfind : fields.find? (·.1 == k) = none := by
    have hget := get?_of_notMem h
    rwa [get?, Option.map_eq_none_iff] at hget
  simp [get?, List.find?_append, hfind]

theorem set_of_notMem (h : k ∉ fields.keys) : set k node fields = fields ++ [(k, node)] := by
  simp [set, get?_of_notMem h]

theorem set_newest (h : k ∉ fields.keys) : set k node' (fields ++ [(k, node)]) = fields ++ [(k, node')] := by
  have hold : fields.map (fun f => if f.1 = k then (k, node') else f) = fields := by
    rw [List.map_congr_left (g := id), List.map_id]
    intro f hf
    have hne : f.1 ≠ k := fun hk => h (List.mem_map.mpr ⟨f, hf, hk⟩)
    simp [hne]
  simp [set, get?_newest h, hold]

theorem update_append (dotted : Bool) (change : Origin → Fields → Option Fields) (q : List String) :
    ∀ (p : List String) (origin : Origin) (fields : Fields), update dotted change (p ++ q) origin fields =
      update dotted (fun origin fields => update dotted change q origin fields) p origin fields
  | [], _, _ => rfl
  | key :: p, origin, fields => by
    simp only [List.cons_append, update, update_append dotted change q p]

end Fields

/-- Where lines add to: a table at the end of the fields, at the end of a path of such tables. -/
def AtEnd (path : List String) (place : Fields → Fields) : Prop :=
  ∀ (change : Fields → Option Fields) (origin : Origin) (inner : Fields),
    Fields.update false (fun _ => change) path origin (place inner) = (change inner).map place

namespace AtEnd

variable {path : List String} {place : Fields → Fields} {k : String} {fields : Fields}

theorem root : AtEnd [] id := by
  intro change origin inner
  simp [Fields.update]

theorem snoc (h : AtEnd path place) {wrap : Fields → Fields}
    (hwrap : ∀ (change : Fields → Option Fields) (inner : Fields),
      Fields.update false (fun _ => change) [k] .header (wrap inner) = (change inner).map wrap) :
    AtEnd (path ++ [k]) fun inner => place (wrap inner) := by
  intro change origin inner
  rw [Fields.update_append]
  have hignores : (fun origin fields => Fields.update false (fun _ => change) [k] origin fields) =
      fun _ fields => Fields.update false (fun _ => change) [k] .header fields := rfl
  rw [hignores, h, hwrap, Option.map_map]
  rfl

theorem table (h : AtEnd path place) (hk : k ∉ fields.keys) :
    AtEnd (path ++ [k]) fun inner => place (fields ++ [(k, Node.table .header inner)]) := by
  apply h.snoc
  intro change inner
  cases hchange : change inner <;> simp [Fields.update, Fields.get?_newest hk, Fields.set_newest hk, hchange]

theorem tables (h : AtEnd path place) (hk : k ∉ fields.keys) (older : List Fields) :
    AtEnd (path ++ [k]) fun inner => place (fields ++ [(k, Node.tables inner older)]) := by
  apply h.snoc
  intro change inner
  cases hchange : change inner <;> simp [Fields.update, Fields.get?_newest hk, Fields.set_newest hk, hchange]

end AtEnd

/-! ## Lines and what they build -/

/-- The lines of a text turn one document into another, whatever follows the text. -/
def Builds (s : List Char) (d d' : Document) : Prop :=
  ∃ lines, (∀ rest, ReadsItems readLine (s ++ rest) lines rest) ∧ lines.foldlM Document.add d = some d'

namespace Builds

variable {s s' : List Char} {d d' d'' : Document}

theorem nil (d : Document) : Builds [] d d :=
  ⟨[], fun _ _ _ h => h, rfl⟩

theorem append (h : Builds s d d') (h' : Builds s' d' d'') : Builds (s ++ s') d d'' := by
  obtain ⟨l, hreads, hfold⟩ := h
  obtain ⟨l', hreads', hfold'⟩ := h'
  refine ⟨l ++ l', fun rest => ?_, ?_⟩
  · rw [List.append_assoc]
    exact ReadsItems.append (hreads _) (hreads' rest)
  · simp [List.foldlM_append, hfold, hfold']

theorem line {l : Line} (hne : s ≠ []) (hread : ∀ rest, readLine (s ++ rest) = some (l, rest))
    (hadd : d.add l = some d') : Builds s d d' := by
  refine ⟨[l], fun rest => ReadsItems.one (hread rest) ?_, by simp [hadd]⟩
  rw [List.length_append]
  have hpos := List.length_pos_iff.mpr hne
  omega

theorem blank (d : Document) : Builds ['\n'] d d :=
  line (by simp) (fun rest => readLine_blank rest) rfl

end Builds

/-! ## Plain fields -/

theorem isInline_plain {v : Value} (hv : IsInline v) : isRecord v = false ∧ isTables v = false := by
  cases hv <;> exact ⟨rfl, rfl⟩

theorem tables?_inline {v : Value} (hv : IsInline v) (path : List String) : tables? path v = some [] := by
  cases hv <;> rfl

theorem lines?_cons {k : String} {v : Value} {l s : List Char} {r : List (String × Value)} (hv : IsInline v)
    (hl : inline? v = some l) (hr : lines? r = some s) :
    lines? ((k, v) :: r) = some (keyText k ++ " = ".toList ++ l ++ ['\n'] ++ s) := by
  obtain ⟨hrecord, htables⟩ := isInline_plain hv
  simp only [lines?, Option.bind_eq_bind, Option.pure_def, Option.bind_eq_some_iff] at hr
  obtain ⟨parts, hparts, hpure⟩ := hr
  cases hpure
  have hkeep : (((k, v) :: r).filter fun f => !isRecord f.2 && !isTables f.2) =
      (k, v) :: r.filter fun f => !isRecord f.2 && !isTables f.2 := by
    simp [hrecord, htables]
  rw [lines?, hkeep, List.mapM_cons]
  simp only [Option.bind_eq_bind, Option.pure_def, hl, Option.bind_some, hparts, List.flatten_cons]

def valueNodes (fields : List (String × Value)) : Fields :=
  fields.map fun f => (f.1, .value (tree f.2))

/-- Fields that are new stay so, next to one of another name. -/
theorem notMem_keys {k : String} {v : Value} {r : List (String × Value)} {before : Fields}
    (hnew : ∀ f ∈ (k, v) :: r, f.1 ∉ before.keys) (hk : k ∉ r.map (·.1)) (node : Node) :
    ∀ f ∈ r, f.1 ∉ Fields.keys (before ++ [(k, node)]) := by
  intro f hf hmem
  rw [Fields.keys, List.map_append, List.mem_append] at hmem
  apply hmem.elim (hnew f (List.mem_cons_of_mem _ hf))
  intro hkey
  exact hk (List.mem_map.mpr ⟨f, hf, List.mem_singleton.mp hkey⟩)

theorem builds_lines : ∀ {fields : List (String × Value)}, (∀ f ∈ fields, IsBare f.1 ∧ IsInline f.2) →
    (fields.map (·.1)).Nodup → ∃ s, lines? fields = some s ∧
      ∀ {path : List String} {place : Fields → Fields} {before : Fields}, AtEnd path place →
        (∀ f ∈ fields, f.1 ∉ before.keys) →
        Builds s ⟨place before, path⟩ ⟨place (before ++ valueNodes fields), path⟩
  | [], _, _ => by
    refine ⟨[], rfl, fun {path place before} _ _ => ?_⟩
    simpa [valueNodes] using Builds.nil ⟨place before, path⟩
  | (k, v) :: r, h, hdistinct => by
    obtain ⟨hk, hv⟩ := h _ List.mem_cons_self
    rw [List.map_cons, List.nodup_cons] at hdistinct
    obtain ⟨s, hs, hrest⟩ := builds_lines (fun f hf => h f (List.mem_cons_of_mem _ hf)) hdistinct.2
    obtain ⟨l, hl, hread⟩ := readLine_field hk hv
    refine ⟨_, lines?_cons hv hl hs, fun {path place before} hplace hnew => ?_⟩
    have hinsert : before.insert [] k (tree v) = some (before ++ [(k, Node.value (tree v))]) := by
      have hk' : k ∉ before.keys := hnew _ List.mem_cons_self
      simp [Fields.insert, Fields.update, Fields.get?_of_notMem hk', Fields.set_of_notMem hk']
    have hline : Builds (keyText k ++ " = ".toList ++ l ++ ['\n']) ⟨place before, path⟩
        ⟨place (before ++ [(k, Node.value (tree v))]), path⟩ := by
      apply Builds.line (by simp)
      · intro rest
        rw [List.append_assoc]
        exact hread rest
      · simp [Document.add, hplace _ _ before, hinsert]
    have hnext := notMem_keys hnew hdistinct.1 (Node.value (tree v))
    have hnodes : before ++ valueNodes ((k, v) :: r) = before ++ [(k, Node.value (tree v))] ++ valueNodes r := by
      simp [valueNodes]
    rw [hnodes]
    exact hline.append (hrest hplace hnext)

theorem lines?_append {plain tables : List (String × Value)}
    (htables : ∀ f ∈ tables, isRecord f.2 = true ∨ isTables f.2 = true) : lines? (plain ++ tables) = lines? plain := by
  have hdrop : (tables.filter fun f => !isRecord f.2 && !isTables f.2) = [] := by
    rw [List.filter_eq_nil_iff]
    intro f hf
    rcases htables f hf with h | h <;> simp [h]
  rw [lines?, lines?, List.filter_append, hdrop, List.append_nil]

theorem fieldTables?_append {plain : List (String × Value)} (hplain : ∀ f ∈ plain, IsInline f.2) (path : List String)
    (tables : List (String × Value)) : fieldTables? path (plain ++ tables) = fieldTables? path tables := by
  induction plain with
  | nil => rfl
  | cons f r ih =>
    have hrest := ih fun g hg => hplain g (List.mem_cons_of_mem f hg)
    simp [fieldTables?, tables?_inline (hplain f List.mem_cons_self), hrest]

/-! ## Headers -/

section

variable {path : List String} {place : Fields → Fields} {k : String} {before : Fields}

theorem builds_header (hpath : ∀ p ∈ path ++ [k], IsBare p) (hlength : (path ++ [k]).length < depth)
    (hplace : AtEnd path place) (hk : k ∉ before.keys) (current : List String) :
    Builds ("\n[".toList ++ headerText (path ++ [k]) ++ "]\n".toList) ⟨place before, current⟩
      ⟨place (before ++ [(k, Node.table .header [])]), path ++ [k]⟩ := by
  have hbegin : Fields.begin path k (place before) = some (place (before ++ [(k, Node.table .header [])])) := by
    simp [Fields.begin, hplace _ _ before, Fields.get?_of_notMem hk, Fields.set_of_notMem hk]
  have hline : Builds ('[' :: (headerText (path ++ [k]) ++ [']', '\n'])) ⟨place before, current⟩
      ⟨place (before ++ [(k, Node.table .header [])]), path ++ [k]⟩ := by
    apply Builds.line (by simp)
    · intro rest
      simpa using readLine_header hpath hlength rest
    · simp [Document.add, hbegin]
  simpa using (Builds.blank _).append hline

theorem builds_itemHeader (hpath : ∀ p ∈ path ++ [k], IsBare p) (hlength : (path ++ [k]).length < depth)
    {before after : Fields} (hbegin : Fields.beginItem path k before = some after) (current : List String) :
    Builds ("\n[[".toList ++ headerText (path ++ [k]) ++ "]]\n".toList) ⟨before, current⟩ ⟨after, path ++ [k]⟩ := by
  have hline : Builds ('[' :: '[' :: (headerText (path ++ [k]) ++ [']', ']', '\n'])) ⟨before, current⟩
      ⟨after, path ++ [k]⟩ := by
    apply Builds.line (by simp)
    · intro rest
      simpa using readLine_itemHeader hpath hlength rest
    · simp [Document.add, hbegin]
  simpa using (Builds.blank _).append hline

theorem beginItem_first (hplace : AtEnd path place) (hk : k ∉ before.keys) :
    Fields.beginItem path k (place before) = some (place (before ++ [(k, Node.tables [] [])])) := by
  simp [Fields.beginItem, hplace _ _ before, Fields.get?_of_notMem hk, Fields.set_of_notMem hk]

theorem beginItem_next (hplace : AtEnd path place) (hk : k ∉ before.keys) (newest : Fields) (older : List Fields) :
    Fields.beginItem path k (place (before ++ [(k, Node.tables newest older)])) =
      some (place (before ++ [(k, Node.tables [] (newest :: older))])) := by
  simp [Fields.beginItem, hplace _ _ (before ++ _), Fields.get?_newest hk, Fields.set_newest hk]

end

/-! ## Tables -/

theorem fieldTrees_append (a b : Fields) : fieldTrees (a ++ b) = fieldTrees a ++ fieldTrees b := by
  induction a with
  | nil => rfl
  | cons f r ih => rw [List.cons_append, fieldTrees, ih, fieldTrees, List.cons_append]

theorem treeFields_append (a b : List (String × Value)) : treeFields (a ++ b) = treeFields a ++ treeFields b := by
  induction a with
  | nil => rfl
  | cons f r ih => rw [List.cons_append, treeFields, ih, treeFields, List.cons_append]

theorem fieldTrees_valueNodes (fields : List (String × Value)) : fieldTrees (valueNodes fields) = treeFields fields := by
  induction fields with
  | nil => rfl
  | cons f r ih =>
    have hcons : valueNodes (f :: r) = (f.1, .value (tree f.2)) :: valueNodes r := rfl
    rw [hcons, fieldTrees, ih, treeFields, Node.tree]

/-- The lines and the tables of a record are read back into its table. -/
def ReadsTable (path : List String) (fields : List (String × Value)) : Prop :=
  ∃ a b, lines? fields = some a ∧ fieldTables? path fields = some b ∧
    ∀ {place : Fields → Fields}, AtEnd path place → ∃ inner last, fieldTrees inner = treeFields fields ∧
      Builds (a ++ b) ⟨place [], path⟩ ⟨place inner, last⟩

def ReadsField (path : List String) (k : String) (v : Value) : Prop :=
  ∃ s, tables? (path ++ [k]) v = some s ∧ ∀ {place : Fields → Fields} {before : Fields} {current : List String},
    AtEnd path place → k ∉ before.keys → ∃ node last, node.tree = tree v ∧
      Builds s ⟨place before, current⟩ ⟨place (before ++ [(k, node)]), last⟩

theorem readsField_record {path : List String} {k : String} {fields : List (String × Value)}
    (hpath : ∀ p ∈ path ++ [k], IsBare p) (hlength : (path ++ [k]).length < depth)
    (h : ReadsTable (path ++ [k]) fields) : ReadsField path k (.record fields) := by
  obtain ⟨a, b, ha, hb, hread⟩ := h
  refine ⟨_, by simp only [tables?, ha, hb]; rfl, fun {place before current} hplace hk => ?_⟩
  obtain ⟨inner, last, htree, hbuilds⟩ := hread (hplace.table hk)
  refine ⟨.table .header inner, last, by rw [Node.tree, htree, tree], ?_⟩
  have hall := (builds_header hpath hlength hplace hk current).append hbuilds
  rwa [← List.append_assoc] at hall

theorem builds_item {path : List String} {k : String} {fields : List (String × Value)}
    (hpath : ∀ p ∈ path ++ [k], IsBare p) (hlength : (path ++ [k]).length < depth)
    (h : ReadsTable (path ++ [k]) fields) : ∃ s, itemTable? (path ++ [k]) (.record fields) = some s ∧
      ∀ {place : Fields → Fields} {before start : Fields} {older : List Fields} (current : List String),
        AtEnd path place → k ∉ before.keys →
        Fields.beginItem path k start = some (place (before ++ [(k, Node.tables [] older)])) →
        ∃ inner last, fieldTrees inner = treeFields fields ∧
          Builds s ⟨start, current⟩ ⟨place (before ++ [(k, Node.tables inner older)]), last⟩ := by
  obtain ⟨a, b, ha, hb, hread⟩ := h
  refine ⟨_, by simp only [itemTable?, ha, hb]; rfl, fun {place before start older} current hplace hk hbegin => ?_⟩
  obtain ⟨inner, last, htree, hbuilds⟩ := hread (hplace.tables hk older)
  refine ⟨inner, last, htree, ?_⟩
  have hall := (builds_itemHeader hpath hlength hbegin current).append hbuilds
  rwa [← List.append_assoc] at hall

theorem builds_items {path : List String} {k : String} (hpath : ∀ p ∈ path ++ [k], IsBare p)
    (hlength : (path ++ [k]).length < depth) : ∀ {items : List Value},
    (∀ v ∈ items, ∃ fields, v = .record fields ∧ ReadsTable (path ++ [k]) fields) →
    ∃ s, itemTables? (path ++ [k]) items = some s ∧
      ∀ {place : Fields → Fields} {before : Fields}, AtEnd path place → k ∉ before.keys →
        ∀ (newest : Fields) (older : List Fields) (current : List String), ∃ newest' older' last,
          itemTrees (newest' :: older') = (trees items).reverse ++ itemTrees (newest :: older) ∧
          Builds s ⟨place (before ++ [(k, Node.tables newest older)]), current⟩
            ⟨place (before ++ [(k, Node.tables newest' older')]), last⟩
  | [], _ => ⟨[], rfl, fun {place before} _ _ newest older current => ⟨newest, older, current, rfl, .nil _⟩⟩
  | v :: r, h => by
    obtain ⟨fields, rfl, hfields⟩ := h _ List.mem_cons_self
    obtain ⟨s, hs, hitem⟩ := builds_item hpath hlength hfields
    obtain ⟨s', hs', hrest⟩ := builds_items hpath hlength fun v hv => h v (List.mem_cons_of_mem _ hv)
    refine ⟨s ++ s', by simp [itemTables?, hs, hs'], fun {place before} hplace hk newest older current => ?_⟩
    obtain ⟨inner, last, htree, hbuilds⟩ := hitem current hplace hk (beginItem_next hplace hk newest older)
    obtain ⟨newest', older', last', htrees, hbuilds'⟩ := hrest hplace hk inner (newest :: older) last
    refine ⟨newest', older', last', ?_, hbuilds.append hbuilds'⟩
    rw [htrees]
    simp [trees, tree, itemTrees, htree]

theorem isTables_list {items : List Value} (hne : items ≠ []) (h : ∀ v ∈ items, ∃ fields, v = .record fields) :
    isTables (.list items) = true := by
  have hrecords : items.all isRecord = true := List.all_eq_true.mpr fun v hv => by
    obtain ⟨fields, rfl⟩ := h v hv
    rfl
  simp [isTables, hne, hrecords]

theorem readsField_items {path : List String} {k : String} {items : List Value}
    (hpath : ∀ p ∈ path ++ [k], IsBare p) (hlength : (path ++ [k]).length < depth) (hne : items ≠ [])
    (h : ∀ v ∈ items, ∃ fields, v = .record fields ∧ ReadsTable (path ++ [k]) fields) :
    ReadsField path k (.list items) := by
  have htables := isTables_list hne fun v hv => (h v hv).imp fun _ => And.left
  obtain ⟨v, r, rfl⟩ := List.exists_cons_of_ne_nil hne
  obtain ⟨fields, rfl, hfields⟩ := h _ List.mem_cons_self
  obtain ⟨s, hs, hitem⟩ := builds_item hpath hlength hfields
  obtain ⟨s', hs', hrest⟩ := builds_items hpath hlength fun v hv => h v (List.mem_cons_of_mem _ hv)
  refine ⟨s ++ s', by simp [tables?, htables, itemTables?, hs, hs'], fun {place before current} hplace hk => ?_⟩
  obtain ⟨inner, last, htree, hbuilds⟩ := hitem current hplace hk (beginItem_first hplace hk)
  obtain ⟨newest', older', last', htrees, hbuilds'⟩ := hrest hplace hk inner [] last
  refine ⟨.tables newest' older', last', ?_, hbuilds.append hbuilds'⟩
  have hlist : (itemTrees (newest' :: older')).reverse = tree (.record fields) :: trees r := by
    rw [htrees]
    simp [itemTrees, htree, tree]
  rw [tree, trees, ← hlist]
  rfl

theorem builds_tables {path : List String} : ∀ {tables : List (String × Value)},
    (∀ f ∈ tables, ReadsField path f.1 f.2) → (tables.map (·.1)).Nodup →
    ∃ s, fieldTables? path tables = some s ∧
      ∀ {place : Fields → Fields} {before : Fields} (current : List String), AtEnd path place →
        (∀ f ∈ tables, f.1 ∉ before.keys) → ∃ inner last, fieldTrees inner = treeFields tables ∧
          Builds s ⟨place before, current⟩ ⟨place (before ++ inner), last⟩
  | [], _, _ => by
    refine ⟨[], rfl, fun {place before} current _ _ => ⟨[], current, rfl, ?_⟩⟩
    rw [List.append_nil]
    exact .nil _
  | (k, v) :: r, h, hdistinct => by
    rw [List.map_cons, List.nodup_cons] at hdistinct
    obtain ⟨s, hs, hfield⟩ := h _ List.mem_cons_self
    obtain ⟨s', hs', hrest⟩ := builds_tables (fun f hf => h f (List.mem_cons_of_mem _ hf)) hdistinct.2
    refine ⟨s ++ s', by simp [fieldTables?, hs, hs'], fun {place before} current hplace hnew => ?_⟩
    obtain ⟨node, last, htree, hbuilds⟩ := hfield hplace (hnew _ List.mem_cons_self)
    obtain ⟨inner, last', htrees, hbuilds'⟩ := hrest last hplace (notMem_keys hnew hdistinct.1 node)
    refine ⟨(k, node) :: inner, last', by rw [fieldTrees, htree, htrees, treeFields], ?_⟩
    rw [List.append_assoc] at hbuilds'
    exact hbuilds.append hbuilds'

/-! ## Records -/

def AreKeys (l : List String) : Prop :=
  (∀ k ∈ l, IsBare k) ∧ l.Nodup

instance (l : List String) : Decidable (AreKeys l) :=
  inferInstanceAs (Decidable (_ ∧ _))

/-- The plain fields of a record stand before those that are tables. -/
structure Layout (isTable : Value → Prop) (fields : List (String × Value)) : Prop where
  keys : AreKeys (fields.map (·.1))
  order : ∃ plain tables, fields = plain ++ tables ∧ (∀ f ∈ plain, IsInline f.2) ∧ ∀ f ∈ tables, isTable f.2

inductive IsTables (isRecord : List (String × Value) → Prop) : Value → Prop where
  | record {fields : List (String × Value)} (h : isRecord fields) : IsTables isRecord (.record fields)
  | items {items : List Value} (hne : items ≠ []) (h : ∀ v ∈ items, ∃ fields, v = .record fields ∧ isRecord fields) :
    IsTables isRecord (.list items)

/-- A record in which tables lie within each other no deeper than so many levels. -/
def IsDocument : Nat → List (String × Value) → Prop
  | 0 => Layout fun _ => False
  | n + 1 => Layout (IsTables (IsDocument n))

/-- A record of plain fields. -/
theorem isDocument_of_inline {fields : List (String × Value)} (hkeys : AreKeys (fields.map (·.1)))
    (hinline : ∀ f ∈ fields, IsInline f.2) (n : Nat) : IsDocument n fields := by
  cases n <;> exact ⟨hkeys, fields, [], (List.append_nil _).symm, hinline, List.forall_mem_nil _⟩

theorem IsTables.written {isRec : List (String × Value) → Prop} {v : Value} (h : IsTables isRec v) :
    isRecord v = true ∨ isTables v = true := by
  cases h with
  | record h => exact .inl rfl
  | items hne h => exact .inr (isTables_list hne fun v hv => (h v hv).imp fun _ => And.left)

theorem readsTable_of_layout {isTable : Value → Prop} {path : List String} {fields : List (String × Value)}
    (h : Layout isTable fields) (hwritten : ∀ v, isTable v → isRecord v = true ∨ isTables v = true)
    (hread : ∀ k v, IsBare k → isTable v → ReadsField path k v) : ReadsTable path fields := by
  obtain ⟨plain, tables, rfl, hplain, htables⟩ := h.order
  obtain ⟨hbare, hdistinct⟩ := h.keys
  rw [List.map_append, List.nodup_append] at hdistinct
  have hbare' : ∀ f ∈ plain ++ tables, IsBare f.1 := fun f hf => hbare f.1 (List.mem_map.mpr ⟨f, hf, rfl⟩)
  obtain ⟨a, ha, hlines⟩ := builds_lines
    (fun f hf => ⟨hbare' f (List.mem_append_left _ hf), hplain f hf⟩) hdistinct.1
  obtain ⟨b, hb, hfields⟩ := builds_tables
    (fun f hf => hread f.1 f.2 (hbare' f (List.mem_append_right _ hf)) (htables f hf)) hdistinct.2.1
  refine ⟨a, b, (lines?_append fun f hf => hwritten f.2 (htables f hf)).trans ha,
    (fieldTables?_append hplain path tables).trans hb, fun {place} hplace => ?_⟩
  have hnew : ∀ f ∈ tables, f.1 ∉ Fields.keys ([] ++ valueNodes plain) := by
    intro f hf hmem
    rw [List.nil_append, Fields.keys, valueNodes, List.map_map] at hmem
    exact hdistinct.2.2 _ hmem _ (List.mem_map.mpr ⟨f, hf, rfl⟩) rfl
  obtain ⟨inner, last, htree, hbuilds⟩ := hfields path hplace hnew
  refine ⟨valueNodes plain ++ inner, last, ?_, (hlines hplace (by simp)).append hbuilds⟩
  rw [fieldTrees_append, fieldTrees_valueNodes, htree, treeFields_append]

theorem readsTable_of_isDocument {n : Nat} : ∀ {path : List String} {fields : List (String × Value)},
    IsDocument n fields → (∀ p ∈ path, IsBare p) → path.length + n < depth → ReadsTable path fields := by
  induction n with
  | zero => exact fun h _ _ => readsTable_of_layout h (fun _ h => h.elim) fun _ _ _ h => h.elim
  | succ n ih =>
    intro path fields h hpath hlength
    refine readsTable_of_layout h (fun _ => IsTables.written) fun k v hk hv => ?_
    have hpath' : ∀ p ∈ path ++ [k], IsBare p := by
      intro p hp
      apply (List.mem_append.mp hp).elim (hpath p)
      intro hlast
      rwa [List.mem_singleton.mp hlast]
    have hlength' : (path ++ [k]).length + n < depth := by
      rw [List.length_append, List.length_singleton]
      omega
    cases hv with
    | record h => exact readsField_record hpath' (by omega) (ih h hpath' hlength')
    | items hne h =>
      refine readsField_items hpath' (by omega) hne fun v hv => ?_
      obtain ⟨fields, rfl, hfields⟩ := h v hv
      exact ⟨fields, rfl, ih hfields hpath' hlength'⟩

theorem readLine_byteOrderMark (s : List Char) : readLine (byteOrderMark :: s) = none := by
  rfl

/-- A document is read back as it was written. -/
theorem read?_write? {n : Nat} {fields : List (String × Value)} (h : IsDocument n fields) (hn : n < depth) :
    ∃ s, write? fields = some s ∧ read? s = some (tree (.record fields)) := by
  have htable : ReadsTable [] fields := readsTable_of_isDocument h (by simp) (by simpa using hn)
  obtain ⟨a, b, ha, hb, hread⟩ := htable
  obtain ⟨inner, last, htree, lines, hreads, hfold⟩ := hread .root
  refine ⟨String.ofList (a ++ b), by simp [write?, ha, hb], ?_⟩
  have hchain := hreads [] [] [] (.stop rfl)
  rw [List.append_nil, List.append_nil] at hchain
  have hmark : (a ++ b).head? ≠ some byteOrderMark := by
    intro hhead
    obtain ⟨r, hr⟩ := List.head?_eq_some_iff.mp hhead
    rw [hr] at hchain
    cases hchain with
    | step hitem hless hchain => cases hitem.symm.trans (readLine_byteOrderMark r)
  have hlines : readLines? (a ++ b) = some lines := by
    rw [readLines?, if_neg hmark, many_of_chain hchain]
  have hfold' : lines.foldlM Document.add ⟨[], []⟩ = some ⟨inner, last⟩ := hfold
  simp [read?, hlines, hfold', Fields.tree, htree, tree]

end BlobDepot.Toml
