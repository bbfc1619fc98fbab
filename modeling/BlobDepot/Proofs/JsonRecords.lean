import BlobDepot.Encoding.Records
import BlobDepot.Http.Transfer
import BlobDepot.Proofs.Configurations
import BlobDepot.Proofs.Identifiers
import BlobDepot.Proofs.JsonTexts
import BlobDepot.Proofs.SortedMap

/-!
# Records and their texts of JSON

A record that is written as JSON, on one line or on several, is read back as it was, except that the fields that are not
written have their standard values. So what has been read stays the same when it is written and read again:
`records_exchanged`.
-/

namespace BlobDepot

open Decoder

/-! ## Trees of values -/

theorem Value.tree_list (items : List Value) :
    Value.tree (.list items) = .list (items.map Value.tree) none (some .malformed) := by
  have htrees : ∀ items : List Value, Value.trees items = items.map Value.tree := by
    intro items
    induction items with
    | nil => rfl
    | cons v r ih => rw [Value.trees, ih, List.map_cons]
  rw [Value.tree, htrees]

theorem Value.tree_record (fields : List (String × Value)) :
    Value.tree (.record fields) = .record (fields.map fun f => (.text f.1, f.2.tree)) none := by
  have htrees : ∀ fields : List (String × Value),
      Value.fieldTrees fields = fields.map fun f => (.text f.1, f.2.tree) := by
    intro fields
    induction fields with
    | nil => rfl
    | cons f r ih => rw [Value.fieldTrees, ih, List.map_cons]
  rw [Value.tree, htrees]

@[simp] theorem Value.tree_text (s : String) : Value.tree (.text s) = .text s := rfl

@[simp] theorem Value.tree_int (n : Int) : Value.tree (.int n) = .int n := rfl

@[simp] theorem Value.tree_bool (b : Bool) : Value.tree (.bool b) = .bool b := rfl

@[simp] theorem Value.tree_nat (n : Nat) : Value.tree (.nat n) = .int n := rfl

theorem list_tree {α : Type} {item : Decoder α} {value : α → Value} (h : ∀ a, item (value a).tree = .ok a)
    (l : List α) : list item (Value.tree (.list (l.map value))) = .ok l := by
  rw [Value.tree_list, List.map_map]
  exact list_of_ok h l _

/-! ## Records -/

theorem Oid.decode_value (oid : Oid) : decode oid.value.tree = .ok oid := by
  rw [value, Value.tree_text, decode, text_text, bind_ok, parse_hex]
  rfl

theorem ObjectState.decode_value (s : ObjectState) : decode s.value.tree = .ok s := by
  cases s <;> rfl

theorem ObjectRecord.decodeProjects_value (s : SortedSet String) :
    decodeProjects (Value.texts s.keys).tree = .ok s := by
  have hkeys : list text (Value.texts s.keys).tree = .ok s.keys := list_tree (fun _ => rfl) s.keys
  rw [decodeProjects, hkeys]
  exact congrArg Except.ok (SortedSet.ofList_keys s)

theorem ObjectRecord.decode_value {r : ObjectRecord} (hlow : Word.minInt64 ≤ r.size) (hhigh : r.size ≤ Word.maxInt64) :
    decode r.value.tree = .ok { r with existing := false } := by
  have hoid := r.oid.decode_value
  have hsize := int64_int hlow hhigh
  have hstate := r.state.decode_value
  have hprojects := decodeProjects_value r.projects
  simp [decode, value, Value.tree_record, fields, takeFields, Slot.take_of_ok hoid, Slot.take_of_ok hsize,
    Slot.take_of_ok hstate, Slot.take_of_ok hprojects, hoid, hsize, hstate, hprojects, Found.required, Found.optional,
    bind_ok]

theorem ProjectRecord.decodeOids_value (s : SortedSet Oid) :
    decodeOids (Value.tree (.list (s.keys.map Oid.value))) = .ok s := by
  rw [decodeOids, list_tree Oid.decode_value s.keys]
  exact congrArg Except.ok (SortedSet.ofList_keys s)

theorem ProjectRecord.decode_value (p : ProjectRecord) : decode p.value.tree = .ok p := by
  have hoids := decodeOids_value p.oids
  simp [decode, value, Value.tree_record, fields, takeFields, Slot.take_of_ok (text_text p.name), Slot.take_of_ok hoids,
    hoids, Found.required, Found.optional, bind_ok]

theorem UserRecord.decode_value (u : UserRecord) : decode u.value.tree = .ok u := by
  simp [decode, value, Value.tree_record, fields, takeFields, Slot.take_of_ok (text_text _), Found.required, bind_ok]

theorem ObjectRequest.decode_value {r : ObjectRequest} (hlow : Word.minInt64 ≤ r.size)
    (hhigh : r.size ≤ Word.maxInt64) : decode r.value.tree = .ok ⟨r.oid, r.size, "", "", ""⟩ := by
  have hsize := int64_int hlow hhigh
  simp [decode, value, Value.tree_record, fields, takeFields, Slot.take_of_ok (text_text r.oid), Slot.take_of_ok hsize,
    hsize, Found.optional, bind_ok]

/-! ## Links -/

namespace Http

theorem Link.decode_value (l : Link) : decode l.value.tree = .ok l := by
  have hheader : map text (Value.textRecord l.header.entries).tree = .ok l.header := by
    rw [Value.textRecord, Value.tree_record, List.map_map]
    exact (map_of_ok text_text l.header.entries).trans (congrArg Except.ok (SortedMap.ofList_entries l.header))
  by_cases hempty : l.header.isEmpty = true
  · have hnone : l.header = .empty := SortedMap.ext_entries (List.isEmpty_iff.mp hempty)
    obtain ⟨href, header⟩ := l
    cases hnone
    simp [decode, value, Value.tree_record, fields, takeFields, Slot.take_of_ok (text_text href), Found.required,
      Found.optional, SortedMap.isEmpty, SortedMap.empty, bind_ok]
  · simp [decode, value, hempty, Value.tree_record, fields, takeFields, Slot.take_of_ok (text_text l.href),
      Slot.take_of_ok hheader, hheader, Found.required, Found.optional, bind_ok]

theorem Representation.decode_value {r : Representation} (hlow : Word.minInt64 ≤ r.size)
    (hhigh : r.size ≤ Word.maxInt64) : decode r.value.tree = .ok r := by
  have hsize := int64_int hlow hhigh
  have hlinks : map Link.decode (Value.tree (.record (r.links.entries.map fun e => (e.1, e.2.value)))) =
      .ok r.links := by
    rw [Value.tree_record, List.map_map]
    exact (map_of_ok Link.decode_value r.links.entries).trans (congrArg Except.ok (SortedMap.ofList_entries r.links))
  rw [value]
  generalize Value.record (r.links.entries.map fun e => (e.1, e.2.value)) = links at hlinks ⊢
  simp [decode, Value.tree_record, fields, takeFields, Slot.take_of_ok (text_text r.oid), Slot.take_of_ok hsize,
    Slot.take_of_ok hlinks, hsize, hlinks, Found.required, bind_ok]

end Http

/-! ## Settings -/

theorem CatalogBackend.decode_value (b : CatalogBackend) (levels : Nat) : decode levels b.value.tree = .ok b := by
  have hsame : b.value.tree = Toml.tree b.value := by cases b <;> rfl
  rw [hsame, b.decode_tree]

theorem VaultSettings.decode_value {v : VaultSettings} (hlimit : (v.spoolLimit : Int) ≤ Word.maxNat64) :
    decode v.value.tree = .ok v :=
  decode_tree hlimit

theorem Directory.StaticEntry.decode_value (e : StaticEntry) : decode e.value.tree = .ok e :=
  e.decode_tree

theorem Directory.Settings.decode_value (s : Settings) : decode s.value.tree = .ok s := by
  simp [decode, value, valueFields, slots, ofFound, Value.tree_record, fields, takeFields,
    Slot.take_of_ok (text_text _), Found.optional, bind_ok]

theorem DirectorySection.decode_value (d : DirectorySection) (levels : Nat) : decode levels d.value.tree = .ok d :=
  d.decode_record levels (list_tree Directory.StaticEntry.decode_value d.entries)

/-! ## Numbers -/

def Word.IsInt64 (n : Int) : Prop :=
  minInt64 ≤ n ∧ n ≤ maxInt64

theorem Word.isInt64_zero : IsInt64 0 :=
  ⟨by decide, by decide⟩

theorem Word.IsInt64.fits {n : Int} (h : IsInt64 n) : (Value.int n).Fits :=
  .int h.1 (Int.le_trans h.2 (by decide))

namespace Value

theorem Fits.cons {s : String} {v : Value} {r : List (String × Value)} (hv : v.Fits) (hr : (Value.record r).Fits) :
    (Value.record ((s, v) :: r)).Fits := by
  cases hr with
  | record h => exact .record (List.forall_mem_cons.mpr ⟨hv, h⟩)

theorem fits_none : (record []).Fits :=
  .record (List.forall_mem_nil _)

theorem fits_list {α : Type} {value : α → Value} (h : ∀ a, (value a).Fits) (l : List α) :
    (list (l.map value)).Fits := by
  refine .list fun v hv => ?_
  obtain ⟨a, -, rfl⟩ := List.mem_map.mp hv
  exact h a

theorem fits_record {α : Type} {value : α → Value} (h : ∀ a, (value a).Fits) (l : List (String × α)) :
    (record (l.map fun p => (p.1, value p.2))).Fits := by
  refine .record fun f hf => ?_
  obtain ⟨p, -, rfl⟩ := List.mem_map.mp hf
  exact h p.2

end Value

theorem ObjectRecord.fits_value {r : ObjectRecord} (h : Word.IsInt64 r.size) : r.value.Fits :=
  .cons (.text _) <| .cons h.fits <| .cons (.text _) <| .cons (Value.fits_list .text _) Value.fits_none

theorem ProjectRecord.fits_value (p : ProjectRecord) : p.value.Fits :=
  .cons (.text _) <| .cons (Value.fits_list (fun _ => .text _) _) Value.fits_none

theorem UserRecord.fits_value (u : UserRecord) : u.value.Fits :=
  .cons (.text _) <| .cons (.text _) Value.fits_none

theorem ObjectRequest.fits_value {r : ObjectRequest} (h : Word.IsInt64 r.size) : r.value.Fits :=
  .cons (.text _) <| .cons h.fits Value.fits_none

theorem Http.Link.fits_value (l : Link) : l.value.Fits := by
  refine .cons (.text _) ?_
  split
  · exact Value.fits_none
  · exact .cons (Value.fits_record .text _) Value.fits_none

theorem Http.Representation.fits_value {r : Representation} (h : Word.IsInt64 r.size) : r.value.Fits :=
  .cons (.text _) <| .cons h.fits <| .cons (Value.fits_record Link.fits_value _) Value.fits_none

theorem CatalogBackend.fits_value (b : CatalogBackend) : b.value.Fits := by
  cases b with
  | memory => exact .cons (.text _) Value.fits_none
  | sqlite path => exact .cons (.text _) <| .cons (.text _) Value.fits_none

theorem VaultSettings.fits_value {v : VaultSettings} (h : (v.spoolLimit : Int) ≤ Word.maxNat64) : v.value.Fits :=
  .cons (.text _) <| .cons (.int (Int.le_trans (by decide) (Int.natCast_nonneg _)) h) Value.fits_none

theorem Directory.StaticEntry.fits_value (e : StaticEntry) : e.value.Fits :=
  .cons (.text _) <| .cons (.text _) <| .cons (.text _) <| .cons (.text _) Value.fits_none

theorem Directory.Settings.fits_value (s : Settings) : s.value.Fits :=
  .cons (.text _) <| .cons (.text _) <| .cons (.text _) Value.fits_none

theorem DirectorySection.fits_value (d : DirectorySection) : d.value.Fits :=
  .cons (.bool _) <| .cons (.text _) <| .cons (.text _) <| .cons (.text _) <|
    .cons (Value.fits_list Directory.StaticEntry.fits_value _) Value.fits_none

/-! ## What has been read -/

theorem ObjectRecord.of_decode {t : Tree} {r : ObjectRecord} (h : decode t = .ok r) :
    Word.IsInt64 r.size ∧ { r with existing := false } = r := by
  simp only [decode, bind_eq_ok] at h
  obtain ⟨found, -, oid, -, size, hsize, state, -, projects, -, hpure⟩ := h
  cases hpure
  obtain ⟨t, hsize⟩ := Found.exists_of_required hsize
  exact ⟨range_of_int hsize, rfl⟩

theorem ObjectRequest.of_decode {t : Tree} {r : ObjectRequest} (h : decode t = .ok r) :
    Word.IsInt64 r.size ∧ ⟨r.oid, r.size, "", "", ""⟩ = r := by
  simp only [decode, bind_eq_ok] at h
  obtain ⟨found, -, oid, -, size, hsize, hpure⟩ := h
  cases hpure
  refine ⟨?_, rfl⟩
  rcases Found.exists_of_optional hsize with rfl | ⟨t, hsize⟩
  · exact Word.isInt64_zero
  · exact range_of_int hsize

theorem Http.Representation.of_decode {t : Tree} {r : Representation} (h : decode t = .ok r) : Word.IsInt64 r.size := by
  simp only [decode, bind_eq_ok] at h
  obtain ⟨found, -, oid, -, size, hsize, links, -, hpure⟩ := h
  cases hpure
  obtain ⟨t, hsize⟩ := Found.exists_of_required hsize
  exact range_of_int hsize

theorem VaultSettings.of_decode {t : Tree} {v : VaultSettings} (h : decode t = .ok v) :
    (v.spoolLimit : Int) ≤ Word.maxNat64 := by
  simp only [decode, bind_eq_ok] at h
  obtain ⟨found, -, path, -, limit, hlimit, hpure⟩ := h
  cases hpure
  rcases Found.exists_of_optional hlimit with rfl | ⟨t, hlimit⟩
  · exact Int.le_trans standard_spoolLimit_le (by decide)
  · obtain ⟨n, hint, hn⟩ := map_eq_ok.mp hlimit
    obtain ⟨hlow, hhigh⟩ := range_of_int hint
    rwa [← hn, Int.toNat_of_nonneg hlow]

/-! ## Texts -/

namespace Json

/-- The texts that are written of a value: on one line, or on several. -/
def IsText (v : Value) (s : String) : Prop :=
  s = compact v ∨ s = pretty v

/-- What is written of something that fits is read back as what is kept of it. What has been read is written and read
again as it is. -/
structure Exchanges {α : Type} (value : α → Value) (decode : Decoder α) (fits : α → Prop) (kept : α → α) : Prop where
  read_back : ∀ a, fits a → ∀ s, IsText (value a) s → Json.decode decode (Text.Utf8.encode s) = .ok (kept a)
  stable : ∀ bytes a, Json.decode decode bytes = .ok a → ∀ s, IsText (value a) s →
    Json.decode decode (Text.Utf8.encode s) = .ok a

section

variable {α : Type} {value : α → Value} {decode : Decoder α} {fits : α → Prop} {kept : α → α}

theorem read_of_isText {v : Value} (hv : v.Fits) {s : String} (h : IsText v s) :
    read (Text.Utf8.encode s) = (v.tree, some []) := by
  rcases h with rfl | rfl
  · exact read_render Layout.blank_oneLine hv
  · exact read_render Layout.blank_indented hv

theorem decode_of_read {s : Bytes} {t : Tree} {a : α} (hread : read s = (t, some [])) (h : decode t = .ok a) :
    Json.decode decode s = .ok a := by
  rw [Json.decode, hread]
  dsimp only
  rw [h]
  rfl

theorem decode_eq_ok {s : Bytes} {a : α} (h : Json.decode decode s = .ok a) : decode (read s).1 = .ok a := by
  obtain ⟨b, hb, hrest⟩ := bind_eq_ok.mp h
  split at hrest
  · split at hrest
    · exact hb.trans hrest
    · cases hrest
  · cases hrest

theorem Exchanges.of_tree (hfits : ∀ a, fits a → (value a).Fits)
    (htree : ∀ a, fits a → decode (value a).tree = .ok (kept a))
    (hdecoded : ∀ t a, decode t = .ok a → fits a ∧ kept a = a) : Exchanges value decode fits kept := by
  have hback : ∀ a, fits a → ∀ s, IsText (value a) s → Json.decode decode (Text.Utf8.encode s) = .ok (kept a) :=
    fun a ha s hs => decode_of_read (read_of_isText (hfits a ha) hs) (htree a ha)
  refine ⟨hback, fun bytes a h s hs => ?_⟩
  obtain ⟨ha, hkept⟩ := hdecoded _ a (decode_eq_ok h)
  exact (hback a ha s hs).trans (congrArg Except.ok hkept)

/-- The same, for what always fits and is kept as it is. -/
theorem Exchanges.of_tree_all (hfits : ∀ a, (value a).Fits) (htree : ∀ a, decode (value a).tree = .ok a) :
    Exchanges value decode (fun _ => True) id :=
  .of_tree (fun a _ => hfits a) (fun a _ => htree a) fun _ _ _ => ⟨trivial, rfl⟩

end

end Json

open Http in
/-- Each kind of record, link or setting is exchanged in texts of JSON. What is not written is whether an object was
there before, and what a request says in its address and headers. -/
theorem records_exchanged :
    Json.Exchanges ObjectRecord.value ObjectRecord.decode (fun r => Word.IsInt64 r.size)
        (fun r => { r with existing := false }) ∧
      Json.Exchanges ProjectRecord.value ProjectRecord.decode (fun _ => True) id ∧
      Json.Exchanges UserRecord.value UserRecord.decode (fun _ => True) id ∧
      Json.Exchanges ObjectRequest.value ObjectRequest.decode (fun r => Word.IsInt64 r.size)
        (fun r => ⟨r.oid, r.size, "", "", ""⟩) ∧
      Json.Exchanges Link.value Link.decode (fun _ => True) id ∧
      Json.Exchanges Representation.value Representation.decode (fun r => Word.IsInt64 r.size) id ∧
      Json.Exchanges Directory.StaticEntry.value Directory.StaticEntry.decode (fun _ => True) id ∧
      Json.Exchanges Directory.Settings.value Directory.Settings.decode (fun _ => True) id ∧
      Json.Exchanges DirectorySection.value (DirectorySection.decode Tree.levels) (fun _ => True) id ∧
      Json.Exchanges VaultSettings.value VaultSettings.decode (fun v => (v.spoolLimit : Int) ≤ Word.maxNat64) id ∧
      Json.Exchanges CatalogBackend.value (CatalogBackend.decode Tree.levels) (fun _ => True) id := by
  refine ⟨?object, ?project, ?user, ?request, ?link, ?representation, ?entry, ?settings, ?directory, ?vault, ?catalog⟩
  case object =>
    exact .of_tree (fun _ h => ObjectRecord.fits_value h) (fun _ h => ObjectRecord.decode_value h.1 h.2)
      fun _ _ h => ObjectRecord.of_decode h
  case project => exact .of_tree_all ProjectRecord.fits_value ProjectRecord.decode_value
  case user => exact .of_tree_all UserRecord.fits_value UserRecord.decode_value
  case request =>
    exact .of_tree (fun _ h => ObjectRequest.fits_value h) (fun _ h => ObjectRequest.decode_value h.1 h.2)
      fun _ _ h => ObjectRequest.of_decode h
  case link => exact .of_tree_all Link.fits_value Link.decode_value
  case representation =>
    exact .of_tree (fun _ h => Representation.fits_value h) (fun _ h => Representation.decode_value h.1 h.2)
      fun _ _ h => ⟨Representation.of_decode h, rfl⟩
  case entry => exact .of_tree_all Directory.StaticEntry.fits_value Directory.StaticEntry.decode_value
  case settings => exact .of_tree_all Directory.Settings.fits_value Directory.Settings.decode_value
  case directory => exact .of_tree_all DirectorySection.fits_value fun d => d.decode_value Tree.levels
  case vault =>
    exact .of_tree (fun _ h => VaultSettings.fits_value h) (fun _ h => VaultSettings.decode_value h)
      fun _ _ h => ⟨VaultSettings.of_decode h, rfl⟩
  case catalog => exact .of_tree_all CatalogBackend.fits_value fun b => b.decode_value Tree.levels

namespace Json.Sample

def found : ObjectRecord :=
  ⟨default, Word.minInt64, .committed, SortedSet.ofList ["\"\\\n\u0001é"], true⟩

/-- A link with no headers, with its fields out of order and one that is unknown. -/
def loosely : String :=
  " \x7b\"header\": \x7b\x7d, \"rel\": [1.5, null], \"href\": \"\\u002fa\"\x7d\n"

end Json.Sample

open Json.Sample in
theorem records_exchanged_of_found :
    (Word.IsInt64 found.size ∧ Json.IsText found.value (Json.pretty found.value) ∧
      Json.decode ObjectRecord.decode (Text.Utf8.encode (Json.pretty found.value)) =
        .ok { found with existing := false }) ∧
      Json.decode Http.Link.decode (Text.Utf8.encode loosely) = .ok ⟨"/a", .empty⟩ ∧
      Json.decode Http.Link.decode (Text.Utf8.encode (Json.compact (Http.Link.value ⟨"/a", .empty⟩))) =
        .ok ⟨"/a", .empty⟩ := by
  have hsize : Word.IsInt64 found.size := ⟨by decide, by decide⟩
  have hread : Json.decode Http.Link.decode (Text.Utf8.encode loosely) = .ok ⟨"/a", .empty⟩ := by decide +kernel
  obtain ⟨hobject, -, -, -, hlink, -⟩ := records_exchanged
  exact ⟨⟨hsize, .inr rfl, hobject.read_back found hsize _ (.inr rfl)⟩, hread, hlink.stable _ _ hread _ (.inl rfl)⟩

end BlobDepot
