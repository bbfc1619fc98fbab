import BlobDepot.Encoding.Decode
import BlobDepot.Proofs.Readings
import BlobDepot.Proofs.TomlNumbers

/-!
# What decoders take

A decoder of a record takes each field that it knows and hands its tree on as it is.
-/

namespace BlobDepot.Decoder

variable {α β : Type}

/-! ## Fields that are known -/

@[simp] theorem text_text (s : String) : text (.text s) = .ok s := rfl

@[simp] theorem bool_bool (b : Bool) : bool (.bool b) = .ok b := rfl

theorem nat64_int {n : Nat} (h : (n : Int) ≤ Word.maxNat64) : nat64 (.int n) = .ok n := by
  have hint : int 0 Word.maxNat64 (.int n) = .ok n := if_pos ⟨Int.natCast_nonneg n, h⟩
  rw [nat64, hint]
  rfl

theorem int64_int {n : Int} (hlow : Word.minInt64 ≤ n) (hhigh : n ≤ Word.maxInt64) : int64 (.int n) = .ok n :=
  if_pos ⟨hlow, hhigh⟩

@[simp] theorem clear_none : clear none = .ok () := rfl

@[simp] theorem Slot.of_name (name : String) (value : Decoder α) : (Slot.of name value).name = name := rfl

@[simp] theorem Found.get?_nil (name : String) : Found.get? [] name = none := rfl

@[simp] theorem Found.get?_cons (name name' : String) (t : Tree) (found : Found) :
    Found.get? ((name, t) :: found) name' = if name = name' then some t else found.get? name' := by
  by_cases h : name = name' <;> simp [Found.get?, h]

theorem Slot.take_of_ok {value : Decoder α} {t : Tree} {a : α} (h : value t = .ok a) (name : String) (found : Found) :
    (Slot.of name value).take t found = .ok ((name, t) :: found) := by
  simp [Slot.take, Slot.of, h]

theorem mapM_ok {f : α → Except DecodeError β} {g : β → α} (h : ∀ b, f (g b) = .ok b) (l : List β) :
    (l.map g).mapM f = .ok l := by
  induction l with
  | nil => rfl
  | cons b r ih =>
    rw [List.map_cons, List.mapM_cons, h, ih]
    rfl

theorem list_of_ok {item : Decoder α} {g : α → Tree} (h : ∀ a, item (g a) = .ok a) (l : List α) (unread : Option Fault) :
    list item (.list (l.map g) none unread) = .ok l := by
  rw [list, mapM_ok h]
  rfl

theorem mapFields_ok {value : Decoder α} {g : α → Tree} (h : ∀ a, value (g a) = .ok a) (l : List (String × α)) :
    mapFields value (l.map fun p => (.text p.1, g p.2)) = .ok l := by
  induction l with
  | nil => rfl
  | cons p r ih =>
    rw [List.map_cons, mapFields, h, bind_ok, ih]
    rfl

theorem map_of_ok {value : Decoder α} {g : α → Tree} (h : ∀ a, value (g a) = .ok a) (l : List (String × α)) :
    map value (.record (l.map fun p => (.text p.1, g p.2)) none) = .ok (SortedMap.ofList l) := by
  rw [map, mapFields_ok h]
  rfl

/-! ## What has been decoded -/

theorem Found.exists_of_required {found : Found} {name : String} {value : Decoder α} {a : α}
    (h : found.required name value = .ok a) : ∃ t, value t = .ok a := by
  unfold Found.required at h
  split at h
  · exact ⟨_, h⟩
  · cases h

theorem Found.exists_of_optional {found : Found} {name : String} {value : Decoder α} {default a : α}
    (h : found.optional name value default = .ok a) : a = default ∨ ∃ t, value t = .ok a := by
  unfold Found.optional at h
  split at h
  · exact .inr ⟨_, h⟩
  · exact .inl (Except.ok.inj h).symm

theorem range_of_int {low high n : Int} {t : Tree} (h : int low high t = .ok n) : low ≤ n ∧ n ≤ high := by
  unfold int at h
  split at h
  · split at h
    · next hrange => exact Except.ok.inj h ▸ hrange
    · cases h
  · unfold unfit at h
    split at h <;> cases h

/-! ## Numbers in what is found -/

def Found.Fit (found : Found) : Prop :=
  ∀ p ∈ found, p.2.Fits

theorem Slot.take_eq_ok {slot : Slot} {t : Tree} {found found' : Found} (h : slot.take t found = .ok found') :
    found' = (slot.name, t) :: found := by
  unfold Slot.take at h
  split at h
  · cases h
  · exact (Except.ok.inj h).symm

theorem fit_takeFields {slots : List Slot} : ∀ {l : List (Label × Tree)} {found found' : Found},
    takeFields slots l found = .ok found' → (∀ f ∈ l, f.2.Fits) → found.Fit → found'.Fit
  | [], found, found', h, _, hfound => by
    cases h
    exact hfound
  | (.refused f skipped, t) :: r, found, found', h, _, _ => by cases h
  | (.text name, t) :: r, found, found', h, hl, hfound => by
    have hr : ∀ f ∈ r, f.2.Fits := fun f hf => hl f (List.mem_cons_of_mem _ hf)
    rw [takeFields] at h
    split at h
    · split at h
      · cases h
      · obtain ⟨next, htake, hrest⟩ := bind_eq_ok.mp h
        rw [Slot.take_eq_ok htake] at hrest
        exact fit_takeFields hrest hr (List.forall_mem_cons.mpr ⟨hl _ List.mem_cons_self, hfound⟩)
    · obtain ⟨_, -, hrest⟩ := bind_eq_ok.mp h
      exact fit_takeFields hrest hr hfound

theorem fit_takeItems : ∀ {slots : List Slot} {l : List Tree} {stop unread : Option Fault} {found found' : Found},
    takeItems slots l stop unread found = .ok found' → (∀ t ∈ l, t.Fits) → found.Fit → found'.Fit := by
  intro slots
  induction slots with
  | nil =>
    intro l stop unread found found' h _ hfound
    cases l <;>
      · obtain ⟨_, -, hpure⟩ := bind_eq_ok.mp h
        cases hpure
        exact hfound
  | cons slot slots ih =>
    intro l stop unread found found' h hl hfound
    cases l with
    | nil =>
      obtain ⟨_, -, hpure⟩ := bind_eq_ok.mp h
      cases hpure
      exact hfound
    | cons t r =>
      obtain ⟨next, htake, hrest⟩ := bind_eq_ok.mp h
      rw [Slot.take_eq_ok htake] at hrest
      exact ih hrest (fun t ht => hl t (List.mem_cons_of_mem _ ht))
        (List.forall_mem_cons.mpr ⟨hl _ List.mem_cons_self, hfound⟩)

theorem fit_fields {slots : List Slot} {t : Tree} {found : Found} (h : fields slots t = .ok found) (ht : t.Fits) :
    found.Fit := by
  cases ht with
  | record hfields =>
    obtain ⟨found', htake, hrest⟩ := bind_eq_ok.mp h
    obtain ⟨_, -, hpure⟩ := bind_eq_ok.mp hrest
    cases hpure
    exact fit_takeFields htake hfields (List.forall_mem_nil _)
  | list hitems => exact fit_takeItems h hitems (List.forall_mem_nil _)
  | _ => cases h

/-- What a field comes to: its default, or the value of a tree that was found. -/
theorem Found.optional_eq_ok {found : Found} (hfit : found.Fit) {name : String} {value : Decoder α} {default a : α}
    (h : found.optional name value default = .ok a) : a = default ∨ ∃ t : Tree, t.Fits ∧ value t = .ok a := by
  unfold Found.optional at h
  split at h
  · next t hget =>
    rw [Found.get?, Option.map_eq_some_iff] at hget
    obtain ⟨p, hfind, rfl⟩ := hget
    exact .inr ⟨p.2, hfit p (List.mem_of_find?_eq_some hfind), h⟩
  · exact .inl (Except.ok.inj h).symm

theorem nat64_le {t : Tree} {n : Nat} (ht : t.Fits) (h : nat64 t = .ok n) : (n : Int) ≤ Word.maxInt64 := by
  obtain ⟨i, hint, hn⟩ := map_eq_ok.mp h
  cases ht with
  | int hlow hhigh =>
    rw [int] at hint
    split at hint
    · next hrange =>
      cases hint
      rw [← hn, Int.toNat_of_nonneg hrange.1]
      exact hhigh
    · cases hint
  | _ => cases hint

end BlobDepot.Decoder
