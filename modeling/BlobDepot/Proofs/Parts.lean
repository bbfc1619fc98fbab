import BlobDepot.Directory.Filter
import BlobDepot.Text.Basic
import Mathlib.Data.List.TakeWhile

/-!
# Parts of texts

Texts that are cut at a separator and joined again. Joined parts end as other joined parts do exactly when the last of
them are those parts: `intercalate_suffix_iff`.
-/

namespace BlobDepot.Text

section
variable {α : Type} {sep : α} {l : List α} {a b : List (List α)}

theorem intercalate_append (ha : a ≠ []) (hb : b ≠ []) :
    [sep].intercalate (a ++ b) = [sep].intercalate a ++ sep :: [sep].intercalate b := by
  induction a with
  | nil => exact absurd rfl ha
  | cons p a ih =>
    cases a with
    | nil => simp [List.intercalate_cons_of_ne_nil hb]
    | cons q a =>
      have hrest := ih (by simp)
      rw [List.cons_append] at hrest
      rw [List.cons_append, List.cons_append, List.intercalate_cons_cons, List.intercalate_cons_cons, hrest]
      simp

variable [DecidableEq α]

theorem splitList_eq_splitOn (sep : α) (l : List α) : splitList sep l = l.splitOn sep := by
  induction l with
  | nil => rw [splitList, List.splitOn_nil]
  | cons c r ih =>
    rw [splitList, List.splitOn_cons_eq_if_modifyHead, ih]
    obtain ⟨p, ps, hp⟩ := List.exists_cons_of_ne_nil (List.splitOn_ne_nil sep r)
    by_cases hc : c = sep
    · simp [hc]
    · simp [hc, hp]

theorem splitList_ne_nil (sep : α) (l : List α) : splitList sep l ≠ [] := by
  rw [splitList_eq_splitOn]
  exact List.splitOn_ne_nil sep l

theorem splitList_of_notMem (h : sep ∉ l) : splitList sep l = [l] := by
  rw [splitList_eq_splitOn, List.splitOn_eq_singleton h]

theorem splitList_concat (l r : List α) : splitList sep (l ++ sep :: r) = splitList sep l ++ splitList sep r := by
  simp only [splitList_eq_splitOn, List.splitOn_append_cons_self]

theorem splitList_append (h : sep ∉ l) (r : List α) : splitList sep (l ++ sep :: r) = l :: splitList sep r := by
  rw [splitList_concat, splitList_of_notMem h, List.singleton_append]

theorem splitList_intercalate (ha : ∀ p ∈ a, sep ∉ p) (hne : a ≠ []) : splitList sep ([sep].intercalate a) = a := by
  rw [splitList_eq_splitOn, List.splitOn_intercalate sep ha hne]

theorem notMem_of_mem_splitList {p : List α} (h : p ∈ splitList sep l) : sep ∉ p := by
  induction l generalizing p with
  | nil => simp_all [splitList]
  | cons c r ih =>
    obtain ⟨q, qs, hq⟩ := List.exists_cons_of_ne_nil (splitList_ne_nil sep r)
    rw [splitList] at h
    split at h
    · rcases List.mem_cons.mp h with rfl | h
      · exact List.not_mem_nil
      · exact ih h
    · next hc =>
      simp only [hq] at h ih
      rcases List.mem_cons.mp h with rfl | h
      · have hfirst := ih List.mem_cons_self
        exact fun hmem => (List.mem_cons.mp hmem).elim (fun he => hc he.symm) hfirst
      · exact ih (List.mem_cons_of_mem q h)

theorem intercalate_suffix_iff (ha : ∀ p ∈ a, sep ∉ p) (hb : ∀ p ∈ b, sep ∉ p) (hane : a ≠ []) (hbne : b ≠ []) :
    [sep].intercalate a = [sep].intercalate b ∨ sep :: [sep].intercalate b <:+ [sep].intercalate a ↔ b <:+ a := by
  constructor
  · rintro (heq | ⟨t, ht⟩)
    · have hsplit := splitList_intercalate ha hane
      rw [heq, splitList_intercalate hb hbne] at hsplit
      exact hsplit ▸ List.suffix_refl b
    · refine ⟨splitList sep t, ?_⟩
      rw [← splitList_intercalate ha hane, ← ht, splitList_concat, splitList_intercalate hb hbne]
  · rintro ⟨c, rfl⟩
    cases c with
    | nil => exact .inl rfl
    | cons p c => exact .inr ⟨[sep].intercalate (p :: c), (intercalate_append (by simp) hbne).symm⟩

end

/-! ## The first separator -/

theorem cutFirst?_append {α : Type} [DecidableEq α] {sep : α} {before : List α} (h : sep ∉ before) (after : List α) :
    cutFirst? sep (before ++ sep :: after) = some (before, after) := by
  induction before with
  | nil => simp [cutFirst?]
  | cons c before ih =>
    obtain ⟨hc, hbefore⟩ := not_or.mp (mt List.mem_cons.mpr h)
    simp [cutFirst?, Ne.symm hc, ih hbefore]

theorem cutFirst?_eq_some_iff {α : Type} [DecidableEq α] {sep : α} {l before after : List α} :
    cutFirst? sep l = some (before, after) ↔ sep ∉ before ∧ l = before ++ sep :: after := by
  constructor
  · intro h
    induction l generalizing before with
    | nil => cases h
    | cons c r ih =>
      unfold cutFirst? at h
      split at h
      · next hc =>
        cases h
        exact ⟨List.not_mem_nil, by rw [hc, List.nil_append]⟩
      · next hc =>
        obtain ⟨⟨b, a⟩, hcut, hsame⟩ := Option.map_eq_some_iff.mp h
        cases hsame
        obtain ⟨hmem, rfl⟩ := ih hcut
        exact ⟨fun hsep => (List.mem_cons.mp hsep).elim (fun he => hc he.symm) hmem, rfl⟩
  · intro h
    rw [h.2, cutFirst?_append h.1]

theorem cutFirst?_getD {α : Type} [DecidableEq α] (sep : α) (l : List α) :
    ((cutFirst? sep l).map (·.1)).getD l = l.takeWhile (· != sep) := by
  induction l with
  | nil => rfl
  | cons c r ih =>
    unfold cutFirst?
    by_cases hc : c = sep
    · simp [hc]
    · have hne : (c != sep) = true := bne_iff_ne.mpr hc
      rw [if_neg hc, List.takeWhile_cons, hne, if_pos rfl, ← ih]
      cases cutFirst? sep r <;> rfl

/-! ## Texts -/

theorem split_of_notMem {sep : Char} {s : String} (h : sep ∉ s.toList) : split sep s = [s] := by
  rw [split, splitList_of_notMem h, List.map_singleton, String.ofList_toList]

theorem splitFirst?_eq_some_iff {sep : Char} {s before after : String} :
    splitFirst? sep s = some (before, after) ↔
      sep ∉ before.toList ∧ s.toList = before.toList ++ sep :: after.toList := by
  unfold splitFirst?
  rw [Option.map_eq_some_iff, ← cutFirst?_eq_some_iff]
  constructor
  · intro h
    obtain ⟨⟨b, a⟩, hcut, hsame⟩ := h
    cases hsame
    rwa [String.toList_ofList, String.toList_ofList]
  · intro h
    exact ⟨_, h, by rw [String.ofList_toList, String.ofList_toList]⟩

/-- What stands before the first separator, or all if there is none. -/
theorem toList_splitFirst?_getD (sep : Char) (s : String) :
    (((splitFirst? sep s).map (·.1)).getD s).toList = s.toList.takeWhile (· != sep) := by
  rw [← cutFirst?_getD, splitFirst?]
  cases cutFirst? sep s.toList with
  | none => rfl
  | some p => exact String.toList_ofList

theorem split_append {sep : Char} {a b s : String} (hs : s.toList = a.toList ++ sep :: b.toList) (h : sep ∉ a.toList) :
    split sep s = a :: split sep b := by
  rw [split, hs, splitList_append h, List.map_cons, String.ofList_toList]
  rfl

/-! ## Blanks and the case of letters -/

theorem toLower_eq_or (c : Char) :
    c.toLower = c ∨ (65 ≤ c.toNat ∧ c.toNat ≤ 90) ∧ c.toLower.toNat = c.toNat + 32 := by
  by_cases hc : c.val ≥ 'A'.val ∧ c.val ≤ 'Z'.val
  · have hfirst : 65 ≤ c.toNat := UInt32.le_iff_toNat_le.mp hc.1
    have hlast : c.toNat ≤ 90 := UInt32.le_iff_toNat_le.mp hc.2
    refine .inr ⟨⟨hfirst, hlast⟩, ?_⟩
    have hlower : c.toLower = _ := dif_pos hc
    rw [hlower]
    show (c.val + 32).toNat = c.val.toNat + 32
    have : c.val.toNat ≤ 90 := hlast
    simp [UInt32.toNat_add]
    omega
  · exact .inl (dif_neg hc)

theorem eq_of_toLower_eq {c d : Char} (h : c.toLower = d) (hd : d.toNat < 97) : c = d := by
  rcases toLower_eq_or c with hc | ⟨hc, hlower⟩
  · rw [← hc, h]
  · rw [h] at hlower
    omega

theorem isBlank_toLower (c : Char) : isBlank c.toLower = isBlank c := by
  rcases toLower_eq_or c with h | ⟨h, hlower⟩
  · rw [h]
  · have hletter : ∀ d : Char, 65 ≤ d.toNat → d.toNat ≤ 122 → isBlank d = false := by
      intro d hfirst hlast
      simp [isBlank]
      omega
    rw [hletter c (by omega) (by omega), hletter _ (by omega) (by omega)]

theorem dropWhile_isBlank_eq_self {l : List Char} (h : ∀ c ∈ l.head?, isBlank c = false) : l.dropWhile isBlank = l := by
  cases l with
  | nil => rfl
  | cons c r => exact List.dropWhile_cons_of_neg (by simp [h c rfl])

theorem trimChars_eq_self {l : List Char} (hfirst : ∀ c ∈ l.head?, isBlank c = false)
    (hlast : ∀ c ∈ l.getLast?, isBlank c = false) : trimChars l = l := by
  unfold trimChars
  rw [dropWhile_isBlank_eq_self hfirst, dropWhile_isBlank_eq_self (by rwa [List.head?_reverse]), List.reverse_reverse]

theorem trimChars_sublist (l : List Char) : (trimChars l).Sublist l := by
  have hback := (List.dropWhile_sublist (l := (l.dropWhile isBlank).reverse) isBlank).reverse
  rw [List.reverse_reverse] at hback
  exact hback.trans (List.dropWhile_sublist _)

/-- What is removed is blank. -/
theorem exists_append_trimChars (l : List Char) :
    ∃ before after, (∀ c ∈ before ++ after, isBlank c = true) ∧ l = before ++ trimChars l ++ after := by
  refine ⟨l.takeWhile isBlank, ((l.dropWhile isBlank).reverse.takeWhile isBlank).reverse, fun c hc => ?_, ?_⟩
  · rcases List.mem_append.mp hc with hc | hc
    · exact List.mem_takeWhile_imp hc
    · exact List.mem_takeWhile_imp (List.mem_reverse.mp hc)
  · rw [trimChars, List.append_assoc, ← List.reverse_append, List.takeWhile_append_dropWhile, List.reverse_reverse,
      List.takeWhile_append_dropWhile]

theorem mem_trimChars {l : List Char} {c : Char} (h : c ∈ l) (hc : isBlank c = false) : c ∈ trimChars l := by
  obtain ⟨before, after, hblank, hl⟩ := exists_append_trimChars l
  have hinner : c ∉ before ++ after := by
    intro hmem
    rw [hblank c hmem] at hc
    cases hc
  rw [hl, List.mem_append, List.mem_append] at h
  rw [List.mem_append, not_or] at hinner
  exact (h.resolve_right hinner.2).resolve_left hinner.1

/-- What stands between blanks is left if it begins and ends with none. -/
theorem trimChars_append {before l after : List Char} (hbefore : ∀ c ∈ before, isBlank c = true)
    (hafter : ∀ c ∈ after, isBlank c = true) (hl : l ≠ []) (hfirst : ∀ c ∈ l.head?, isBlank c = false)
    (hlast : ∀ c ∈ l.getLast?, isBlank c = false) : trimChars (before ++ l ++ after) = l := by
  have hfront : (l ++ after).dropWhile isBlank = l ++ after := by
    obtain ⟨c, r, rfl⟩ := List.exists_cons_of_ne_nil hl
    exact dropWhile_isBlank_eq_self hfirst
  have hback : (l ++ after).reverse.dropWhile isBlank = l.reverse := by
    rw [List.reverse_append, List.dropWhile_append_of_pos fun c hc => hafter c (List.mem_reverse.mp hc)]
    exact dropWhile_isBlank_eq_self (by rwa [List.head?_reverse])
  rw [trimChars, List.append_assoc, List.dropWhile_append_of_pos hbefore, hfront, hback, List.reverse_reverse]

theorem mem_of_mem_trimChars {l : List Char} {c : Char} (h : c ∈ trimChars l) : c ∈ l :=
  (trimChars_sublist l).subset h

theorem sameLetters_iff {a b : String} : sameLetters a b = true ↔ lower a = lower b :=
  beq_iff_eq

theorem toList_lower (s : String) : (lower s).toList = s.toList.map Char.toLower :=
  String.toList_ofList

end BlobDepot.Text

/-!
## Components of names

A name lies in the subtree of another one when its last components are the components of the other:
`isInSubtree_iff`. Blanks around components and the case of letters make no difference.
-/

namespace BlobDepot.Directory

open Text (sameLetters splitList)

def components (dn : String) : List String :=
  (Text.split ',' dn).map fun part => Text.lower (Text.trim part)

theorem components_ne_nil (dn : String) : components dn ≠ [] := by
  simp [components, Text.split, Text.splitList_ne_nil]

theorem comma_notMem_component {dn p : String} (h : p ∈ components dn) : ',' ∉ p.toList := by
  simp only [components, Text.split, List.map_map, List.mem_map] at h
  obtain ⟨part, hpart, rfl⟩ := h
  intro hmem
  simp only [Function.comp_apply, Text.toList_lower, Text.trim, String.toList_ofList, List.mem_map] at hmem
  obtain ⟨c, hc, hlower⟩ := hmem
  rw [Text.eq_of_toLower_eq hlower (by decide)] at hc
  exact Text.notMem_of_mem_splitList hpart (Text.mem_of_mem_trimChars hc)

theorem toList_normalizeName (dn : String) :
    (normalizeName dn).toList = [','].intercalate ((components dn).map String.toList) := by
  rw [normalizeName, String.toList_intercalate]
  rfl

theorem components_append (a b : String) : components (a ++ "," ++ b) = components a ++ components b := by
  have hcomma : (",":String).toList = [','] := rfl
  simp [components, Text.split, hcomma, Text.splitList_concat]

/-- A name with a comma is never the root. -/
theorem normalizeName_append_ne_empty (a b : String) : normalizeName (a ++ "," ++ b) ≠ "" := by
  intro h
  have hlist := congrArg String.toList h
  rw [toList_normalizeName, components_append, List.map_append,
    Text.intercalate_append (by simp [components_ne_nil]) (by simp [components_ne_nil])] at hlist
  simp at hlist

theorem isInSubtree_iff {dn base : String} (h : normalizeName base ≠ "") :
    isInSubtree (normalizeName dn) (normalizeName base) = true ↔ components base <:+ components dn := by
  have hmap : (components base).map String.toList <:+ (components dn).map String.toList ↔
      components base <:+ components dn := by
    constructor
    · intro hsuffix
      obtain ⟨l, hl, hmap⟩ := List.suffix_map_iff.mp hsuffix
      rwa [(List.map_inj_right fun _ _ => String.toList_inj.mp).mp hmap]
    · exact fun hsuffix => hsuffix.map String.toList
  have hcomma : (",":String).toList = [','] := rfl
  simp only [isInSubtree, Bool.or_eq_true, beq_iff_eq, h, false_or, List.isSuffixOf_iff_suffix, String.toList_append,
    ← String.toList_inj, toList_normalizeName, hcomma, List.singleton_append]
  rw [Text.intercalate_suffix_iff, hmap]
  · simpa using fun p hp => comma_notMem_component hp
  · simpa using fun p hp => comma_notMem_component hp
  · simpa using components_ne_nil dn
  · simpa using components_ne_nil base

end BlobDepot.Directory
