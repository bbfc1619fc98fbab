import BlobDepot.Text.Basic

/-!
# The bytes of characters

A character of ASCII is one byte, its own number. The bytes of all others are none of those, so that a reader of bytes
that looks for characters of ASCII takes characters whole.
-/

namespace BlobDepot.Text.Utf8

theorem decode?_encode (s : String) : decode? (encode s) = some s := by
  unfold decode? encode ofBytes?
  exact dif_pos s.isValidUTF8

theorem encode_ne_nil {s : String} (h : s ≠ "") : encode s ≠ [] := by
  intro hnil
  have hdecode := decode?_encode s
  rw [hnil] at hdecode
  exact h (Option.some.inj (hdecode.symm.trans (decode?_encode "")))

def ofChars (l : List Char) : List UInt8 :=
  l.flatMap String.utf8EncodeChar

@[simp] theorem ofChars_nil : ofChars [] = [] := rfl

theorem ofChars_cons (c : Char) (l : List Char) : ofChars (c :: l) = String.utf8EncodeChar c ++ ofChars l := rfl

theorem ofChars_append (l r : List Char) : ofChars (l ++ r) = ofChars l ++ ofChars r :=
  List.flatMap_append

theorem encode_eq (s : String) : encode s = ofChars s.toList := by
  have htext : String.ofList s.toList = s := String.ofList_toList
  unfold encode ofChars
  rw [String.toUTF8_eq_toByteArray, ← htext, String.toByteArray_ofList, htext]
  simp [List.utf8Encode, List.data_toByteArray]

theorem encode_ofList (l : List Char) : encode (String.ofList l) = ofChars l := by
  rw [encode_eq, String.toList_ofList]

/-- Only the bytes of a text are read as one. -/
theorem decode?_eq_some_iff {l : List UInt8} {s : String} : decode? l = some s ↔ encode s = l := by
  constructor
  · intro h
    unfold decode? ofBytes? at h
    split at h
    · rw [← Option.some.inj h]
      rfl
    · cases h
  · intro h
    rw [← h, decode?_encode]

theorem length_le_length_ofChars (l : List Char) : l.length ≤ (ofChars l).length := by
  induction l with
  | nil => exact Nat.le_refl _
  | cons c r ih =>
    have hc := c.utf8Size_pos
    rw [ofChars_cons, List.length_append, String.length_utf8EncodeChar, List.length_cons]
    omega

/-! ## Characters of ASCII -/

theorem encodeChar_of_ascii {c : Char} (h : c.toNat < 128) : String.utf8EncodeChar c = [UInt8.ofNat c.toNat] := by
  unfold String.utf8EncodeChar
  exact if_pos (Nat.le_of_lt_succ h)

theorem le_of_mem_encodeChar {c : Char} (h : 128 ≤ c.toNat) {b : UInt8} (hb : b ∈ String.utf8EncodeChar c) :
    128 ≤ b.toNat := by
  have hval : 128 ≤ c.val.toNat := h
  unfold String.utf8EncodeChar at hb
  dsimp only at hb
  rw [if_neg (by omega)] at hb
  split at hb
  · simp at hb
    rcases hb with rfl | rfl <;> simp <;> omega
  · split at hb
    · simp at hb
      rcases hb with rfl | rfl | rfl <;> simp <;> omega
    · simp at hb
      rcases hb with rfl | rfl | rfl | rfl <;> simp <;> omega

theorem ofChars_cons_ascii {c : Char} (h : c.toNat < 128) (l : List Char) :
    ofChars (c :: l) = UInt8.ofNat c.toNat :: ofChars l := by
  rw [ofChars_cons, encodeChar_of_ascii h]
  rfl

theorem ofChars_of_ascii {l : List Char} (h : ∀ c ∈ l, c.toNat < 128) :
    ofChars l = l.map fun c => UInt8.ofNat c.toNat := by
  induction l with
  | nil => rfl
  | cons c r ih =>
    rw [ofChars_cons_ascii (h c List.mem_cons_self), ih fun d hd => h d (List.mem_cons_of_mem c hd)]
    rfl

theorem length_ofChars_of_ascii {l : List Char} (h : ∀ c ∈ l, c.toNat < 128) : (ofChars l).length = l.length := by
  rw [ofChars_of_ascii h, List.length_map]

theorem ascii_of_ofChars {l : List Char} (h : ∀ b ∈ ofChars l, b.toNat < 128) : ∀ c ∈ l, c.toNat < 128 := by
  intro c hc
  refine Nat.lt_of_not_le fun hlarge => ?_
  obtain ⟨b, hb⟩ := List.exists_mem_of_ne_nil _ (String.utf8EncodeChar_ne_nil (c := c))
  have hle := le_of_mem_encodeChar hlarge hb
  have hlt := h b (List.mem_flatMap.mpr ⟨c, hc, hb⟩)
  omega

theorem toNat_ofNat_ascii {c : Char} (h : c.toNat < 128) : (UInt8.ofNat c.toNat).toNat = c.toNat := by
  rw [UInt8.toNat_ofNat']
  omega

theorem eq_of_ofNat_eq {c d : Char} (hc : c.toNat < 128) (hd : d.toNat < 128)
    (h : UInt8.ofNat c.toNat = UInt8.ofNat d.toNat) : c = d := by
  have hnum := congrArg UInt8.toNat h
  rw [toNat_ofNat_ascii hc, toNat_ofNat_ascii hd] at hnum
  exact Char.toNat_inj.mp hnum

def letters (l : List UInt8) : List Char :=
  l.map fun b => Char.ofNat b.toNat

theorem letters_append (l r : List UInt8) : letters (l ++ r) = letters l ++ letters r :=
  List.map_append

theorem letters_encode {s : String} (h : ∀ c ∈ s.toList, c.toNat < 128) : letters (encode s) = s.toList := by
  rw [encode_eq, ofChars_of_ascii h, letters, List.map_map]
  refine (List.map_congr_left fun c hc => ?_).trans (List.map_id _)
  show Char.ofNat (UInt8.ofNat c.toNat).toNat = c
  rw [toNat_ofNat_ascii (h c hc), Char.ofNat_toNat]

theorem toNat_letter {b : UInt8} (h : b.toNat < 128) : (Char.ofNat b.toNat).toNat = b.toNat := by
  have hvalid : b.toNat.isValidChar := .inl (by omega)
  rw [Char.ofNat, dif_pos hvalid]
  rfl

theorem decode?_of_ascii {l : List UInt8} (h : ∀ b ∈ l, b.toNat < 128) :
    decode? l = some (String.ofList (letters l)) := by
  have ascii : ∀ c ∈ letters l, c.toNat < 128 := by
    intro c hc
    obtain ⟨b, hb, rfl⟩ := List.mem_map.mp hc
    rw [toNat_letter (h b hb)]
    exact h b hb
  rw [decode?_eq_some_iff, encode_ofList, ofChars_of_ascii ascii, letters, List.map_map]
  refine (List.map_congr_left fun b hb => ?_).trans (List.map_id _)
  show UInt8.ofNat (Char.ofNat b.toNat).toNat = b
  rw [toNat_letter (h b hb), UInt8.ofNat_toNat]

theorem ne_of_mem_encodeChar {c d : Char} (hd : d.toNat < 128) (hne : c ≠ d) {b : UInt8}
    (hb : b ∈ String.utf8EncodeChar c) : b ≠ UInt8.ofNat d.toNat := by
  rintro rfl
  by_cases hc : c.toNat < 128
  · rw [encodeChar_of_ascii hc, List.mem_singleton] at hb
    exact hne (eq_of_ofNat_eq hc hd hb.symm)
  · have hle := le_of_mem_encodeChar (Nat.le_of_not_lt hc) hb
    rw [toNat_ofNat_ascii hd] at hle
    omega

theorem exists_of_ofChars_cons {l : List Char} {b : UInt8} {r : List UInt8} (h : ofChars l = b :: r)
    (hb : b.toNat < 128) : ∃ c l', l = c :: l' ∧ c.toNat < 128 ∧ b = UInt8.ofNat c.toNat ∧ r = ofChars l' := by
  cases l with
  | nil => cases h
  | cons c l' =>
    by_cases hc : c.toNat < 128
    · rw [ofChars_cons_ascii hc] at h
      obtain ⟨rfl, rfl⟩ := List.cons.inj h
      exact ⟨c, l', rfl, hc, rfl, rfl⟩
    · obtain ⟨a, l, ha⟩ := List.exists_cons_of_ne_nil (String.utf8EncodeChar_ne_nil (c := c))
      have hmem : b ∈ String.utf8EncodeChar c := by
        rw [ofChars_cons, ha] at h
        rw [ha, (List.cons.inj h).1]
        exact List.mem_cons_self
      have := le_of_mem_encodeChar (Nat.le_of_not_lt hc) hmem
      omega

theorem ofChars_eq_nil {l : List Char} (h : ofChars l = []) : l = [] := by
  cases l with
  | nil => rfl
  | cons c r =>
    rw [ofChars_cons] at h
    exact absurd (List.append_eq_nil_iff.mp h).1 String.utf8EncodeChar_ne_nil

end BlobDepot.Text.Utf8
