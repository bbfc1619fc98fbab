import BlobDepot.Text.Basic

/-!
# Base64

What is read from the digits of some bytes are those bytes, and nothing is read but the digits of bytes:
`decodePadded?_eq_some_iff`. Digits of one alphabet that are digits of the other stand for the same bytes in both.
-/

namespace BlobDepot.Text.Base64

theorem digitsOf_lt (l : List UInt8) : ∀ n ∈ digitsOf l, n < 64 := by
  induction l using digitsOf.induct with
  | case1 => simp [digitsOf]
  | case2 a =>
    have := a.toNat_lt
    simp [digitsOf]
    omega
  | case3 a b =>
    have := a.toNat_lt
    have := b.toNat_lt
    simp [digitsOf]
    omega
  | case4 a b c r ih =>
    have := a.toNat_lt
    have := b.toNat_lt
    have := c.toNat_lt
    intro n hn
    simp only [digitsOf, List.mem_cons] at hn
    rcases hn with rfl | rfl | rfl | rfl | hn
    · omega
    · omega
    · omega
    · omega
    · exact ih n hn

theorem digitsOf_ne_nil {l : List UInt8} (h : l ≠ []) : digitsOf l ≠ [] := by
  unfold digitsOf
  split
  · exact absurd rfl h
  · simp
  · simp
  · simp

theorem bytesOf?_digitsOf (l : List UInt8) : bytesOf? (digitsOf l) = some l := by
  have byte : ∀ {n : Nat} {a : UInt8}, n = a.toNat → UInt8.ofNat n = a := by
    intro n a hn
    rw [hn, UInt8.ofNat_toNat]
  induction l using digitsOf.induct with
  | case1 => rfl
  | case2 a =>
    have := a.toNat_lt
    simp only [digitsOf, bytesOf?]
    rw [if_pos (by omega), byte (a := a) (by omega)]
  | case3 a b =>
    have := a.toNat_lt
    have := b.toNat_lt
    simp only [digitsOf, bytesOf?]
    rw [if_pos (by omega), byte (a := a) (by omega), byte (a := b) (by omega)]
  | case4 a b c r ih =>
    have := a.toNat_lt
    have := b.toNat_lt
    have := c.toNat_lt
    simp only [digitsOf, bytesOf?, ih]
    rw [byte (a := a) (by omega), byte (a := b) (by omega), byte (a := c) (by omega)]
    rfl

theorem value?_digit (a : Alphabet) {n : Nat} (h : n < 64) : a.value? (a.digit n) = some n := by
  have key : ∀ n : Fin 64, a.value? (a.digit n) = some n.val := by
    cases a <;> decide
  exact key ⟨n, h⟩

theorem mapM_value?_map_digit (a : Alphabet) : ∀ {l : List Nat}, (∀ n ∈ l, n < 64) →
    (l.map a.digit).mapM a.value? = some l
  | [], _ => rfl
  | n :: l, h => by
    rw [List.map_cons, List.mapM_cons, value?_digit a (h n List.mem_cons_self),
      mapM_value?_map_digit a fun k hk => h k (List.mem_cons_of_mem n hk)]
    rfl

theorem decode?_encode (a : Alphabet) (l : List UInt8) : decode? a (encode a l) = some l := by
  unfold decode? encode
  rw [mapM_value?_map_digit a (digitsOf_lt l)]
  exact bytesOf?_digitsOf l

/-- A digit is neither the sign of padding nor blank. -/
theorem digit_plain (a : Alphabet) {n : Nat} (h : n < 64) : a.digit n ≠ '=' ∧ isBlank (a.digit n) = false := by
  have key : ∀ n : Fin 64, a.digit n ≠ '=' ∧ isBlank (a.digit n) = false := by
    cases a <;> decide
  exact key ⟨n, h⟩

theorem encode_plain {a : Alphabet} {l : List UInt8} {c : Char} (h : c ∈ encode a l) : c ≠ '=' ∧ isBlank c = false := by
  obtain ⟨n, hn, rfl⟩ := List.mem_map.mp h
  exact digit_plain a (digitsOf_lt l n hn)

theorem takeWhile_encodePadded (a : Alphabet) (l : List UInt8) :
    (encodePadded a l).takeWhile (· != '=') = encode a l := by
  have hbody : ∀ c ∈ encode a l, (c != '=') = true := fun c hc => bne_iff_ne.mpr (encode_plain hc).1
  have hpadding : (List.replicate (padding (encode a l).length) '=').takeWhile (· != '=') = [] := by
    cases padding (encode a l).length <;> rfl
  unfold encodePadded
  dsimp only
  rw [List.takeWhile_append_of_pos hbody, hpadding, List.append_nil]

theorem dropWhile_encodePadded (a : Alphabet) (l : List UInt8) :
    (encodePadded a l).dropWhile (· != '=') = List.replicate (padding (encode a l).length) '=' := by
  have hwhole := List.takeWhile_append_dropWhile (p := (· != '=')) (l := encodePadded a l)
  rw [takeWhile_encodePadded] at hwhole
  exact List.append_cancel_left hwhole

theorem decodePadded?_encodePadded (a : Alphabet) (l : List UInt8) :
    decodePadded? a (encodePadded a l) = some l := by
  unfold decodePadded?
  dsimp only
  rw [takeWhile_encodePadded, dropWhile_encodePadded, if_pos rfl]
  exact decode?_encode a l

theorem encodePadded_ne_nil (a : Alphabet) {l : List UInt8} (h : l ≠ []) : encodePadded a l ≠ [] := by
  unfold encodePadded encode
  simp [digitsOf_ne_nil h]

theorem not_blank_of_mem_encodePadded {a : Alphabet} {l : List UInt8} {c : Char} (h : c ∈ encodePadded a l) :
    isBlank c = false := by
  rcases List.mem_append.mp h with h | h
  · exact (encode_plain h).2
  · rw [List.eq_of_mem_replicate h]
    decide

/-! ## Texts that are read -/

theorem digit_of_value? {a : Alphabet} {c : Char} {n : Nat} (h : a.value? c = some n) : n < 64 ∧ a.digit n = c := by
  unfold Alphabet.value? at h
  dsimp only at h
  split at h
  · obtain rfl := Option.some.inj h
    refine ⟨by omega, ?_⟩
    rw [Alphabet.digit.eq_def, if_pos (by omega), Nat.add_sub_cancel' (by omega), Char.ofNat_toNat]
  split at h
  · obtain rfl := Option.some.inj h
    refine ⟨by omega, ?_⟩
    rw [Alphabet.digit.eq_def, if_neg (by omega), if_pos (by omega), Nat.add_sub_cancel' (by omega), Char.ofNat_toNat]
  split at h
  · obtain rfl := Option.some.inj h
    refine ⟨by omega, ?_⟩
    rw [Alphabet.digit.eq_def, if_neg (by omega), if_neg (by omega), if_pos (by omega), Nat.add_sub_cancel,
      Char.ofNat_toNat]
  split at h
  · next hc =>
    obtain rfl := Option.some.inj h
    exact ⟨by omega, hc.symm⟩
  split at h
  · next hc =>
    obtain rfl := Option.some.inj h
    exact ⟨by omega, hc.symm⟩
  · cases h

theorem map_digit_of_mapM {a : Alphabet} : ∀ {s : List Char} {l : List Nat}, s.mapM a.value? = some l →
    l.map a.digit = s ∧ ∀ n ∈ l, n < 64
  | [], l, h => by
    cases h
    simp
  | c :: s, l, h => by
    rw [List.mapM_cons] at h
    obtain ⟨n, hn, h⟩ := Option.bind_eq_some_iff.mp h
    obtain ⟨r, hr, h⟩ := Option.bind_eq_some_iff.mp h
    obtain rfl := Option.some.inj h
    obtain ⟨hlt, hc⟩ := digit_of_value? hn
    obtain ⟨hmap, hall⟩ := map_digit_of_mapM hr
    exact ⟨by rw [List.map_cons, hc, hmap], by simpa using ⟨hlt, hall⟩⟩

theorem digitsOf_of_bytesOf? {l : List Nat} (hl : ∀ n ∈ l, n < 64) {bytes : List UInt8} (h : bytesOf? l = some bytes) :
    digitsOf bytes = l := by
  have byte : ∀ {n : Nat}, n < 256 → (UInt8.ofNat n).toNat = n := by
    intro n hn
    rw [UInt8.toNat_ofNat', Nat.mod_eq_of_lt hn]
  induction l using bytesOf?.induct generalizing bytes with
  | case1 =>
    cases h
    rfl
  | case2 => cases h
  | case3 a b hb =>
    simp only [List.forall_mem_cons] at hl
    rw [bytesOf?, if_pos hb] at h
    obtain rfl := Option.some.inj h
    rw [digitsOf, byte (by omega)]
    simp only [List.cons.injEq, and_true]
    omega
  | case4 a b hb =>
    rw [bytesOf?, if_neg hb] at h
    cases h
  | case5 a b c hc =>
    simp only [List.forall_mem_cons] at hl
    rw [bytesOf?, if_pos hc] at h
    obtain rfl := Option.some.inj h
    rw [digitsOf, byte (by omega), byte (by omega)]
    simp only [List.cons.injEq, and_true]
    omega
  | case6 a b c hc =>
    rw [bytesOf?, if_neg hc] at h
    cases h
  | case7 a b c d r ih =>
    simp only [List.forall_mem_cons] at hl
    obtain ⟨ha, hb, hc, hd, hr⟩ := hl
    rw [bytesOf?] at h
    obtain ⟨rest, hrest, h⟩ := Option.bind_eq_some_iff.mp h
    obtain rfl := Option.some.inj h
    rw [digitsOf, byte (by omega), byte (by omega), byte (by omega), ih hr hrest]
    simp only [List.cons.injEq, and_true]
    omega

theorem decode?_eq_some_iff {a : Alphabet} {s : List Char} {l : List UInt8} :
    decode? a s = some l ↔ s = encode a l := by
  constructor
  · intro h
    obtain ⟨digits, hdigits, hbytes⟩ := Option.bind_eq_some_iff.mp h
    obtain ⟨hmap, hlt⟩ := map_digit_of_mapM hdigits
    rw [encode, digitsOf_of_bytesOf? hlt hbytes, hmap]
  · intro h
    rw [h, decode?_encode]

/-- Only the padded digits of some bytes are read, as those bytes. -/
theorem decodePadded?_eq_some_iff {a : Alphabet} {s : List Char} {l : List UInt8} :
    decodePadded? a s = some l ↔ s = encodePadded a l := by
  constructor
  · intro h
    unfold decodePadded? at h
    dsimp only at h
    split at h
    · next hpadding =>
      have hbody := decode?_eq_some_iff.mp h
      rw [hbody] at hpadding
      rw [encodePadded, ← hpadding, ← hbody, List.takeWhile_append_dropWhile]
    · cases h
  · intro h
    rw [h, decodePadded?_encodePadded]

/-! ## Two alphabets -/

theorem digit_inj {a b : Alphabet} {m n : Nat} (hm : m < 64) (hn : n < 64) (h : a.digit m = b.digit n) : m = n := by
  have key : ∀ (a : Alphabet) (i : Fin 64),
      (Alphabet.standard.value? (a.digit i) <|> Alphabet.urlSafe.value? (a.digit i)) = some i.val := by
    intro a
    cases a <;> decide
  have hread := key a ⟨m, hm⟩
  rw [h, key b ⟨n, hn⟩] at hread
  exact (Option.some.inj hread).symm

theorem map_digit_inj {a b : Alphabet} : ∀ {l r : List Nat}, (∀ n ∈ l, n < 64) → (∀ n ∈ r, n < 64) →
    l.map a.digit = r.map b.digit → l = r
  | [], [], _, _, _ => rfl
  | [], _ :: _, _, _, h => by cases h
  | _ :: _, [], _, _, h => by cases h
  | m :: l, n :: r, hl, hr, h => by
    rw [List.map_cons, List.map_cons] at h
    obtain ⟨hdigit, hrest⟩ := List.cons.inj h
    rw [List.forall_mem_cons] at hl hr
    rw [digit_inj hl.1 hr.1 hdigit, map_digit_inj hl.2 hr.2 hrest]

theorem encode_inj {a b : Alphabet} {l r : List UInt8} (h : encode a l = encode b r) : l = r := by
  have hdigits := map_digit_inj (digitsOf_lt l) (digitsOf_lt r) h
  have hbytes := bytesOf?_digitsOf l
  rw [hdigits, bytesOf?_digitsOf] at hbytes
  exact (Option.some.inj hbytes).symm

/-- A text that is read in both alphabets is read as the same bytes. -/
theorem encodePadded_inj {a b : Alphabet} {l r : List UInt8} (h : encodePadded a l = encodePadded b r) : l = r := by
  have hbody := congrArg (List.takeWhile (· != '=')) h
  rw [takeWhile_encodePadded, takeWhile_encodePadded] at hbody
  exact encode_inj hbody

end BlobDepot.Text.Base64
