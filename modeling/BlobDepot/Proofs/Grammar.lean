import BlobDepot.Directory.Filter
import BlobDepot.Proofs.Characters
import BlobDepot.Proofs.Identifiers
import BlobDepot.Proofs.Readings
import Mathlib.Data.List.TakeWhile

/-!
# The grammar of filters

The documented grammar of filters, in which an escape has two digits and one asterisk asks for presence, and a lenient
one, in which a plus sign may stand for the first digit and asterisks may be repeated. A test of one attribute is read
if and only if the lenient grammar derives it: `readItem_ok` and `readItem_text`.
-/

namespace BlobDepot.Directory.Filter

open Text.Utf8 (ofChars)

/-! ## The grammar -/

def nameMarks : List Char :=
  ['=', '(', ')', '~', '<', '>']

def valueMarks : List Char :=
  ['(', ')', '*', '\\']

def operators : List Char :=
  ['&', '|', '!']

theorem nameMarks_ascii : ∀ c ∈ nameMarks, c.toNat < 128 := by simp [nameMarks]

theorem valueMarks_ascii : ∀ c ∈ valueMarks, c.toNat < 128 := by simp [valueMarks]

theorem operators_ascii : ∀ c ∈ operators, c.toNat < 128 := by simp [operators]

/-- The name of an attribute, with the blanks around it. Behind a parenthesis, an operator begins a list or a negation
and no name. -/
structure NameText (t : List Char) : Prop where
  unmarked : ∀ c ∈ t, c ∉ nameMarks
  named : ∃ c ∈ t, Text.isBlank c = false
  first : ∀ c ∈ t.head?, c ∉ operators

def hexValue? (c : Char) : Option Nat :=
  if c.toNat < 128 then Text.Hex.value? (UInt8.ofNat c.toNat) else none

/-- The bytes of a value: those of the characters that stand for themselves, and one for each escape. A lenient reader
takes a plus sign for the first digit of an escape. -/
inductive ValueText (lenient : Bool) : List Char → List UInt8 → Prop
  | nil : ValueText lenient [] []
  | char {c : Char} {t : List Char} {bytes : List UInt8} : c ∉ valueMarks → ValueText lenient t bytes →
    ValueText lenient (c :: t) (String.utf8EncodeChar c ++ bytes)
  | escape {x y : Char} {high low : Nat} {t : List Char} {bytes : List UInt8} : hexValue? x = some high →
    hexValue? y = some low → ValueText lenient t bytes →
      ValueText lenient ('\\' :: x :: y :: t) (UInt8.ofNat (16 * high + low) :: bytes)
  | signed {y : Char} {low : Nat} {t : List Char} {bytes : List UInt8} : lenient = true → hexValue? y = some low →
    ValueText lenient t bytes → ValueText lenient ('\\' :: '+' :: y :: t) (UInt8.ofNat low :: bytes)

/-- A test of one attribute. A lenient reader takes several asterisks for one. -/
inductive Item (lenient : Bool) : List Char → Filter → Prop
  | equal {name t : List Char} {bytes : List UInt8} {value : String} : NameText name → ValueText lenient t bytes →
    Text.Utf8.encode value = bytes →
      Item lenient (name ++ '=' :: t) (.equal (Text.trim (String.ofList name)) value)
  | present {name : List Char} {n : Nat} : NameText name → (lenient = false → n = 0) →
    Item lenient (name ++ '=' :: List.replicate (n + 1) '*') (.present (Text.trim (String.ofList name)))

inductive Derives (lenient : Bool) : List Char → Filter → Prop
  | all {parts : List (List Char × Filter)} : parts ≠ [] → (∀ p ∈ parts, Derives lenient p.1 p.2) →
    Derives lenient ('(' :: '&' :: parts.flatMap Prod.fst ++ [')']) (.all (parts.map Prod.snd))
  | any {parts : List (List Char × Filter)} : parts ≠ [] → (∀ p ∈ parts, Derives lenient p.1 p.2) →
    Derives lenient ('(' :: '|' :: parts.flatMap Prod.fst ++ [')']) (.any (parts.map Prod.snd))
  | not {t : List Char} {f : Filter} : Derives lenient t f → Derives lenient ('(' :: '!' :: t ++ [')']) (.not f)
  | item {t : List Char} {f : Filter} : Item lenient t f → Derives lenient ('(' :: t ++ [')']) f

/-! ## Single characters -/

theorem expect_cons {d : Char} (hd : d.toNat < 128) (l : List Char) (n : Nat) :
    Cursor.expect ⟨ofChars (d :: l), n⟩ (UInt8.ofNat d.toNat) = .ok ⟨ofChars l, n + 1⟩ := by
  rw [Text.Utf8.ofChars_cons_ascii hd]
  exact if_pos rfl

theorem exists_of_head? {d : Char} (hd : d.toNat < 128) {l : List Char}
    (h : (ofChars l).head? = some (UInt8.ofNat d.toNat)) : ∃ l', l = d :: l' := by
  obtain ⟨r, hr⟩ := List.head?_eq_some_iff.mp h
  obtain ⟨x, l', rfl, hx, hb, -⟩ := Text.Utf8.exists_of_ofChars_cons hr
    (Nat.lt_of_le_of_lt (Nat.le_of_eq (Text.Utf8.toNat_ofNat_ascii hd)) hd)
  exact ⟨l', by rw [Text.Utf8.eq_of_ofNat_eq hd hx hb]⟩

theorem skip_one {d : Char} (hd : d.toNat < 128) (l : List Char) (n : Nat) :
    Cursor.skip ⟨ofChars (d :: l), n⟩ 1 = ⟨ofChars l, n + 1⟩ := by
  rw [Text.Utf8.ofChars_cons_ascii hd]
  rfl

theorem expect_ok {d : Char} (hd : d.toNat < 128) {l : List Char} {n : Nat} {c : Cursor}
    (h : Cursor.expect ⟨ofChars l, n⟩ (UInt8.ofNat d.toNat) = .ok c) :
    ∃ l', l = d :: l' ∧ c = ⟨ofChars l', n + 1⟩ := by
  unfold Cursor.expect at h
  split at h
  · next hhead =>
    obtain ⟨l', rfl⟩ := exists_of_head? hd hhead
    rw [skip_one hd] at h
    exact ⟨l', rfl, (Except.ok.inj h).symm⟩
  · cases h

/-! ## Names -/

theorem readName_append {bs : List UInt8} (h : ∀ b ∈ bs, b ≠ 61 ∧ b ∉ [40, 41, 126, 60, 62]) (r : List UInt8)
    (n : Nat) : readName (bs ++ r) n = (readName r (n + bs.length)).map fun x => (bs ++ x.1, x.2) := by
  induction bs generalizing n with
  | nil =>
    show readName r n = (readName r n).map _
    cases readName r n <;> rfl
  | cons b bs ih =>
    obtain ⟨heq, hmark⟩ := h b List.mem_cons_self
    have hplace : n + (b :: bs).length = n + 1 + bs.length := by
      rw [List.length_cons]
      omega
    rw [List.cons_append, readName, if_neg heq, if_neg (by simpa using hmark),
      ih fun a ha => h a (List.mem_cons_of_mem b ha), hplace]
    cases readName r (n + 1 + bs.length) <;> rfl

theorem unmarked_bytes {name : List Char} (h : ∀ c ∈ name, c ∉ nameMarks) :
    ∀ b ∈ ofChars name, b ≠ 61 ∧ b ∉ [40, 41, 126, 60, 62] := by
  intro b hb
  obtain ⟨c, hc, hb⟩ := List.mem_flatMap.mp hb
  have hne : ∀ d ∈ nameMarks, b ≠ UInt8.ofNat d.toNat := by
    intro d hd
    refine Text.Utf8.ne_of_mem_encodeChar (nameMarks_ascii d hd) ?_ hb
    intro hcd
    exact h c hc (hcd ▸ hd)
  refine ⟨hne '=' (by decide), fun hmem => ?_⟩
  obtain ⟨d, hd, hbd⟩ : ∃ d ∈ nameMarks, UInt8.ofNat d.toNat = b := by
    have hmarks : ∀ b ∈ ([40, 41, 126, 60, 62] : List UInt8), ∃ d ∈ nameMarks, UInt8.ofNat d.toNat = b := by
      simp [nameMarks]
    exact hmarks b hmem
  exact hne d hd hbd.symm

theorem readName_text {name : List Char} (h : ∀ c ∈ name, c ∉ nameMarks) (l : List Char) (n : Nat) :
    readName (ofChars (name ++ '=' :: l)) n =
      .ok (ofChars name, ⟨ofChars ('=' :: l), n + (ofChars name).length⟩) := by
  rw [Text.Utf8.ofChars_append, readName_append (unmarked_bytes h), Text.Utf8.ofChars_cons_ascii (by decide)]
  show Except.map _ (readName (61 :: ofChars l) _) = _
  rw [readName, if_pos rfl]
  simp [Except.map]

theorem readName_ok {l : List Char} {n : Nat} {bytes : List UInt8} {c : Cursor}
    (h : readName (ofChars l) n = .ok (bytes, c)) : ∃ name r, l = name ++ r ∧ bytes = ofChars name ∧
      (∀ x ∈ name, x ∉ nameMarks) ∧ c.rest = ofChars r := by
  have hsplit := List.takeWhile_append_dropWhile (p := fun x => decide (x ∉ nameMarks)) (l := l)
  have hname : ∀ x ∈ l.takeWhile fun x => decide (x ∉ nameMarks), x ∉ nameMarks := by
    intro x hx
    have := List.mem_takeWhile_imp hx
    simpa using this
  refine ⟨_, _, hsplit.symm, ?_⟩
  rw [← hsplit, Text.Utf8.ofChars_append, readName_append (unmarked_bytes hname)] at h
  generalize l.takeWhile (fun x => decide (x ∉ nameMarks)) = name at h hname
  cases hr : l.dropWhile fun x => decide (x ∉ nameMarks) with
  | nil =>
    rw [hr] at h
    cases h
    exact ⟨List.append_nil _, hname, rfl⟩
  | cons x r =>
    rw [hr] at h
    have hx : x ∈ nameMarks := by
      have hnot := List.head?_dropWhile_not (fun x => decide (x ∉ nameMarks)) l
      rw [hr] at hnot
      simpa using hnot
    -- A marked character is the equality sign, or the reading fails.
    by_cases heq : x = '='
    · subst heq
      rw [Text.Utf8.ofChars_cons_ascii (by decide)] at h ⊢
      cases h
      exact ⟨List.append_nil _, hname, rfl⟩
    · have hfails : ∀ x ∈ nameMarks, x ≠ '=' → UInt8.ofNat x.toNat ≠ 61 ∧
          [40, 41, 126, 60, 62].contains (UInt8.ofNat x.toNat) = true := by simp [nameMarks]
      obtain ⟨hne, hmark⟩ := hfails x hx heq
      rw [Text.Utf8.ofChars_cons_ascii (nameMarks_ascii x hx), readName, if_neg hne, if_pos hmark] at h
      cases h

/-! ## Values -/

theorem hexValue?_lt {c : Char} {n : Nat} (h : hexValue? c = some n) : c.toNat < 128 := by
  unfold hexValue? at h
  split at h
  · assumption
  · cases h

theorem value?_of_hexValue? {c : Char} {n : Nat} (h : hexValue? c = some n) :
    Text.Hex.value? (UInt8.ofNat c.toNat) = some n := by
  unfold hexValue? at h
  rwa [if_pos (hexValue?_lt h)] at h

theorem escapedByte?_eq_some {a b x : UInt8} (h : escapedByte? a b = some x) :
    ∃ low, Text.Hex.value? b = some low ∧ (a = 43 ∧ x = UInt8.ofNat low ∨
      ∃ high, Text.Hex.value? a = some high ∧ x = UInt8.ofNat (16 * high + low)) := by
  unfold escapedByte? at h
  obtain ⟨low, hlow, h⟩ := Option.bind_eq_some_iff.mp h
  refine ⟨low, hlow, ?_⟩
  by_cases ha : a = 43
  · rw [if_pos ha] at h
    exact .inl ⟨ha, (Option.some.inj h).symm⟩
  · rw [if_neg ha] at h
    obtain ⟨high, hhigh, h⟩ := Option.bind_eq_some_iff.mp h
    exact .inr ⟨high, hhigh, (Option.some.inj h).symm⟩

theorem escapedByte?_digits {a b : UInt8} {high low : Nat} (ha : Text.Hex.value? a = some high)
    (hb : Text.Hex.value? b = some low) : escapedByte? a b = some (UInt8.ofNat (16 * high + low)) := by
  have hne : a ≠ 43 := by
    intro h
    subst h
    cases ha
  simp [escapedByte?, ha, hb, hne]

theorem escapedByte?_signed {b : UInt8} {low : Nat} (hb : Text.Hex.value? b = some low) :
    escapedByte? 43 b = some (UInt8.ofNat low) := by
  simp [escapedByte?, hb]

theorem readValue_append {bs : List UInt8} (h : ∀ b ∈ bs, b ∉ [40, 41, 42, 92]) (r : List UInt8) (n : Nat) :
    readValue (bs ++ r) n = (readValue r (n + bs.length)).map fun x => (bs ++ x.1, x.2) := by
  induction bs generalizing n with
  | nil =>
    show readValue r n = (readValue r n).map _
    cases readValue r n <;> rfl
  | cons b bs ih =>
    have hb := h b List.mem_cons_self
    simp only [List.mem_cons, List.not_mem_nil, or_false, not_or] at hb
    obtain ⟨hopen, hclose, hstar, hslash⟩ := hb
    have hplace : n + (b :: bs).length = n + 1 + bs.length := by
      rw [List.length_cons]
      omega
    rw [List.cons_append, readValue.eq_3 _ _ _ fun _ _ _ hb => absurd hb hslash, if_neg hclose, if_neg hopen,
      if_neg hslash, ih fun a ha => h a (List.mem_cons_of_mem b ha), hplace]
    cases readValue r (n + 1 + bs.length) with
    | error e => rfl
    | ok x =>
      show (if b = 42 then _ else _) = _
      rw [if_neg hstar]
      rfl

theorem readValue_star (r : List UInt8) (n : Nat) :
    readValue (42 :: r) n = (readValue r (n + 1)).map fun x => (x.1, true, x.2.2) := by
  rw [readValue.eq_3 _ _ _ fun _ _ _ hb => absurd hb (by decide), if_neg (by decide), if_neg (by decide),
    if_neg (by decide)]
  cases readValue r (n + 1) <;> rfl

theorem readValue_escape {a b x : UInt8} (h : escapedByte? a b = some x) (r : List UInt8) (n : Nat) :
    readValue (92 :: a :: b :: r) n = (readValue r (n + 3)).map fun y => (x :: y.1, y.2) := by
  rw [readValue, h]
  cases readValue r (n + 3) <;> rfl

theorem readValue_close (r : List UInt8) (n : Nat) : readValue (41 :: r) n = .ok ([], false, ⟨41 :: r, n⟩) := by
  rw [readValue.eq_3 _ _ _ fun _ _ _ hb => absurd hb (by decide), if_pos rfl]

theorem plain_bytes {c : Char} (h : c ∉ valueMarks) : ∀ b ∈ String.utf8EncodeChar c, b ∉ [40, 41, 42, 92] := by
  intro b hb hmem
  obtain ⟨d, hd, hbd⟩ : ∃ d ∈ valueMarks, UInt8.ofNat d.toNat = b := by
    have hmarks : ∀ b ∈ ([40, 41, 42, 92] : List UInt8), ∃ d ∈ valueMarks, UInt8.ofNat d.toNat = b := by
      simp [valueMarks]
    exact hmarks b hmem
  refine Text.Utf8.ne_of_mem_encodeChar (valueMarks_ascii d hd) ?_ hb hbd.symm
  intro hcd
  exact h (hcd ▸ hd)

theorem readValue_text {lenient : Bool} {t : List Char} {bytes : List UInt8} (h : ValueText lenient t bytes)
    (l : List Char) (n : Nat) : ∃ k, readValue (ofChars (t ++ l)) n =
      (readValue (ofChars l) k).map fun x => (bytes ++ x.1, x.2) := by
  induction h generalizing n with
  | nil =>
    refine ⟨n, ?_⟩
    show readValue (ofChars l) n = _
    cases readValue (ofChars l) n <;> rfl
  | char hc _ ih =>
    obtain ⟨k, hk⟩ := ih (n + _)
    refine ⟨k, ?_⟩
    rw [List.cons_append, Text.Utf8.ofChars_cons, readValue_append (plain_bytes hc), hk]
    cases readValue (ofChars l) k <;> simp [Except.map]
  | escape hx hy _ ih =>
    obtain ⟨k, hk⟩ := ih (n + 3)
    refine ⟨k, ?_⟩
    rw [List.cons_append, List.cons_append, List.cons_append, Text.Utf8.ofChars_cons_ascii (by decide),
      Text.Utf8.ofChars_cons_ascii (hexValue?_lt hx), Text.Utf8.ofChars_cons_ascii (hexValue?_lt hy)]
    show readValue (92 :: _) n = _
    rw [readValue_escape (escapedByte?_digits (value?_of_hexValue? hx) (value?_of_hexValue? hy)), hk]
    cases readValue (ofChars l) k <;> rfl
  | signed _ hy _ ih =>
    obtain ⟨k, hk⟩ := ih (n + 3)
    refine ⟨k, ?_⟩
    rw [List.cons_append, List.cons_append, List.cons_append, Text.Utf8.ofChars_cons_ascii (by decide),
      Text.Utf8.ofChars_cons_ascii (by decide), Text.Utf8.ofChars_cons_ascii (hexValue?_lt hy)]
    show readValue (92 :: 43 :: _) n = _
    rw [readValue_escape (escapedByte?_signed (value?_of_hexValue? hy)), hk]
    cases readValue (ofChars l) k <;> rfl

theorem readValue_stars (k : Nat) (l : List Char) (n : Nat) :
    ∃ p, readValue (ofChars (List.replicate (k + 1) '*' ++ ')' :: l)) n =
      .ok ([], true, ⟨ofChars (')' :: l), p⟩) := by
  induction k generalizing n with
  | zero =>
    refine ⟨n + 1, ?_⟩
    show readValue (ofChars ('*' :: ')' :: l)) n = _
    rw [Text.Utf8.ofChars_cons_ascii (by decide), Text.Utf8.ofChars_cons_ascii (by decide)]
    show readValue (42 :: 41 :: ofChars l) n = _
    rw [readValue_star, readValue_close]
    rfl
  | succ k ih =>
    obtain ⟨p, hp⟩ := ih (n + 1)
    refine ⟨p, ?_⟩
    rw [List.replicate_succ, List.cons_append, Text.Utf8.ofChars_cons_ascii (by decide)]
    show readValue (42 :: _) n = _
    rw [readValue_star, hp]
    rfl

theorem ValueText.eq_nil {lenient : Bool} {t : List Char} (h : ValueText lenient t []) : t = [] := by
  generalize hbytes : ([] : List UInt8) = bytes at h
  cases h with
  | nil => rfl
  | char _ _ => exact absurd (List.append_eq_nil_iff.mp hbytes.symm).1 String.utf8EncodeChar_ne_nil
  | escape _ _ _ => cases hbytes
  | signed _ _ _ => cases hbytes

/-- What the characters of a value are read as. With an asterisk among them, nothing is known of the bytes but that
there are some, unless all characters are asterisks. -/
structure ReadAs (t : List Char) (bytes : List UInt8) (wild : Bool) : Prop where
  plain : wild = false → ValueText true t bytes
  stars : wild = true → bytes = [] → ∃ k, t = List.replicate (k + 1) '*'

theorem ReadAs.nil : ReadAs [] [] false :=
  ⟨fun _ => .nil, fun h => nomatch h⟩

theorem ReadAs.star {t : List Char} {bytes : List UInt8} {wild : Bool} (h : ReadAs t bytes wild) :
    ReadAs ('*' :: t) bytes true := by
  refine ⟨fun hwild => (nomatch hwild), fun _ hbytes => ?_⟩
  cases wild with
  | false =>
    have hnil : t = [] := ValueText.eq_nil (hbytes ▸ h.plain rfl)
    exact ⟨0, by rw [hnil]; rfl⟩
  | true =>
    obtain ⟨k, rfl⟩ := h.stars rfl hbytes
    exact ⟨k + 1, rfl⟩

theorem ReadAs.char {c : Char} {t : List Char} {bytes : List UInt8} {wild : Bool} (hc : c ∉ valueMarks)
    (h : ReadAs t bytes wild) : ReadAs (c :: t) (String.utf8EncodeChar c ++ bytes) wild :=
  ⟨fun hwild => .char hc (h.plain hwild),
    fun _ hbytes => absurd (List.append_eq_nil_iff.mp hbytes).1 String.utf8EncodeChar_ne_nil⟩

theorem hexValue?_of_value? {c : Char} (hc : c.toNat < 128) {n : Nat}
    (h : Text.Hex.value? (UInt8.ofNat c.toNat) = some n) : hexValue? c = some n := by
  unfold hexValue?
  rwa [if_pos hc]

theorem escapedByte?_chars {a b x : UInt8} (h : escapedByte? a b = some x) {l : List Char} {s : List UInt8}
    (hl : ofChars l = a :: b :: s) : ∃ u v r, l = u :: v :: r ∧ s = ofChars r ∧
      ∀ {t : List Char} {bytes : List UInt8} {wild : Bool}, ReadAs t bytes wild →
        ReadAs ('\\' :: u :: v :: t) (x :: bytes) wild := by
  obtain ⟨low, hlow, hx⟩ := escapedByte?_eq_some h
  have ha : a.toNat < 128 := by
    rcases hx with ⟨rfl, -⟩ | ⟨high, hhigh, -⟩
    · decide
    · exact Text.Hex.value?_lt hhigh
  obtain ⟨u, l', rfl, hu, rfl, hl'⟩ := Text.Utf8.exists_of_ofChars_cons hl ha
  obtain ⟨v, r, rfl, hv, rfl, rfl⟩ := Text.Utf8.exists_of_ofChars_cons hl'.symm (Text.Hex.value?_lt hlow)
  refine ⟨u, v, r, rfl, rfl, fun {t} {bytes} {wild} ht => ⟨fun hwild => ?_, fun _ hbytes => nomatch hbytes⟩⟩
  have hlow' := hexValue?_of_value? hv hlow
  rcases hx with ⟨hplus, rfl⟩ | ⟨high, hhigh, rfl⟩
  · obtain rfl : u = '+' := Text.Utf8.eq_of_ofNat_eq hu (by decide) hplus
    exact .signed rfl hlow' (ht.plain hwild)
  · exact .escape (hexValue?_of_value? hu hhigh) hlow' (ht.plain hwild)

theorem readValue_backslash_ok {r : List UInt8} {n : Nat} {y : List UInt8 × Bool × Cursor}
    (h : readValue (92 :: r) n = .ok y) : ∃ a b s x z, r = a :: b :: s ∧ escapedByte? a b = some x ∧
      readValue s (n + 3) = .ok z ∧ y = (x :: z.1, z.2) := by
  match r with
  | [] => cases h
  | [_] => cases h
  | a :: b :: s =>
    cases hx : escapedByte? a b with
    | none =>
      rw [readValue, hx] at h
      cases h
    | some x =>
      rw [readValue_escape hx] at h
      obtain ⟨z, hz, rfl⟩ := map_eq_ok.mp h
      exact ⟨a, b, s, x, z, rfl, hx, hz, rfl⟩

theorem readValue_ok (l : List Char) {n : Nat} {bytes : List UInt8} {wild : Bool} {c : Cursor}
    (h : readValue (ofChars l) n = .ok (bytes, wild, c)) :
    ∃ t r, l = t ++ r ∧ c.rest = ofChars r ∧ ReadAs t bytes wild := by
  -- The recursion is the reader's own: over one character, or over the three of an escape.
  match l with
  | [] =>
    cases h
    exact ⟨[], [], rfl, rfl, .nil⟩
  | x :: l =>
    by_cases hx : x ∈ valueMarks
    · rw [Text.Utf8.ofChars_cons_ascii (valueMarks_ascii x hx)] at h
      simp only [valueMarks, List.mem_cons, List.not_mem_nil, or_false] at hx
      rcases hx with rfl | rfl | rfl | rfl
      · cases h
      · replace h : readValue (41 :: ofChars l) n = _ := h
        rw [readValue_close] at h
        cases h
        exact ⟨[], ')' :: l, rfl, by rw [Text.Utf8.ofChars_cons_ascii (by decide)]; rfl, .nil⟩
      · replace h : readValue (42 :: ofChars l) n = _ := h
        rw [readValue_star] at h
        obtain ⟨y, hy, hout⟩ := map_eq_ok.mp h
        cases hout
        obtain ⟨t, r, rfl, hr, ht⟩ := readValue_ok l hy
        exact ⟨'*' :: t, r, rfl, hr, ht.star⟩
      · obtain ⟨a, b, s, x, ⟨_, _, _⟩, hbytes, hx, hz, hout⟩ := readValue_backslash_ok h
        cases hout
        obtain ⟨u, v, l', rfl, rfl, hread⟩ := escapedByte?_chars hx hbytes
        obtain ⟨t, r, rfl, hr, ht⟩ := readValue_ok l' hz
        exact ⟨'\\' :: u :: v :: t, r, rfl, hr, hread ht⟩
    · rw [Text.Utf8.ofChars_cons, readValue_append (plain_bytes hx)] at h
      obtain ⟨⟨_, _, _⟩, hy, hout⟩ := map_eq_ok.mp h
      cases hout
      obtain ⟨t, r, rfl, hr, ht⟩ := readValue_ok l hy
      exact ⟨x :: t, r, rfl, hr, ht.char hx⟩
termination_by l.length

/-! ## Tests of one attribute -/

theorem trimChars_eq_nil_iff {l : List Char} : Text.trimChars l = [] ↔ ∀ c ∈ l, Text.isBlank c = true := by
  unfold Text.trimChars
  rw [List.reverse_eq_nil_iff, List.dropWhile_eq_nil_iff]
  constructor
  · intro h
    have hfirst := List.head?_dropWhile_not Text.isBlank l
    cases hrest : l.dropWhile Text.isBlank with
    | nil => exact List.dropWhile_eq_nil_iff.mp hrest
    | cons x r =>
      rw [hrest] at h hfirst
      have hblank := h x (List.mem_reverse.mpr List.mem_cons_self)
      simp [hblank] at hfirst
  · intro h c hc
    exact h c ((List.dropWhile_sublist _).subset (List.mem_reverse.mp hc))

theorem decode?_ofChars (l : List Char) : Text.Utf8.decode? (ofChars l) = some (String.ofList l) :=
  Text.Utf8.decode?_eq_some_iff.mpr (Text.Utf8.encode_ofList l)

theorem trim_eq_empty_iff {name : List Char} :
    Text.trim (String.ofList name) = "" ↔ ¬∃ c ∈ name, Text.isBlank c = false := by
  rw [show ("" : String) = String.ofList [] from rfl, Text.trim, String.toList_ofList, String.ofList_inj,
    trimChars_eq_nil_iff]
  simp

theorem head?_append_of_mem {name r : List Char} {x : Char} (h : x ∈ name.head?) : x ∈ (name ++ r).head? := by
  cases name with
  | nil => cases h
  | cons _ _ => exact h

theorem NameText.exists_cons {name : List Char} (h : NameText name) : ∃ x r, name = x :: r ∧ x ∉ operators := by
  obtain ⟨c, hc, -⟩ := h.named
  cases name with
  | nil => cases hc
  | cons x r => exact ⟨x, r, rfl, h.first x rfl⟩

theorem Item.exists_cons {lenient : Bool} {t : List Char} {f : Filter} (h : Item lenient t f) :
    ∃ x r, t = x :: r ∧ x ∉ operators := by
  have hname : ∃ name s, t = name ++ s ∧ NameText name := by
    cases h with
    | equal hn _ _ => exact ⟨_, _, rfl, hn⟩
    | present hn _ => exact ⟨_, _, rfl, hn⟩
  obtain ⟨name, s, rfl, hn⟩ := hname
  obtain ⟨x, r, rfl, hx⟩ := hn.exists_cons
  exact ⟨x, r ++ s, rfl, hx⟩

theorem readItem_ok {l : List Char} {n : Nat} {f : Filter} {c : Cursor}
    (hfirst : ∀ x ∈ l.head?, x ∉ operators) (h : readItem ⟨ofChars l, n⟩ = .ok (f, c)) :
    ∃ t r, l = t ++ r ∧ c.rest = ofChars r ∧ Item true t f := by
  unfold readItem at h
  obtain ⟨⟨bytes, ⟨_, p⟩⟩, hname, h⟩ := bind_eq_ok.mp h
  obtain ⟨name, r₁, rfl, rfl, hunmarked, rfl⟩ := readName_ok hname
  dsimp only at h
  rw [decode?_ofChars] at h
  dsimp only at h
  split at h
  · cases h
  next hnamed =>
  have hn : NameText name :=
    ⟨hunmarked, not_not.mp (mt trim_eq_empty_iff.mpr hnamed), fun x hx => hfirst x (head?_append_of_mem hx)⟩
  obtain ⟨c₂, hsign, h⟩ := bind_eq_ok.mp h
  obtain ⟨r₂, rfl, rfl⟩ := expect_ok (d := '=') (by decide) hsign
  obtain ⟨⟨bytes, wild, c₃⟩, hvalue, h⟩ := bind_eq_ok.mp h
  obtain ⟨t, r, rfl, hr, ht⟩ := readValue_ok r₂ hvalue
  refine ⟨name ++ '=' :: t, r, by simp, ?_⟩
  dsimp only at h
  cases wild with
  | true =>
    rw [if_pos rfl] at h
    split at h
    · next hempty =>
      cases h
      obtain ⟨k, rfl⟩ := ht.stars rfl (List.isEmpty_iff.mp hempty)
      exact ⟨hr, .present hn nofun⟩
    · cases h
  | false =>
    rw [if_neg Bool.false_ne_true] at h
    split at h
    · next value hdecode =>
      cases h
      exact ⟨hr, .equal hn (ht.plain rfl) (Text.Utf8.decode?_eq_some_iff.mp hdecode)⟩
    · cases h

theorem readItem_append {name l : List Char} (hn : NameText name) {n : Nat} {bytes : List UInt8} {wild : Bool}
    {c : Cursor} (h : readValue (ofChars l) (n + (ofChars name).length + 1) = .ok (bytes, wild, c)) :
    readItem ⟨ofChars (name ++ '=' :: l), n⟩ =
      if wild then
        if bytes.isEmpty then .ok (present (Text.trim (String.ofList name)), c) else c.fail .substring
      else
        match Text.Utf8.decode? bytes with
        | some value => .ok (equal (Text.trim (String.ofList name)) value, c)
        | none => c.fail .valueNotText := by
  have hnamed : Text.trim (String.ofList name) ≠ "" := mt trim_eq_empty_iff.mp (not_not.mpr hn.named)
  have hsign : Cursor.expect ⟨ofChars ('=' :: l), n + (ofChars name).length⟩ 61 =
      .ok ⟨ofChars l, n + (ofChars name).length + 1⟩ := expect_cons (d := '=') (by decide) l _
  unfold readItem
  dsimp only
  rw [readName_text hn.unmarked, bind_ok]
  dsimp only
  rw [decode?_ofChars]
  dsimp only
  rw [if_neg hnamed, hsign, bind_ok, h, bind_ok]
  rfl

/-- A test is read up to the parenthesis that closes it. -/
theorem readItem_text {lenient : Bool} {t : List Char} {f : Filter} (h : Item lenient t f) (l : List Char) (n : Nat) :
    ∃ p, readItem ⟨ofChars (t ++ ')' :: l), n⟩ = .ok (f, ⟨ofChars (')' :: l), p⟩) := by
  cases h with
  | @equal name t bytes value hn ht hvalue =>
    obtain ⟨p, hp⟩ := readValue_text ht (')' :: l) (n + (ofChars name).length + 1)
    have hclose : readValue (ofChars (')' :: l)) p = .ok ([], false, ⟨ofChars (')' :: l), p⟩) := by
      rw [Text.Utf8.ofChars_cons_ascii (by decide)]
      exact readValue_close _ _
    have hread := hp.trans (congrArg _ hclose)
    refine ⟨p, ?_⟩
    rw [List.append_assoc, List.cons_append, readItem_append hn hread, if_neg Bool.false_ne_true, List.append_nil,
      Text.Utf8.decode?_eq_some_iff.mpr hvalue]
  | @present name k hn _ =>
    obtain ⟨p, hp⟩ := readValue_stars k l (n + (ofChars name).length + 1)
    refine ⟨p, ?_⟩
    rw [List.append_assoc, List.cons_append, readItem_append hn hp]
    rfl

end BlobDepot.Directory.Filter
