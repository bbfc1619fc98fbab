import BlobDepot.Encoding.Json
import BlobDepot.Proofs.Characters
import BlobDepot.Proofs.Readings
import Mathlib.Data.List.Basic

/-!
# Texts of JSON

What is written of a value is read back as the tree of the value, in every layout that puts nothing but blanks between
its parts: `read_render`. A reading is described by what it makes of a text and of anything that may follow the text.
-/

namespace BlobDepot

inductive Value.Fits : Value → Prop
  | null : Fits .null
  | bool (b : Bool) : Fits (.bool b)
  | int {n : Int} (hlow : Word.minInt64 ≤ n) (hhigh : n ≤ Word.maxNat64) : Fits (.int n)
  | text (s : String) : Fits (.text s)
  | list {items : List Value} (h : ∀ v ∈ items, Fits v) : Fits (.list items)
  | record {fields : List (String × Value)} (h : ∀ f ∈ fields, Fits f.2) : Fits (.record fields)

namespace Json

open Text.Utf8 (ofChars ofChars_append ofChars_cons ofChars_cons_ascii)

/-! ## Blanks -/

theorem skipBlanks_append {blanks : Bytes} (h : ∀ b ∈ blanks, isBlank b = true) (s : Bytes) :
    skipBlanks (blanks ++ s) = skipBlanks s :=
  List.dropWhile_append_of_pos h

theorem skipBlanks_cons {b : UInt8} (h : isBlank b = false) (s : Bytes) : skipBlanks (b :: s) = b :: s :=
  List.dropWhile_cons_of_neg (by simp [h])

/-- A layout puts nothing but blanks between the parts of a text, and one colon behind each name. -/
structure Layout.Blank (f : Layout) : Prop where
  before : ∀ depth, ∀ b ∈ ofChars (f.before depth), isBlank b = true
  colon : ∃ gap, ofChars f.colon = 58 :: gap ∧ ∀ b ∈ gap, isBlank b = true
  last : ∀ depth, ∀ b ∈ ofChars (f.last depth), isBlank b = true

theorem Layout.blank_oneLine : oneLine.Blank where
  before _ := List.forall_mem_nil _
  colon := ⟨[], by decide, List.forall_mem_nil _⟩
  last _ := List.forall_mem_nil _

theorem Layout.blank_newLine (depth : Nat) : ∀ b ∈ ofChars (newLine depth), isBlank b = true := by
  have hascii : ∀ c ∈ newLine depth, c = '\n' ∨ c = ' ' := by
    intro c hc
    exact (List.mem_cons.mp hc).imp_right List.eq_of_mem_replicate
  intro b hb
  rw [Text.Utf8.ofChars_of_ascii fun c hc => by rcases hascii c hc with rfl | rfl <;> decide] at hb
  obtain ⟨c, hc, rfl⟩ := List.mem_map.mp hb
  rcases hascii c hc with rfl | rfl <;> decide

theorem Layout.blank_indented : indented.Blank where
  before depth := blank_newLine (depth + 1)
  colon := ⟨[32], by decide, List.forall_mem_singleton.mpr (by decide)⟩
  last := blank_newLine

/-! ## Texts in quotation marks -/

theorem scanText_mark (s : Scan) (rest : Bytes) :
    scanText s (34 :: rest) = .ok (s.bytes.reverse, s.settle.fault, rest) := by
  rw [scanText.eq_def]
  rfl

theorem scanText_push {b : UInt8} (hmark : b ≠ 34) (hslash : b ≠ 92) (hcontrol : ¬ b < 32) (s : Scan) (rest : Bytes) :
    scanText s (b :: rest) = scanText (s.push b) rest := by
  rw [scanText.eq_def]
  dsimp only
  rw [if_neg hmark, if_neg hslash, if_neg hcontrol]

theorem scanText_escaped {e b : UInt8} (hunit : e ≠ 117) (he : escaped? e = some b) (s : Scan) (rest : Bytes) :
    scanText s (92 :: e :: rest) = scanText (s.push b) rest := by
  rw [scanText.eq_def]
  dsimp only
  rw [if_neg (by decide), if_pos rfl, if_neg hunit, he]

theorem scanText_unit {a b c d : UInt8} {n : Nat} (h : codeUnit? a b c d = some n) (s : Scan) (rest : Bytes) :
    scanText s (92 :: 117 :: a :: b :: c :: d :: rest) = scanText (s.pushUnit n) rest := by
  rw [scanText.eq_def]
  dsimp only
  rw [if_neg (by decide), if_pos rfl, if_pos rfl, h]

/-- Bytes that are neither marks nor control characters are read as they are. -/
theorem scanText_plain {l : Bytes} (h : ∀ b ∈ l, b ≠ 34 ∧ b ≠ 92 ∧ ¬ b < 32) (acc rest : Bytes) :
    scanText ⟨acc, none, none⟩ (l ++ rest) = scanText ⟨l.reverse ++ acc, none, none⟩ rest := by
  induction l generalizing acc with
  | nil => rfl
  | cons b r ih =>
    obtain ⟨⟨hmark, hslash, hcontrol⟩, hr⟩ := List.forall_mem_cons.mp h
    rw [List.cons_append, scanText_push hmark hslash hcontrol]
    simpa [Scan.push, Scan.settle] using ih hr (b :: acc)

theorem plain_of_char {c : Char} (hmark : c ≠ '"') (hslash : c ≠ '\\') (hcontrol : ¬ c.toNat < 32) :
    ∀ b ∈ String.utf8EncodeChar c, b ≠ 34 ∧ b ≠ 92 ∧ ¬ b < 32 := by
  intro b hb
  refine ⟨Text.Utf8.ne_of_mem_encodeChar (d := '"') (by decide) hmark hb,
    Text.Utf8.ne_of_mem_encodeChar (d := '\\') (by decide) hslash hb, fun hlt => ?_⟩
  have hlt : b.toNat < 32 := UInt8.lt_iff_toNat_lt.mp hlt
  by_cases hc : c.toNat < 128
  · rw [Text.Utf8.encodeChar_of_ascii hc, List.mem_singleton] at hb
    rw [hb, Text.Utf8.toNat_ofNat_ascii hc] at hlt
    exact hcontrol hlt
  · have := Text.Utf8.le_of_mem_encodeChar (Nat.le_of_not_lt hc) hb
    omega

theorem codeUnit?_ofNat : ∀ n < 32, ∃ a b c d, ofChars (Text.Hex.ofNat 4 n) = [a, b, c, d] ∧
    codeUnit? a b c d = some n := by
  let byte (n : Nat) : UInt8 := UInt8.ofNat (Text.Hex.digit n).toNat
  have key : ∀ n < 32, ofChars (Text.Hex.ofNat 4 n) = [byte 0, byte 0, byte (n / 16), byte (n % 16)] ∧
      codeUnit? (byte 0) (byte 0) (byte (n / 16)) (byte (n % 16)) = some n := by decide +kernel
  exact fun n hn => ⟨_, _, _, _, key n hn⟩

theorem pushChar_toNat (acc : Bytes) (c : Char) : pushChar acc c.toNat = (String.utf8EncodeChar c).reverse ++ acc := by
  rw [pushChar, Char.ofNat_toNat, Text.Utf8.encode_ofList, ofChars_cons, Text.Utf8.ofChars_nil, List.append_nil]

/-- A character that is escaped by its number is read as itself. -/
theorem scanText_control {c : Char} (hc : c.toNat < 32) (acc rest : Bytes) :
    scanText ⟨acc, none, none⟩ (92 :: 117 :: (ofChars (Text.Hex.ofNat 4 c.toNat) ++ rest)) =
      scanText ⟨(String.utf8EncodeChar c).reverse ++ acc, none, none⟩ rest := by
  obtain ⟨x, y, z, w, hdigits, hunit⟩ := codeUnit?_ofNat c.toNat hc
  have hhigh : isHighSurrogate c.toNat = false := by
    simp [isHighSurrogate]
    omega
  have hlow : isLowSurrogate c.toNat = false := by
    simp [isLowSurrogate]
    omega
  rw [hdigits]
  simp only [List.cons_append, List.nil_append]
  rw [scanText_unit hunit]
  simp [Scan.pushUnit, hhigh, hlow, pushChar_toNat]

theorem scanText_escape (c : Char) (acc rest : Bytes) : scanText ⟨acc, none, none⟩ (ofChars (escape c) ++ rest) =
    scanText ⟨(String.utf8EncodeChar c).reverse ++ acc, none, none⟩ rest := by
  -- The letter behind the backslash stands for the character.
  have hletter {e : UInt8} {d : Char} (hd : String.utf8EncodeChar d = [UInt8.ofNat d.toNat]) (hunit : e ≠ 117)
      (he : escaped? e = some (UInt8.ofNat d.toNat)) : scanText ⟨acc, none, none⟩ (92 :: e :: rest) =
        scanText ⟨(String.utf8EncodeChar d).reverse ++ acc, none, none⟩ rest := by
    rw [scanText_escaped hunit he, hd]
    rfl
  have hnumber {n : Nat} (hn : n < 128) (h : c.toNat = n) : String.utf8EncodeChar c = [UInt8.ofNat c.toNat] :=
    Text.Utf8.encodeChar_of_ascii (h ▸ hn)
  unfold escape
  split_ifs with hmark hslash hline hreturn htab hback hform hcontrol
  · subst hmark
    exact hletter (by decide) (by decide) (by decide)
  · subst hslash
    exact hletter (by decide) (by decide) (by decide)
  · subst hline
    exact hletter (by decide) (by decide) (by decide)
  · subst hreturn
    exact hletter (by decide) (by decide) (by decide)
  · subst htab
    exact hletter (by decide) (by decide) (by decide)
  · exact hletter (hnumber (by decide) hback) (by decide) (by rw [hback]; decide)
  · exact hletter (hnumber (by decide) hform) (by decide) (by rw [hform]; decide)
  · rw [ofChars_cons_ascii (by decide), ofChars_cons_ascii (by decide)]
    exact scanText_control hcontrol acc rest
  · rw [ofChars_cons, Text.Utf8.ofChars_nil, List.append_nil]
    exact scanText_plain (plain_of_char hmark hslash hcontrol) acc rest

/-- A text is read from what is written of it between quotation marks. -/
theorem readText_quoted (s : String) (rest : Bytes) :
    readText (ofChars (s.toList.flatMap escape) ++ 34 :: rest) = (.ok s, some rest) := by
  have hscan : ∀ (l : List Char) (acc : Bytes), scanText ⟨acc, none, none⟩ (ofChars (l.flatMap escape) ++ 34 :: rest) =
      .ok (acc.reverse ++ ofChars l, none, rest) := by
    intro l
    induction l with
    | nil =>
      intro acc
      rw [List.flatMap_nil, Text.Utf8.ofChars_nil, List.nil_append, List.append_nil, scanText_mark]
      rfl
    | cons c r ih =>
      intro acc
      rw [List.flatMap_cons, ofChars_append, List.append_assoc, scanText_escape, ih]
      simp [ofChars_cons]
  rw [readText, hscan, List.reverse_nil, List.nil_append, ← Text.Utf8.encode_eq]
  dsimp only
  rw [Text.Utf8.decode?_encode]

/-! ## Whole numbers -/

def Ends (rest : Bytes) : Prop :=
  ∀ b ∈ rest.head?, isDigit b = false ∧ b ≠ 46 ∧ b ≠ 101 ∧ b ≠ 69

theorem ends_nil : Ends [] := nofun

theorem ends_of_skipBlanks {s r : Bytes} {b : UInt8} (h : skipBlanks s = b :: r) (hb : b = 44 ∨ b = 93 ∨ b = 125) :
    Ends s := by
  intro d hd
  cases s with
  | nil => cases hd
  | cons e s =>
    cases hd
    by_cases hblank : isBlank d = true
    · simp only [isBlank, Bool.or_eq_true, decide_eq_true_eq] at hblank
      rcases hblank with ((rfl | rfl) | rfl) | rfl <;> decide
    · rw [skipBlanks_cons (by simpa using hblank)] at h
      obtain ⟨rfl, -⟩ := List.cons.inj h
      rcases hb with rfl | rfl | rfl <;> decide

def digits (n : Nat) : Bytes :=
  ofChars (Nat.toDigits 10 n)

theorem digits_eq (n : Nat) : digits n = (Nat.toDigits 10 n).map fun c => UInt8.ofNat c.toNat := by
  refine Text.Utf8.ofChars_of_ascii fun c hc => ?_
  have hdigit := Char.isDigit_iff_toNat.mp (Nat.isDigit_of_mem_toDigits (by decide) (by decide) hc)
  exact Nat.lt_of_le_of_lt hdigit.2 (by decide)

theorem digits_ne_nil (n : Nat) : digits n ≠ [] :=
  fun h => Nat.toDigits_ne_nil (Text.Utf8.ofChars_eq_nil h)

theorem toNat_of_mem_toDigits {n : Nat} {c : Char} (hc : c ∈ Nat.toDigits 10 n) :
    (UInt8.ofNat c.toNat).toNat = c.toNat ∧ 48 ≤ c.toNat ∧ c.toNat ≤ 57 := by
  have hdigit := Char.isDigit_iff_toNat.mp (Nat.isDigit_of_mem_toDigits (by decide) (by decide) hc)
  exact ⟨Text.Utf8.toNat_ofNat_ascii (Nat.lt_of_le_of_lt hdigit.2 (by decide)), hdigit⟩

theorem isDigit_of_mem_digits {n : Nat} {b : UInt8} (h : b ∈ digits n) : isDigit b = true := by
  rw [digits_eq] at h
  obtain ⟨c, hc, rfl⟩ := List.mem_map.mp h
  obtain ⟨hbyte, hlow, hhigh⟩ := toNat_of_mem_toDigits hc
  simp [isDigit, UInt8.le_iff_toNat_le, hbyte, hlow, hhigh]

theorem natOf_digits (n : Nat) : natOf (digits n) = n := by
  rw [digits_eq, natOf, List.foldl_map]
  refine Eq.trans (List.foldl_ext _ _ 0 fun m c hc => ?_) (Nat.ofDigitChars_ten_toDigits (n := n))
  rw [(toNat_of_mem_toDigits hc).1]
  rfl

theorem head?_digits {n : Nat} (h : (digits n).head? = some 48) : (digits n).length = 1 := by
  rw [digits_eq] at h ⊢
  by_cases hn : n = 0
  · rw [hn]
    rfl
  · obtain ⟨c, r, hc⟩ := List.exists_cons_of_ne_nil (Nat.toDigits_ne_nil (n := n) (b := 10))
    have hmem : c ∈ Nat.toDigits 10 n := hc ▸ List.mem_cons_self
    have hhead := Text.head?_toDigits_ne hn
    rw [hc] at h hhead
    have hbyte : UInt8.ofNat c.toNat = UInt8.ofNat '0'.toNat := Option.some.inj h
    have hascii : c.toNat < 128 := Nat.lt_of_le_of_lt (toNat_of_mem_toDigits hmem).2.2 (by decide)
    exact absurd (congrArg some (Text.Utf8.eq_of_ofNat_eq hascii (by decide) hbyte)) hhead

theorem someDigits_digits (n : Nat) {rest : Bytes} (hrest : Ends rest) :
    someDigits (digits n ++ rest) = .ok (digits n, rest) := by
  have hdigits : ∀ b ∈ digits n, isDigit b = true := fun b hb => isDigit_of_mem_digits hb
  have hnone : rest.takeWhile isDigit = [] ∧ rest.dropWhile isDigit = rest := by
    cases rest with
    | nil => exact ⟨rfl, rfl⟩
    | cons b r =>
      have hb := (hrest b rfl).1
      exact ⟨List.takeWhile_cons_of_neg (by simp [hb]), List.dropWhile_cons_of_neg (by simp [hb])⟩
  have htake : (digits n ++ rest).takeWhile isDigit = digits n := by
    rw [List.takeWhile_append_of_pos hdigits, hnone.1, List.append_nil]
  have hdrop : (digits n ++ rest).dropWhile isDigit = rest := by
    rw [List.dropWhile_append_of_pos hdigits, hnone.2]
  simp [someDigits, htake, hdrop, digits_ne_nil]

/-- A number is read up to where it ends. -/
theorem readNumeral_digits (negative : Bool) (n : Nat) {rest : Bytes} (hrest : Ends rest) :
    readNumeral ((if negative then [45] else []) ++ (digits n ++ rest)) =
      .ok ⟨negative, digits n, none, none, rest⟩ := by
  have hsign : (digits n ++ rest).head? ≠ some 45 := by
    obtain ⟨b, r, hb⟩ := List.exists_cons_of_ne_nil (digits_ne_nil n)
    have hdigit : isDigit b = true := isDigit_of_mem_digits (n := n) (hb ▸ List.mem_cons_self)
    rw [hb]
    intro h
    cases h
    cases hdigit
  have hzero : ¬ ((digits n).head? = some 48 ∧ 1 < (digits n).length) := by
    rintro ⟨hhead, hlength⟩
    rw [head?_digits hhead] at hlength
    omega
  have hfraction : readFraction rest = .ok (none, rest) := by
    cases rest with
    | nil => rfl
    | cons b r =>
      unfold readFraction
      split
      · next h => exact absurd (List.cons.inj h).1 (hrest b rfl).2.1
      · rfl
  have hpower : readPower rest = .ok (none, rest) := by
    cases rest with
    | nil => rfl
    | cons b r =>
      obtain ⟨-, -, hsmall, hcapital⟩ := hrest b rfl
      simp [readPower, hsmall, hcapital]
  have hparts := someDigits_digits n hrest
  generalize digits n ++ rest = s at hsign hparts ⊢
  cases negative with
  | false => simp [readNumeral, hsign, hparts, hzero, hfraction, hpower, bind_ok]
  | true => simp [readNumeral, hparts, hzero, hfraction, hpower, bind_ok]

theorem readNumber_digits (negative : Bool) (n : Nat) {k : Int} (hk : wholeNumber negative n = some k) {rest : Bytes}
    (hrest : Ends rest) :
    readNumber ((if negative then [45] else []) ++ (digits n ++ rest)) = (.int k, some rest) := by
  rw [readNumber, readNumeral_digits negative n hrest]
  simp [Numeral.tree, natOf_digits, hk]

/-! ## Values -/

/-- A value is read back from its text, whatever the text is followed by, if there is fuel for all of it. -/
def ReadsBack (f : Layout) (v : Value) : Prop :=
  ∀ (depth fuel : Nat) (rest : Bytes), 2 * (ofChars (render f depth v)).length ≤ fuel → Ends rest →
    readValue fuel (ofChars (render f depth v) ++ rest) = (v.tree, some rest)

theorem readValue_blanks {blanks : Bytes} (h : ∀ b ∈ blanks, isBlank b = true) (fuel : Nat) (s : Bytes) :
    readValue fuel (blanks ++ s) = readValue fuel s := by
  cases fuel with
  | zero => rfl
  | succ fuel => rw [readValue, readValue, skipBlanks_append h]

theorem readItems_blanks {blanks : Bytes} (h : ∀ b ∈ blanks, isBlank b = true) (fuel : Nat) (s : Bytes) :
    readItems fuel (blanks ++ s) = readItems fuel s := by
  cases fuel with
  | zero => rfl
  | succ fuel => rw [readItems, readItems, readValue_blanks h]

theorem readFields_blanks {blanks : Bytes} (h : ∀ b ∈ blanks, isBlank b = true) (fuel : Nat) (s : Bytes) :
    readFields fuel (blanks ++ s) = readFields fuel s := by
  cases fuel with
  | zero => rfl
  | succ fuel => rw [readFields, readFields, skipBlanks_append h]

section

variable {f : Layout} {v : Value} {depth fuel : Nat} {rest tail : Bytes}

theorem readItems_item (hv : ReadsBack f v) (hfuel : 2 * (ofChars (render f (depth + 1) v)).length ≤ fuel)
    (htail : skipBlanks tail = 44 :: rest ∨ skipBlanks tail = 93 :: rest) :
    readItems (fuel + 1) (ofChars (render f (depth + 1) v) ++ tail) =
      if skipBlanks tail = 44 :: rest then (v.tree :: (readItems fuel rest).1, (readItems fuel rest).2)
      else ([v.tree], none, some rest) := by
  have hends : Ends tail := htail.elim (ends_of_skipBlanks · (by decide)) (ends_of_skipBlanks · (by decide))
  rw [readItems, hv _ _ _ hfuel hends]
  dsimp only
  rcases htail with htail | htail <;> simp [htail]

def fieldText (f : Layout) (depth : Nat) (s : String) (v : Value) : Bytes :=
  ofChars (quoted s) ++ (ofChars f.colon ++ ofChars (render f (depth + 1) v))

theorem length_render_le (f : Layout) (depth : Nat) (s : String) (v : Value) :
    (ofChars (render f (depth + 1) v)).length ≤ (fieldText f depth s v).length := by
  simp only [fieldText, List.length_append]
  omega

theorem fieldText_eq (f : Layout) (depth : Nat) (s : String) (v : Value) : fieldText f depth s v =
    34 :: (ofChars (s.toList.flatMap escape) ++ 34 :: (ofChars f.colon ++ ofChars (render f (depth + 1) v))) := by
  rw [fieldText, quoted, List.cons_append, ofChars_cons_ascii (by decide), ofChars_append]
  simp [ofChars_cons_ascii]

theorem readFields_field (hf : f.Blank) (hv : ReadsBack f v) (s : String)
    (hfuel : 2 * (ofChars (render f (depth + 1) v)).length ≤ fuel)
    (htail : skipBlanks tail = 44 :: rest ∨ skipBlanks tail = 125 :: rest) :
    readFields (fuel + 1) (fieldText f depth s v ++ tail) =
      if skipBlanks tail = 44 :: rest then ((.text s, v.tree) :: (readFields fuel rest).1, (readFields fuel rest).2)
      else ([(.text s, v.tree)], none, some rest) := by
  have hends : Ends tail := htail.elim (ends_of_skipBlanks · (by decide)) (ends_of_skipBlanks · (by decide))
  obtain ⟨gap, hcolon, hgap⟩ := hf.colon
  rw [readFields, fieldText_eq, hcolon, List.cons_append, skipBlanks_cons (by decide)]
  dsimp only
  rw [if_pos rfl, List.append_assoc, List.cons_append, readText_quoted]
  dsimp only
  rw [List.cons_append, List.cons_append, skipBlanks_cons (by decide)]
  dsimp only
  rw [if_pos rfl, List.append_assoc, readValue_blanks hgap, hv _ _ _ hfuel hends]
  dsimp only
  rcases htail with htail | htail <;> simp [htail]

end

section

variable {f : Layout} (hf : f.Blank)
include hf

theorem readItems_items {r : List Value} : ∀ {v : Value}, (∀ w ∈ v :: r, ReadsBack f w) → ∀ (depth : Nat) (rest : Bytes)
    (fuel : Nat), 2 * ((ofChars (render f (depth + 1) v)).length + (ofChars (renderItems f depth r)).length) < fuel →
      readItems fuel (ofChars (render f (depth + 1) v) ++
        (ofChars (renderItems f depth r) ++ (ofChars (f.last depth) ++ 93 :: rest))) =
          (Value.trees (v :: r), none, some rest) := by
  induction r with
  | nil =>
    intro v h depth rest fuel hfuel
    obtain ⟨m, rfl⟩ : ∃ m, fuel = m + 1 := ⟨fuel - 1, by omega⟩
    have htail : skipBlanks (ofChars (renderItems f depth []) ++ (ofChars (f.last depth) ++ 93 :: rest)) =
        93 :: rest := by
      rw [renderItems, Text.Utf8.ofChars_nil, List.nil_append, skipBlanks_append (hf.last depth)]
      rfl
    rw [readItems_item (h v List.mem_cons_self) (by omega) (.inr htail), htail]
    simp [Value.trees]
  | cons w r ih =>
    intro v h depth rest fuel hfuel
    obtain ⟨m, rfl⟩ : ∃ m, fuel = m + 1 := ⟨fuel - 1, by omega⟩
    obtain ⟨hv, hr⟩ := List.forall_mem_cons.mp h
    have htext : ofChars (renderItems f depth (w :: r)) = 44 :: (ofChars (f.before depth) ++
        (ofChars (render f (depth + 1) w) ++ ofChars (renderItems f depth r))) := by
      rw [renderItems, List.cons_append, List.cons_append, ofChars_cons_ascii (by decide)]
      simp [ofChars_append]
    have hcomma : ∀ l : Bytes, skipBlanks (44 :: l) = 44 :: l := skipBlanks_cons (by decide)
    rw [htext] at hfuel ⊢
    simp only [List.length_cons, List.length_append] at hfuel
    simp only [List.cons_append, List.append_assoc]
    rw [readItems_item hv (by omega) (.inl (hcomma _)), if_pos (hcomma _), readItems_blanks (hf.before depth),
      ih hr depth rest m (by omega)]
    rfl

theorem readFields_fields {r : List (String × Value)} : ∀ {s : String} {v : Value},
    (∀ p ∈ (s, v) :: r, ReadsBack f p.2) → ∀ (depth : Nat) (rest : Bytes) (fuel : Nat),
      2 * ((fieldText f depth s v).length + (ofChars (renderFields f depth r)).length) < fuel →
        readFields fuel (fieldText f depth s v ++
          (ofChars (renderFields f depth r) ++ (ofChars (f.last depth) ++ 125 :: rest))) =
            (Value.fieldTrees ((s, v) :: r), none, some rest) := by
  induction r with
  | nil =>
    intro s v h depth rest fuel hfuel
    obtain ⟨m, rfl⟩ : ∃ m, fuel = m + 1 := ⟨fuel - 1, by omega⟩
    have hv : ReadsBack f v := h (s, v) List.mem_cons_self
    have htail : skipBlanks (ofChars (renderFields f depth []) ++ (ofChars (f.last depth) ++ 125 :: rest)) =
        125 :: rest := by
      rw [renderFields, Text.Utf8.ofChars_nil, List.nil_append, skipBlanks_append (hf.last depth)]
      rfl
    have hless := length_render_le f depth s v
    rw [readFields_field hf hv s (by omega) (.inr htail), htail]
    simp [Value.fieldTrees]
  | cons p r ih =>
    intro s v h depth rest fuel hfuel
    obtain ⟨s', w⟩ := p
    obtain ⟨m, rfl⟩ : ∃ m, fuel = m + 1 := ⟨fuel - 1, by omega⟩
    have hv : ReadsBack f v := h (s, v) List.mem_cons_self
    have hr : ∀ p ∈ (s', w) :: r, ReadsBack f p.2 := (List.forall_mem_cons.mp h).2
    have htext : ofChars (renderFields f depth ((s', w) :: r)) = 44 :: (ofChars (f.before depth) ++
        (fieldText f depth s' w ++ ofChars (renderFields f depth r))) := by
      rw [renderFields, List.cons_append, List.cons_append, List.cons_append, List.cons_append,
        ofChars_cons_ascii (by decide)]
      simp [ofChars_append, fieldText]
    have hcomma : ∀ l : Bytes, skipBlanks (44 :: l) = 44 :: l := skipBlanks_cons (by decide)
    have hless := length_render_le f depth s v
    rw [htext] at hfuel ⊢
    simp only [List.length_cons, List.length_append] at hfuel
    simp only [List.cons_append, List.append_assoc]
    rw [readFields_field hf hv s (by omega) (.inl (hcomma _)), if_pos (hcomma _), readFields_blanks (hf.before depth),
      ih hr depth rest m (by omega)]
    rfl

end

/-- A number begins with a sign or a digit. -/
theorem exists_cons_number (negative : Bool) (n : Nat) : ∃ b l, (if negative then [45] else []) ++ digits n = b :: l ∧
    (b = 45 || isDigit b) = true := by
  cases negative with
  | true => exact ⟨45, digits n, rfl, rfl⟩
  | false =>
    obtain ⟨b, l, hb⟩ := List.exists_cons_of_ne_nil (digits_ne_nil n)
    have hdigit : isDigit b = true := isDigit_of_mem_digits (n := n) (hb ▸ List.mem_cons_self)
    exact ⟨b, l, hb, by rw [hdigit, Bool.or_true]⟩

theorem ofChars_decimal (n : Int) :
    ofChars (Text.decimal n).toList = (if decide (n < 0) then [45] else []) ++ digits n.natAbs := by
  cases n with
  | ofNat n =>
    rw [Text.decimal, String.toList_ofList]
    simp [digits]
  | negSucc n =>
    rw [Text.decimal, String.toList_ofList, ofChars_cons_ascii (by decide)]
    simp [digits, Int.negSucc_lt_zero]

theorem wholeNumber_natAbs {n : Int} (hlow : Word.minInt64 ≤ n) (hhigh : n ≤ Word.maxNat64) :
    wholeNumber (decide (n < 0)) n.natAbs = some n := by
  unfold wholeNumber
  by_cases hn : n < 0
  · have habs : -(n.natAbs : Int) = n := by omega
    have hpos : 0 < n.natAbs := by omega
    rw [if_pos (decide_eq_true hn), habs, if_pos ⟨hpos, hlow⟩]
  · have habs : (n.natAbs : Int) = n := by omega
    have hfits : n.natAbs ≤ Word.maxNat64 := by omega
    rw [if_neg (mt of_decide_eq_true hn), if_pos hfits, habs]

theorem apart_of_number {b : UInt8} (h : (b = 45 || isDigit b) = true) :
    isBlank b = false ∧ b ≠ 93 ∧ b ≠ 34 ∧ b ≠ 91 ∧ b ≠ 123 := by
  have hother {d : UInt8} (hd : (d = 45 || isDigit d) = false) : b ≠ d := by
    rintro rfl
    rw [hd] at h
    cases h
  refine ⟨Bool.eq_false_iff.mpr fun hblank => ?_, hother (by decide), hother (by decide), hother (by decide),
    hother (by decide)⟩
  simp only [isBlank, Bool.or_eq_true, decide_eq_true_eq] at hblank
  rcases hblank with ((hb | hb) | hb) | hb <;> exact hother (by decide) hb

/-- A value begins with a byte that is neither a blank nor the end of a list. -/
theorem head_render (f : Layout) (depth : Nat) (v : Value) :
    ∃ b l, ofChars (render f depth v) = b :: l ∧ isBlank b = false ∧ b ≠ 93 := by
  have hascii {c : Char} (l : List Char) (hc : c.toNat < 128) (hblank : isBlank (UInt8.ofNat c.toNat) = false)
      (hend : UInt8.ofNat c.toNat ≠ 93) : ∃ b r, ofChars (c :: l) = b :: r ∧ isBlank b = false ∧ b ≠ 93 :=
    ⟨_, _, ofChars_cons_ascii hc l, hblank, hend⟩
  cases v with
  | null => exact hascii _ (by decide) (by decide) (by decide)
  | bool b => cases b <;> exact hascii _ (by decide) (by decide) (by decide)
  | int n =>
    obtain ⟨b, l, htext, hnumber⟩ := exists_cons_number (decide (n < 0)) n.natAbs
    obtain ⟨hblank, hend, -⟩ := apart_of_number hnumber
    rw [render, ofChars_decimal]
    exact ⟨b, l, htext, hblank, hend⟩
  | text s => exact hascii _ (by decide) (by decide) (by decide)
  | list items => cases items <;> exact hascii _ (by decide) (by decide) (by decide)
  | record fields =>
    cases fields with
    | nil => exact hascii _ (by decide) (by decide) (by decide)
    | cons p r =>
      obtain ⟨s, v⟩ := p
      exact hascii _ (by decide) (by decide) (by decide)

theorem exists_fuel {f : Layout} {depth fuel : Nat} {v : Value}
    (h : 2 * (ofChars (render f depth v)).length ≤ fuel) : ∃ m, fuel = m + 1 := by
  obtain ⟨b, l, hhead, -⟩ := head_render f depth v
  rw [hhead, List.length_cons] at h
  exact ⟨fuel - 1, by omega⟩

theorem readsBack_null (f : Layout) : ReadsBack f .null := by
  intro depth fuel rest hfuel _
  obtain ⟨m, rfl⟩ := exists_fuel hfuel
  rfl

theorem readsBack_bool (f : Layout) (b : Bool) : ReadsBack f (.bool b) := by
  intro depth fuel rest hfuel _
  obtain ⟨m, rfl⟩ := exists_fuel hfuel
  cases b <;> rfl

theorem readsBack_int (f : Layout) {n : Int} (hlow : Word.minInt64 ≤ n) (hhigh : n ≤ Word.maxNat64) :
    ReadsBack f (.int n) := by
  intro depth fuel rest hfuel hrest
  obtain ⟨m, rfl⟩ := exists_fuel hfuel
  obtain ⟨b, l, htext, hnumber⟩ := exists_cons_number (decide (n < 0)) n.natAbs
  obtain ⟨hblank, -, hmark, hlist, hrecord⟩ := apart_of_number hnumber
  have hread := readNumber_digits (decide (n < 0)) n.natAbs (wholeNumber_natAbs hlow hhigh) hrest
  rw [← List.append_assoc, htext] at hread
  rw [render, ofChars_decimal, htext, readValue, List.cons_append, skipBlanks_cons hblank]
  dsimp only
  rw [if_neg hmark, if_neg hlist, if_neg hrecord, if_pos hnumber]
  exact hread

theorem readsBack_text (f : Layout) (s : String) : ReadsBack f (.text s) := by
  intro depth fuel rest hfuel _
  obtain ⟨m, rfl⟩ := exists_fuel hfuel
  have htext : ofChars (render f depth (.text s)) = 34 :: (ofChars (s.toList.flatMap escape) ++ [34]) := by
    rw [render, quoted, List.cons_append, ofChars_cons_ascii (by decide), ofChars_append]
    rfl
  rw [htext, readValue, List.cons_append, skipBlanks_cons (by decide), List.append_assoc]
  dsimp only
  rw [if_pos rfl, List.singleton_append, readText_quoted]
  rfl

theorem readValue_list {s l : Bytes} {b : UInt8} (hs : skipBlanks s = b :: l) (hend : b ≠ 93) (fuel : Nat) :
    readValue (fuel + 1) (91 :: s) = (.list (readItems fuel (b :: l)).1 (readItems fuel (b :: l)).2.1 (some .malformed),
      (readItems fuel (b :: l)).2.2) := by
  rw [readValue, skipBlanks_cons (by decide)]
  dsimp only
  rw [if_neg (by decide), if_pos rfl, hs]
  split
  · next hnone => cases hnone
  · next hclosed => exact absurd (List.cons.inj hclosed).1 hend
  · rfl

theorem readValue_record {s l : Bytes} {b : UInt8} (hs : skipBlanks s = b :: l) (hend : b ≠ 125) (fuel : Nat) :
    readValue (fuel + 1) (123 :: s) = (.record (readFields fuel (b :: l)).1 (readFields fuel (b :: l)).2.1,
      (readFields fuel (b :: l)).2.2) := by
  rw [readValue, skipBlanks_cons (by decide)]
  dsimp only
  rw [if_neg (by decide), if_neg (by decide), if_pos rfl, hs]
  split
  · next hnone => cases hnone
  · next hclosed => exact absurd (List.cons.inj hclosed).1 hend
  · rfl

theorem readsBack_list {f : Layout} (hf : f.Blank) {items : List Value} (h : ∀ v ∈ items, ReadsBack f v) :
    ReadsBack f (.list items) := by
  intro depth fuel rest hfuel _
  obtain ⟨m, rfl⟩ := exists_fuel hfuel
  cases items with
  | nil => rfl
  | cons v r =>
    have htext : ofChars (render f depth (.list (v :: r))) = 91 :: (ofChars (f.before depth) ++
        (ofChars (render f (depth + 1) v) ++
          (ofChars (renderItems f depth r) ++ (ofChars (f.last depth) ++ [93])))) := by
      rw [render]
      simp only [List.cons_append]
      rw [ofChars_cons_ascii (by decide)]
      simp only [ofChars_append, List.append_assoc]
      rfl
    rw [htext] at hfuel ⊢
    simp only [List.length_cons, List.length_append] at hfuel
    simp only [List.cons_append, List.append_assoc, List.nil_append]
    have hitems := readItems_items hf h depth rest m (by omega)
    obtain ⟨b, l, hhead, hblank, hend⟩ := head_render f (depth + 1) v
    rw [hhead, List.cons_append] at hitems ⊢
    rw [readValue_list ((skipBlanks_append (hf.before depth) _).trans (skipBlanks_cons hblank _)) hend, hitems]
    rfl

theorem readsBack_record {f : Layout} (hf : f.Blank) {fields : List (String × Value)}
    (h : ∀ p ∈ fields, ReadsBack f p.2) : ReadsBack f (.record fields) := by
  intro depth fuel rest hfuel _
  obtain ⟨m, rfl⟩ := exists_fuel hfuel
  cases fields with
  | nil => rfl
  | cons p r =>
    obtain ⟨s, v⟩ := p
    have htext : ofChars (render f depth (.record ((s, v) :: r))) = 123 :: (ofChars (f.before depth) ++
        (fieldText f depth s v ++ (ofChars (renderFields f depth r) ++ (ofChars (f.last depth) ++ [125])))) := by
      rw [render]
      simp only [List.cons_append]
      rw [ofChars_cons_ascii (by decide)]
      simp only [ofChars_append, List.append_assoc, fieldText]
      rfl
    rw [htext] at hfuel ⊢
    simp only [List.length_cons, List.length_append] at hfuel
    simp only [List.cons_append, List.append_assoc, List.nil_append]
    have hfields := readFields_fields hf h depth rest m (by omega)
    rw [fieldText_eq, List.cons_append] at hfields ⊢
    rw [readValue_record ((skipBlanks_append (hf.before depth) _).trans (skipBlanks_cons (by decide) _)) (by decide),
      hfields]
    rfl

theorem readsBack {f : Layout} (hf : f.Blank) {v : Value} (hv : v.Fits) : ReadsBack f v := by
  induction hv with
  | null => exact readsBack_null f
  | bool b => exact readsBack_bool f b
  | int hlow hhigh => exact readsBack_int f hlow hhigh
  | text s => exact readsBack_text f s
  | list h ih => exact readsBack_list hf ih
  | record h ih => exact readsBack_record hf ih

/-- A text that is written of a value is read as the tree of the value, and nothing is left of it. -/
theorem read_render {f : Layout} (hf : f.Blank) {v : Value} (hv : v.Fits) :
    read (Text.Utf8.encode (String.ofList (render f 0 v))) = (v.tree, some []) := by
  have hread := readsBack hf hv 0 (2 * (ofChars (render f 0 v)).length + 2) [] (Nat.le_add_right _ 2) ends_nil
  rwa [List.append_nil, ← Text.Utf8.encode_ofList] at hread

end Json

end BlobDepot
