import BlobDepot.Proofs.Characters
import BlobDepot.Proofs.Parts
import BlobDepot.Proofs.Transactions

/-!
# Spellings of identifiers

A text is read as an identifier if it consists of 64 digits of either case, and in lower case it is the text of that
identifier. Texts are ordered as their identifiers are, so that records have one order wherever they are kept:
`spelled_faithfully_and_in_order`.
-/

namespace BlobDepot

namespace Text.Hex

/-! ## Digits -/

def digits : String :=
  "0123456789abcdefABCDEF"

theorem mem_digits_iff {c : Char} : c ∈ digits.toList ↔ ∃ n < 16, c.toLower = digit n := by
  constructor
  · intro h
    have key : digits.toList.all (fun d => (List.range 16).any fun n => d.toLower == digit n) = true := by decide
    simpa using List.all_eq_true.mp key c h
  · intro h
    obtain ⟨n, hn, hc⟩ := h
    rcases toLower_eq_or c with hsame | ⟨hupper, hlower⟩
    · have key : ∀ n < 16, digit n ∈ digits.toList := by decide
      rw [← hsame, hc]
      exact key n hn
    · have key : ∀ n < 16, 97 ≤ (digit n).toNat → Char.ofNat ((digit n).toNat - 32) ∈ digits.toList := by decide
      have hmem := key n hn
      rw [← hc, hlower, Nat.add_sub_cancel, Char.ofNat_toNat] at hmem
      exact hmem (by omega)

theorem ascii_of_mem_digits {c : Char} (h : c ∈ digits.toList) : c.toNat < 128 := by
  have key : digits.toList.all (fun d => decide (d.toNat < 128)) = true := by decide
  exact of_decide_eq_true (List.all_eq_true.mp key c h)

/-- The number that is read from a character is the one of which it is the digit in lower case. -/
theorem value?_eq_some_iff {c : Char} (hc : c.toNat < 128) {n : Nat} :
    value? (UInt8.ofNat c.toNat) = some n ↔ n < 16 ∧ c.toLower = digit n := by
  have key : ∀ k < 128, (value? (UInt8.ofNat k)).all (· < 16) = true ∧
      ∀ n < 16, value? (UInt8.ofNat k) = some n ↔ (Char.ofNat k).toLower = digit n := by decide +kernel
  obtain ⟨hsmall, hdigit⟩ := key c.toNat hc
  rw [Char.ofNat_toNat] at hdigit
  constructor
  · intro h
    rw [h] at hsmall
    have hn : n < 16 := of_decide_eq_true hsmall
    exact ⟨hn, (hdigit n hn).mp h⟩
  · intro h
    exact (hdigit n h.1).mpr h.2

/-! ## Pairs of digits -/

theorem valueAt_eq_ok_iff {b : UInt8} {position n : Nat} : valueAt b position = .ok n ↔ value? b = some n := by
  unfold valueAt
  cases value? b <;> simp

theorem decodeFrom_pair_iff {start : Nat} {a b : UInt8} {r bytes : List UInt8} :
    decodeFrom start (a :: b :: r) = .ok bytes ↔ ∃ high low rest, value? a = some high ∧ value? b = some low ∧
      decodeFrom (start + 2) r = .ok rest ∧ bytes = UInt8.ofNat (16 * high + low) :: rest := by
  rw [decodeFrom]
  constructor
  · intro h
    cases hhigh : valueAt a start with
    | error e => rw [hhigh] at h; cases h
    | ok high =>
      cases hlow : valueAt b (start + 1) with
      | error e => rw [hhigh, hlow] at h; cases h
      | ok low =>
        cases hrest : decodeFrom (start + 2) r with
        | error e => rw [hhigh, hlow, hrest] at h; cases h
        | ok rest =>
          rw [hhigh, hlow, hrest] at h
          cases h
          exact ⟨high, low, rest, valueAt_eq_ok_iff.mp hhigh, valueAt_eq_ok_iff.mp hlow, rfl, rfl⟩
  · intro h
    obtain ⟨high, low, rest, hhigh, hlow, hrest, rfl⟩ := h
    rw [valueAt_eq_ok_iff.mpr hhigh, valueAt_eq_ok_iff.mpr hlow, hrest]
    rfl

theorem encode_ofNat {high low : Nat} (hhigh : high < 16) (hlow : low < 16) (rest : List UInt8) :
    encode (UInt8.ofNat (16 * high + low) :: rest) = digit high :: digit low :: encode rest := by
  have hbyte : (UInt8.ofNat (16 * high + low)).toNat = 16 * high + low := by
    rw [UInt8.toNat_ofNat']
    omega
  have hdiv : (16 * high + low) / 16 = high := by omega
  have hmod : (16 * high + low) % 16 = low := by omega
  rw [encode, hbyte, hdiv, hmod]

/-- Bytes are read from a text if in lower case it is their text. -/
theorem decodeFrom_eq_ok_iff : ∀ {l : List Char} {start : Nat} {bytes : List UInt8}, (∀ c ∈ l, c.toNat < 128) →
    l.length % 2 = 0 → (decodeFrom start (l.map fun c => UInt8.ofNat c.toNat) = .ok bytes ↔
      l.map Char.toLower = encode bytes)
  | [], start, bytes, _, _ => by
    cases bytes with
    | nil => exact iff_of_true rfl rfl
    | cons b r => exact iff_of_false (fun h => by cases h) (fun h => by cases h)
  | [c], _, _, _, heven => by simp at heven
  | c :: d :: r, start, bytes, hascii, heven => by
    have hc := hascii c List.mem_cons_self
    have hd := hascii d (List.mem_cons_of_mem c List.mem_cons_self)
    have hr : ∀ e ∈ r, e.toNat < 128 := fun e he => hascii e (List.mem_cons_of_mem c (List.mem_cons_of_mem d he))
    have hrest : r.length % 2 = 0 := by
      rw [List.length_cons, List.length_cons] at heven
      omega
    have ih {rest : List UInt8} : decodeFrom (start + 2) (r.map fun c => UInt8.ofNat c.toNat) = .ok rest ↔ _ :=
      decodeFrom_eq_ok_iff hr hrest
    rw [List.map_cons, List.map_cons, decodeFrom_pair_iff, List.map_cons, List.map_cons]
    constructor
    · intro h
      obtain ⟨high, low, rest, hhigh, hlow, hrest, rfl⟩ := h
      obtain ⟨hhigh, hc'⟩ := (value?_eq_some_iff hc).mp hhigh
      obtain ⟨hlow, hd'⟩ := (value?_eq_some_iff hd).mp hlow
      rw [encode_ofNat hhigh hlow, hc', hd', ih.mp hrest]
    · intro h
      cases bytes with
      | nil => cases h
      | cons b rest =>
        simp only [encode, List.cons.injEq] at h
        obtain ⟨hc', hd', hrest⟩ := h
        refine ⟨_, _, rest, (value?_eq_some_iff hc).mpr ⟨high_lt b, hc'⟩, (value?_eq_some_iff hd).mpr ⟨low_lt b, hd'⟩,
          ih.mpr hrest, ?_⟩
        rw [Nat.div_add_mod, UInt8.ofNat_toNat]

/-- Digits in pairs are the text of some bytes, but for their case. -/
theorem exists_encode : ∀ {l : List Char}, (∀ c ∈ l, c ∈ digits.toList) → l.length % 2 = 0 →
    ∃ bytes, l.map Char.toLower = encode bytes
  | [], _, _ => ⟨[], rfl⟩
  | [c], _, heven => by simp at heven
  | c :: d :: r, hdigits, heven => by
    obtain ⟨high, hhigh, hc⟩ := mem_digits_iff.mp (hdigits c List.mem_cons_self)
    obtain ⟨low, hlow, hd⟩ := mem_digits_iff.mp (hdigits d (List.mem_cons_of_mem c List.mem_cons_self))
    have hr : ∀ e ∈ r, e ∈ digits.toList := fun e he => hdigits e (List.mem_cons_of_mem c (List.mem_cons_of_mem d he))
    have hrest : r.length % 2 = 0 := by
      rw [List.length_cons, List.length_cons] at heven
      omega
    obtain ⟨rest, hrest⟩ := exists_encode hr hrest
    refine ⟨UInt8.ofNat (16 * high + low) :: rest, ?_⟩
    rw [encode_ofNat hhigh hlow, List.map_cons, List.map_cons, hc, hd, hrest]

theorem ascii_of_decodeFrom : ∀ {l : List UInt8} {start : Nat} {bytes : List UInt8}, decodeFrom start l = .ok bytes →
    l.length % 2 = 0 → ∀ b ∈ l, b.toNat < 128
  | [], _, _, _, _ => by simp
  | [b], _, _, _, heven => by simp at heven
  | a :: b :: r, start, bytes, h, heven => by
    obtain ⟨high, low, rest, hhigh, hlow, hrest, -⟩ := decodeFrom_pair_iff.mp h
    have ih := ascii_of_decodeFrom hrest (by rw [List.length_cons, List.length_cons] at heven; omega)
    simpa using ⟨value?_lt hhigh, value?_lt hlow, ih⟩

theorem exists_digit_of_mem_encode {c : Char} : ∀ {bytes : List UInt8}, c ∈ encode bytes → ∃ n < 16, c = digit n
  | b :: r, h => by
    simp only [encode, List.mem_cons] at h
    rcases h with rfl | rfl | h
    · exact ⟨_, high_lt b, rfl⟩
    · exact ⟨_, low_lt b, rfl⟩
    · exact exists_digit_of_mem_encode h

theorem mem_digits_of_map_eq {l : List Char} {bytes : List UInt8} (h : l.map Char.toLower = encode bytes) :
    ∀ c ∈ l, c ∈ digits.toList := by
  intro c hc
  exact mem_digits_iff.mpr (exists_digit_of_mem_encode (h ▸ List.mem_map_of_mem hc))

end Text.Hex

namespace Oid

open Text (lower)
open Text.Utf8 (ofChars)

/-! ## Reading -/

theorem parse_eq_ok {s : String} {oid : Oid} (h : parse s = .ok oid) :
    (ofChars s.toList).length = 64 ∧ ∃ bytes, Text.Hex.decode (ofChars s.toList) = .ok bytes ∧ oid = ofBytes bytes := by
  unfold parse at h
  rw [Text.Utf8.encode_eq] at h
  dsimp only at h
  split at h
  · next hlength =>
    cases hdecode : Text.Hex.decode (ofChars s.toList) with
    | error e =>
      rw [hdecode] at h
      cases h
    | ok bytes =>
      rw [hdecode] at h
      exact ⟨hlength, bytes, rfl, (Except.ok.inj h).symm⟩
  · cases h

/-- A text is read as the identifier whose text it is in lower case. -/
theorem parse_eq_ok_iff {s : String} {oid : Oid} : parse s = .ok oid ↔ lower s = oid.hex := by
  rw [← String.toList_inj, Text.toList_lower, toList_hex]
  constructor
  · intro h
    obtain ⟨hlength, bytes, hdecode, rfl⟩ := parse_eq_ok h
    have hascii := Text.Utf8.ascii_of_ofChars (Text.Hex.ascii_of_decodeFrom hdecode (by rw [hlength]))
    rw [Text.Utf8.ofChars_of_ascii hascii] at hlength hdecode
    rw [List.length_map] at hlength
    have hlower := (Text.Hex.decodeFrom_eq_ok_iff hascii (by rw [hlength])).mp hdecode
    have hbytes : bytes.length = 32 := by
      have hsame := congrArg List.length hlower
      rw [List.length_map, Text.Hex.length_encode] at hsame
      omega
    exact hlower.trans (congrArg Text.Hex.encode (congrArg Oid.bytes (ofBytes_bytes ⟨bytes, hbytes⟩)).symm)
  · intro h
    have hascii : ∀ c ∈ s.toList, c.toNat < 128 :=
      fun c hc => Text.Hex.ascii_of_mem_digits (Text.Hex.mem_digits_of_map_eq h c hc)
    have hlength : s.toList.length = 64 := by
      rw [← List.length_map (f := Char.toLower), h, Text.Hex.length_encode, oid.length_eq]
    have hdecode : Text.Hex.decode (s.toList.map fun c => UInt8.ofNat c.toNat) = .ok oid.bytes :=
      (Text.Hex.decodeFrom_eq_ok_iff hascii (by rw [hlength])).mpr h
    unfold parse
    rw [Text.Utf8.encode_eq, Text.Utf8.ofChars_of_ascii hascii]
    simp only [List.length_map, hlength, hdecode, ofBytes_bytes, if_true]

def IsSpelling (s : String) : Prop :=
  (Text.Utf8.encode s).length = 64 ∧ ∀ b ∈ Text.Utf8.encode s, b ∈ Text.Utf8.encode Text.Hex.digits

instance (s : String) : Decidable (IsSpelling s) :=
  inferInstanceAs (Decidable (_ ∧ _))

theorem isSpelling_iff {s : String} :
    IsSpelling s ↔ s.toList.length = 64 ∧ ∀ c ∈ s.toList, c ∈ Text.Hex.digits.toList := by
  have hdigits : Text.Utf8.encode Text.Hex.digits = Text.Hex.digits.toList.map fun c => UInt8.ofNat c.toNat := by
    rw [Text.Utf8.encode_eq, Text.Utf8.ofChars_of_ascii fun c hc => Text.Hex.ascii_of_mem_digits hc]
  unfold IsSpelling
  rw [Text.Utf8.encode_eq, hdigits]
  constructor
  · intro h
    obtain ⟨hlength, hmem⟩ := h
    have hascii : ∀ c ∈ s.toList, c.toNat < 128 := by
      refine Text.Utf8.ascii_of_ofChars fun b hb => ?_
      obtain ⟨d, hd, rfl⟩ := List.mem_map.mp (hmem b hb)
      have hd := Text.Hex.ascii_of_mem_digits hd
      rwa [Text.Utf8.toNat_ofNat_ascii hd]
    rw [Text.Utf8.ofChars_of_ascii hascii] at hlength hmem
    refine ⟨by rwa [List.length_map] at hlength, fun c hc => ?_⟩
    obtain ⟨d, hd, hsame⟩ := List.mem_map.mp (hmem _ (List.mem_map_of_mem hc))
    exact Text.Utf8.eq_of_ofNat_eq (Text.Hex.ascii_of_mem_digits hd) (hascii c hc) hsame ▸ hd
  · intro h
    obtain ⟨hlength, hmem⟩ := h
    rw [Text.Utf8.ofChars_of_ascii fun c hc => Text.Hex.ascii_of_mem_digits (hmem c hc)]
    refine ⟨by rwa [List.length_map], fun b hb => ?_⟩
    obtain ⟨c, hc, rfl⟩ := List.mem_map.mp hb
    exact List.mem_map_of_mem (hmem c hc)

theorem parsed_iff_isSpelling {s : String} : (∃ oid, parse s = .ok oid) ↔ IsSpelling s := by
  rw [isSpelling_iff]
  constructor
  · intro h
    obtain ⟨oid, hoid⟩ := h
    have hlower := congrArg String.toList (parse_eq_ok_iff.mp hoid)
    rw [Text.toList_lower, toList_hex] at hlower
    refine ⟨?_, Text.Hex.mem_digits_of_map_eq hlower⟩
    rw [← List.length_map (f := Char.toLower), hlower, Text.Hex.length_encode, oid.length_eq]
  · intro h
    obtain ⟨hlength, hdigits⟩ := h
    obtain ⟨bytes, hbytes⟩ := Text.Hex.exists_encode hdigits (by rw [hlength])
    have hsize : bytes.length = 32 := by
      have hsame := congrArg List.length hbytes
      rw [List.length_map, Text.Hex.length_encode] at hsame
      omega
    refine ⟨⟨bytes, hsize⟩, parse_eq_ok_iff.mpr ?_⟩
    rw [← String.toList_inj, Text.toList_lower, toList_hex, hbytes]

/-! ## Order -/

theorem isLE_compare_iff {a b : Oid} : (compare a b).isLE = true ↔ a.hex ≤ b.hex := by
  rw [← String.not_lt, hex_lt_hex_iff, ← Std.OrientedCmp.gt_iff_lt]
  cases compare a b <;> decide

end Oid

namespace Catalog

/-- The texts of the records in memory, as they are listed, are those of the rows of a table sorted by text. -/
theorem texts_listed {m : Memory} {db : Database} (hk : m.Keyed) (h : db.Holds m) :
    (m.respond .listObjects).1.map (fun r => r.oid.hex) =
      (db.objects.mergeSort fun a b => a.oid ≤ b.oid).map ObjectRow.oid := by
  rw [Relational.sorted_objects h]
  simp only [Memory.respond, SortedMap.values, List.map_map]
  refine List.map_congr_left fun e he => ?_
  exact congrArg Oid.hex (hk e.1 e.2 (SortedMap.get?_eq_some_iff.mpr he)).1

end Catalog

namespace Oid

open Catalog (Database Memory ObjectRow Op)

/-- Exactly the texts of 64 digits are read. In lower case they are the texts of what is read, and each identifier is
read from its own text. Identifiers are ordered as their texts, and a catalog in memory lists its records in the order
of a table that is sorted by the texts of identifiers. -/
theorem spelled_faithfully_and_in_order :
    (∀ s, (∃ oid, parse s = .ok oid) ↔ IsSpelling s) ∧
      (∀ s oid, parse s = .ok oid → oid.hex = Text.lower s) ∧
      (∀ oid, parse oid.hex = .ok oid) ∧
      (∀ a b : Oid, (compare a b).isLE = true ↔ a.hex ≤ b.hex) ∧
      ∀ (m : Memory) (db : Database), m.Keyed → db.Holds m →
        (m.respond .listObjects).1.map (fun r => r.oid.hex) =
          (db.objects.mergeSort fun a b => a.oid ≤ b.oid).map ObjectRow.oid :=
  ⟨fun _ => parsed_iff_isSpelling, fun _ _ h => (parse_eq_ok_iff.mp h).symm, parse_hex, fun _ _ => isLE_compare_iff,
    fun _ _ => Catalog.texts_listed⟩

namespace Sample

def capitals : String :=
  "E3B0C44298FC1C149AFBF4C8996FB92427AE41E4649B934CA495991B7852B855"

def claims : Memory :=
  ((Memory.empty.respond (.insertObject (.pending (ofBytes [255]) 1 ""))).2.respond
    (.insertObject (.pending default 2 ""))).2

end Sample

open Sample in
theorem spelled_faithfully_in_capitals_and_claimed_out_of_order :
    (∃ oid, parse capitals = .ok oid ∧
      oid.hex = "e3b0c44298fc1c149afbf4c8996fb92427ae41e4649b934ca495991b7852b855") ∧
    ∃ db : Database, claims.Keyed ∧ db.Holds claims ∧
      (db.objects.mergeSort fun a b => a.oid ≤ b.oid).map ObjectRow.oid =
        [(default : Oid).hex, (ofBytes [255]).hex] := by
  obtain ⟨hparsed, hlower, -, -, hlisted⟩ := spelled_faithfully_and_in_order
  obtain ⟨oid, hoid⟩ := (hparsed capitals).mpr (by decide +kernel)
  have hkeyed := Catalog.Memory.keyed_respond Catalog.Memory.keyed_empty
    (.insertObject (.pending (ofBytes [255]) 1 ""))
  obtain ⟨db, -, hdb⟩ := Catalog.Relational.respond_holds Catalog.Database.holds_empty Catalog.Memory.keyed_empty
    (.insertObject (.pending (ofBytes [255]) 1 ""))
  obtain ⟨db', -, hdb'⟩ := Catalog.Relational.respond_holds hdb hkeyed (.insertObject (.pending default 2 ""))
  have hclaims : claims.Keyed := Catalog.Memory.keyed_respond hkeyed _
  refine ⟨⟨oid, hoid, ?_⟩, db', hclaims, hdb', ?_⟩
  · rw [hlower capitals oid hoid]
    decide +kernel
  · rw [← hlisted claims db' hclaims hdb']
    decide +kernel

end Oid

end BlobDepot
