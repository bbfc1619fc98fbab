import BlobDepot.Record
import Mathlib.Data.List.Lex

/-!
# The text of identifiers

An identifier is read back from its text, so texts stand for identifiers wherever they are stored, and
texts are ordered as the identifiers are.
-/

namespace BlobDepot

namespace Text.Hex

theorem value?_digit {n : Nat} (h : n < 16) : value? (UInt8.ofNat (digit n).toNat) = some n := by
  have key : ∀ k : Fin 16, value? (UInt8.ofNat (digit k).toNat) = some k.val := by decide
  exact key ⟨n, h⟩

theorem value?_lt {b : UInt8} {n : Nat} (h : value? b = some n) : b.toNat < 128 := by
  unfold value? at h
  dsimp only at h
  split at h
  · omega
  · split at h
    · omega
    · split at h
      · omega
      · cases h

theorem digit_toNat_lt {n : Nat} (h : n < 16) : (digit n).toNat < 128 := by
  have key : ∀ k : Fin 16, (digit k).toNat < 128 := by decide
  exact key ⟨n, h⟩

theorem digit_lt_iff {m n : Nat} (hm : m < 16) (hn : n < 16) : digit m < digit n ↔ m < n := by
  have key : ∀ i j : Fin 16, digit i < digit j ↔ i.val < j.val := by decide
  exact key ⟨m, hm⟩ ⟨n, hn⟩

theorem digit_inj {m n : Nat} (hm : m < 16) (hn : n < 16) : digit m = digit n ↔ m = n := by
  have key : ∀ i j : Fin 16, digit i = digit j ↔ i.val = j.val := by decide
  exact key ⟨m, hm⟩ ⟨n, hn⟩

theorem high_lt (b : UInt8) : b.toNat / 16 < 16 := by
  have := b.toNat_lt; omega

theorem low_lt (b : UInt8) : b.toNat % 16 < 16 :=
  Nat.mod_lt _ (by decide)

theorem length_encode : ∀ l : List UInt8, (encode l).length = 2 * l.length
  | [] => rfl
  | b :: r => by simp only [encode, List.length_cons, length_encode r]; omega

theorem mem_encode_toNat_lt {c : Char} : ∀ {l : List UInt8}, c ∈ encode l → c.toNat < 128
  | b :: r, h => by
    simp only [encode, List.mem_cons] at h
    rcases h with rfl | rfl | h
    · exact digit_toNat_lt (high_lt b)
    · exact digit_toNat_lt (low_lt b)
    · exact mem_encode_toNat_lt h

theorem decodeFrom_encode : ∀ (l : List UInt8) (start : Nat),
    decodeFrom start ((encode l).map fun c => UInt8.ofNat c.toNat) = .ok l
  | [], _ => rfl
  | b :: r, start => by
    have hb : UInt8.ofNat (16 * (b.toNat / 16) + b.toNat % 16) = b := by
      rw [Nat.div_add_mod]; exact UInt8.ofNat_toNat
    simp only [encode, List.map_cons, decodeFrom, valueAt,
      value?_digit (high_lt b), value?_digit (low_lt b),
      decodeFrom_encode r (start + 2)]
    change Except.ok (UInt8.ofNat (16 * (b.toNat / 16) + b.toNat % 16) :: r) = _
    rw [hb]

theorem compare_eq_lt_iff (a b : UInt8) : compare a b = .lt ↔ a.toNat < b.toNat := by
  rw [Std.compare_eq_lt]; exact UInt8.lt_iff_toNat_lt

theorem encode_lt_iff : ∀ {a b : List UInt8}, encode a < encode b ↔ compare a b = .lt
  | [], [] => by simp [encode]
  | [], b :: r => by simp [encode]
  | a :: r, [] => by simp [encode]
  | a :: r, b :: s => by
    have hab : compare a b = .eq ↔ a.toNat = b.toNat := by
      rw [Std.LawfulEqOrd.compare_eq_iff_eq]; exact UInt8.toNat_inj.symm
    rw [encode, encode, List.cons_lt_cons_iff, List.cons_lt_cons_iff, encode_lt_iff,
      digit_lt_iff (high_lt a) (high_lt b), digit_inj (high_lt a) (high_lt b),
      digit_lt_iff (low_lt a) (low_lt b), digit_inj (low_lt a) (low_lt b), List.compare_cons_cons,
      Ordering.then_eq_lt, compare_eq_lt_iff, hab]
    have h : ∀ x y : Nat, ∀ P : Prop, (x / 16 < y / 16 ∨ x / 16 = y / 16 ∧
        (x % 16 < y % 16 ∨ x % 16 = y % 16 ∧ P)) ↔ (x < y ∨ x = y ∧ P) := by
      intro x y P
      have hx := Nat.div_add_mod x 16
      have hy := Nat.div_add_mod y 16
      by_cases hP : P <;> simp only [hP, and_true, and_false, or_false] <;> omega
    exact h _ _ _

end Text.Hex

/-! ## Texts of one-byte characters -/

theorem utf8Encode_of_ascii : ∀ {l : List Char}, (∀ c ∈ l, c.toNat < 128) →
    l.utf8Encode.data.toList = l.map fun c => UInt8.ofNat c.toNat
  | [], _ => by simp
  | c :: r, h => by
    have hc : c.toNat < 128 := h c List.mem_cons_self
    rw [List.utf8Encode_cons, ByteArray.data_append, Array.toList_append,
      utf8Encode_of_ascii fun d hd => h d (List.mem_cons_of_mem _ hd), List.utf8Encode_singleton,
      List.map_cons]
    have hs : c.utf8Size = 1 := by
      rw [Char.utf8Size, if_pos]; exact Nat.le_of_lt_succ hc
    rw [String.utf8EncodeChar_eq_singleton hs]
    rfl

namespace Oid

theorem toList_hex (oid : Oid) : oid.hex.toList = Text.Hex.encode oid.bytes :=
  String.toList_ofList

theorem utf8_hex (oid : Oid) :
    Text.Utf8.encode oid.hex = (Text.Hex.encode oid.bytes).map fun c => UInt8.ofNat c.toNat := by
  unfold Text.Utf8.encode hex
  rw [String.toUTF8_eq_toByteArray, String.toByteArray_ofList]
  exact utf8Encode_of_ascii fun c hc => Text.Hex.mem_encode_toNat_lt hc

theorem ofBytes_bytes (oid : Oid) : ofBytes oid.bytes = oid := by
  obtain ⟨l, hl⟩ := oid
  simp only [ofBytes, mk.injEq]
  rw [List.take_append_of_le_length (Nat.le_of_eq hl.symm), ← hl, List.take_length]

@[simp] theorem parse_hex (oid : Oid) : parse oid.hex = .ok oid := by
  unfold parse
  have hlen : (Text.Utf8.encode oid.hex).length = 64 := by
    rw [utf8_hex, List.length_map, Text.Hex.length_encode, oid.length_eq]
  have hdec : Text.Hex.decode (Text.Utf8.encode oid.hex) = .ok oid.bytes := by
    rw [utf8_hex]; exact Text.Hex.decodeFrom_encode oid.bytes 0
  simp only [hlen, hdec, ofBytes_bytes, if_true]

theorem hex_inj {a b : Oid} : a.hex = b.hex ↔ a = b := by
  refine ⟨fun h => ?_, fun h => h ▸ rfl⟩
  have := parse_hex a
  rw [h, parse_hex] at this
  exact (Except.ok.inj this).symm

theorem hex_lt_hex_iff {a b : Oid} : a.hex < b.hex ↔ compare a b = .lt := by
  change a.hex.toList < b.hex.toList ↔ _
  rw [toList_hex, toList_hex]
  exact Text.Hex.encode_lt_iff

end Oid

end BlobDepot
