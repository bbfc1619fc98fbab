import BlobDepot.Password.Hasher
import BlobDepot.Proofs.Base64
import BlobDepot.Proofs.Characters
import BlobDepot.Proofs.Readings
import BlobDepot.Proofs.Parts

/-!
# Passwords and their hashes

An encoded hash is read back with the cost, the salt and the digest that it was written with, and so each password
belongs to every hash that is made of it: `verify_hash`.
-/

namespace BlobDepot

namespace Password

/-! ## The digest -/

theorem littleEndian_length (n width : Nat) : (Digest.Blake2b.littleEndian n width).length = width := by
  induction width generalizing n with
  | zero => rfl
  | succ width ih => rw [Digest.Blake2b.littleEndian, List.length_cons, ih]

theorem compress_size (h block : Array UInt64) (count : Nat) (last : Bool) :
    (Digest.Blake2b.compress h block count last).size = h.size :=
  Array.size_mapIdx

theorem absorb_size (h : Array UInt64) (count : Nat) (l : List UInt8) :
    (Digest.Blake2b.absorb h count l).size = h.size := by
  rw [Digest.Blake2b.absorb]
  split
  · rw [absorb_size, compress_size]
  · rw [compress_size]
termination_by l.length
decreasing_by rw [List.length_drop]; omega

theorem hash_length {size : Nat} (h : size ≤ 64) (l : List UInt8) : (Digest.Blake2b.hash size l).length = size := by
  have hwords : ∀ words : List UInt64,
      (words.flatMap fun w => Digest.Blake2b.littleEndian w.toNat 8).length = 8 * words.length := by
    intro words
    induction words with
    | nil => rfl
    | cons w r ih =>
      rw [List.flatMap_cons, List.length_append, littleEndian_length, ih, List.length_cons]
      omega
  have hstate : ∀ f : UInt64 → UInt64, (Digest.Blake2b.initial.modify 0 f).size = 8 := fun f => Array.size_modify
  rw [Digest.Blake2b.hash, List.length_take, hwords, Array.length_toList, absorb_size, hstate]
  omega

theorem derive_length (s : Argon2.Setting) (x : Argon2.Input) {size : Nat} (h : size ≤ 64) :
    (Argon2.derive s x size).length = size := by
  unfold Argon2.derive Argon2.longHash
  rw [if_pos h]
  exact hash_length h _

/-! ## Words of the format -/

namespace Encoded

theorem guard_bind {α : Type} {p : Prop} [Decidable p] (h : p) (f : Unit → Option α) : (guard p >>= f) = f () := by
  have hpassed : (guard p : Option Unit) = some () := if_pos h
  rw [hpassed]
  rfl

theorem isValueChar_of_isDigit {c : Char} (h : c.isDigit = true) : isValueChar c = true := by
  rw [Char.isDigit, Bool.and_eq_true, decide_eq_true_iff, decide_eq_true_iff] at h
  have hdigit : ('0' ≤ c && c ≤ '9') = true := by
    rw [Bool.and_eq_true, decide_eq_true_iff, decide_eq_true_iff]
    exact h
  simp [isValueChar, hdigit]

theorem decimal_length_le {n : Nat} (h : n ≤ Word.maxNat32) : (Text.decimal n).length ≤ 10 := by
  rw [Text.decimal_natCast, String.length_ofList, Nat.length_toDigits_le_iff (by decide) (by decide)]
  exact Nat.lt_of_le_of_lt h (by decide)

theorem isValue_decimal {n : Nat} (h : n ≤ Word.maxNat32) : isValue (Text.decimal n) = true := by
  have hlength := decimal_length_le h
  rw [isValue, Bool.and_eq_true, decide_eq_true_iff, List.all_eq_true]
  exact ⟨by omega, fun c hc => isValueChar_of_isDigit (Text.isDigit_of_mem_decimal hc)⟩

theorem number?_decimal {n : Nat} (h : n ≤ Word.maxNat32) : number? (Text.decimal n) = some n := by
  have hne : (Text.decimal n).isEmpty = false := by
    rw [String.isEmpty_eq_false_iff, Text.decimal_natCast]
    intro hempty
    exact Nat.toDigits_ne_nil (String.ofList_inj.mp (hempty.trans (show "" = String.ofList [] from rfl)))
  have hfirst : ((Text.decimal n).length == 1 || (Text.decimal n).front != '0') = true := by
    by_cases hn : n = 0
    · subst hn
      rfl
    · have hhead := Text.head?_toDigits_ne hn
      obtain ⟨c, r, hc⟩ := List.exists_cons_of_ne_nil (Nat.toDigits_ne_nil (n := n) (b := 10))
      rw [Text.decimal_natCast, String.front_eq, String.front?_eq, String.toList_ofList]
      rw [hc] at hhead ⊢
      have hzero : c ≠ '0' := fun h => hhead (by rw [h]; rfl)
      simp [hzero]
  have hdigits : Text.natOfDigits? (Text.decimal n).toList = some n := by
    rw [Text.decimal_natCast, String.toList_ofList, Text.natOfDigits?_toDigits]
  unfold number?
  rw [isValue_decimal h, hne, hfirst, hdigits]
  exact (guard_bind rfl _).trans (guard_bind h _)

theorem notMem_of_isName {name : String} (h : isName name = true) : '=' ∉ name.toList := by
  simp only [isName, Bool.and_eq_true, List.all_eq_true] at h
  exact fun hmem => absurd (h.2 _ hmem) (by decide)

theorem notMem_of_isValue {value : String} (h : isValue value = true) {c : Char} (hc : isValueChar c = false) :
    c ∉ value.toList := by
  simp only [isValue, Bool.and_eq_true, List.all_eq_true] at h
  exact fun hmem => absurd (h.2 _ hmem) (by simp [hc])

theorem pair?_eq {name value s : String} (hs : s.toList = name.toList ++ '=' :: value.toList)
    (hname : isName name = true) (hvalue : isValue value = true) : pair? s = some (name, value) := by
  unfold pair?
  rw [Text.split_append hs (notMem_of_isName hname), Text.split_of_notMem (notMem_of_isValue hvalue (by decide))]
  simp [hname, hvalue]

/-! ## Parameters -/

def Admissible (c : Argon2.Cost) : Prop :=
  isCost c = true ∧ c.memory ≤ Word.maxNat32 ∧ c.passes ≤ Word.maxNat32 ∧ c.lanes ≤ Word.maxNat32

def parameter (name : String) (n : Nat) : String :=
  name ++ "=" ++ Text.decimal n

def costField (c : Argon2.Cost) : String :=
  parameter "m" c.memory ++ "," ++ parameter "t" c.passes ++ "," ++ parameter "p" c.lanes

theorem utf8ByteSize_decimal_le {n : Nat} (h : n ≤ Word.maxNat32) : (Text.decimal n).utf8ByteSize ≤ 10 := by
  have hascii : ∀ c ∈ Nat.toDigits 10 n, c.toNat < 128 := by
    intro c hc
    have hdigit := Nat.isDigit_of_mem_toDigits (by decide) (by decide) hc
    rw [Char.isDigit, Bool.and_eq_true, decide_eq_true_iff, decide_eq_true_iff] at hdigit
    have hle : c.toNat ≤ 57 := hdigit.2
    omega
  have hlength := decimal_length_le h
  show (Text.Utf8.encode (Text.decimal n)).length ≤ 10
  rw [Text.decimal_natCast, String.length_ofList] at hlength
  rw [Text.decimal_natCast, Text.Utf8.encode_ofList, Text.Utf8.length_ofChars_of_ascii hascii]
  exact hlength

theorem pair?_parameter {name : String} {n : Nat} (hname : isName name = true) (hn : n ≤ Word.maxNat32) :
    pair? (parameter name n) = some (name, Text.decimal n) := by
  refine pair?_eq ?_ hname (isValue_decimal hn)
  simp [parameter]

theorem notMem_parameter {name : String} {n : Nat} {c : Char} (hname : c ∉ name.toList) (hc : c ≠ '=')
    (hdigit : isValueChar c = false) (hn : n ≤ Word.maxNat32) : c ∉ (parameter name n).toList := by
  simpa [parameter, hname, hc] using notMem_of_isValue (isValue_decimal hn) hdigit

theorem pairs?_costField {c : Argon2.Cost} (h : Admissible c) : pairs? (costField c) =
    some [("m", Text.decimal c.memory), ("t", Text.decimal c.passes), ("p", Text.decimal c.lanes)] := by
  obtain ⟨-, hmemory, hpasses, hlanes⟩ := h
  have hsize : (costField c).utf8ByteSize ≤ 127 := by
    have hm := utf8ByteSize_decimal_le hmemory
    have ht := utf8ByteSize_decimal_le hpasses
    have hp := utf8ByteSize_decimal_le hlanes
    have hone : "m".utf8ByteSize = 1 ∧ "t".utf8ByteSize = 1 ∧ "p".utf8ByteSize = 1 ∧ "=".utf8ByteSize = 1 ∧
        ",".utf8ByteSize = 1 := ⟨rfl, rfl, rfl, rfl, rfl⟩
    simp only [costField, parameter, String.utf8ByteSize_append]
    omega
  have hcomma : ∀ {name : String} {n : Nat}, ',' ∉ name.toList → n ≤ Word.maxNat32 →
      ',' ∉ (parameter name n).toList :=
    fun hname hn => notMem_parameter hname (by decide) (by decide) hn
  have hsplit : Text.split ',' (costField c) =
      [parameter "m" c.memory, parameter "t" c.passes, parameter "p" c.lanes] := by
    rw [Text.split_append (a := parameter "m" c.memory) (b := parameter "t" c.passes ++ "," ++ parameter "p" c.lanes)
        (by simp [costField]) (hcomma (by decide) hmemory),
      Text.split_append (a := parameter "t" c.passes) (b := parameter "p" c.lanes) (by simp)
        (hcomma (by decide) hpasses), Text.split_of_notMem (hcomma (by decide) hlanes)]
  unfold pairs?
  rw [hsplit, guard_bind hsize]
  simp [pair?_parameter, hmemory, hpasses, hlanes, show isName "m" = true by decide,
    show isName "t" = true by decide, show isName "p" = true by decide]

theorem ofPairs?_cost {c : Argon2.Cost} (h : Admissible c) :
    Parameters.ofPairs? [("m", Text.decimal c.memory), ("t", Text.decimal c.passes), ("p", Text.decimal c.lanes)] =
      some ⟨c, []⟩ := by
  obtain ⟨-, hmemory, hpasses, hlanes⟩ := h
  simp [Parameters.ofPairs?, Parameters.put?, number?_decimal hmemory, number?_decimal hpasses, number?_decimal hlanes]

/-! ## Hashes -/

theorem digitsOf_length (l : List UInt8) : (Text.Base64.digitsOf l).length = (4 * l.length + 2) / 3 := by
  induction l using Text.Base64.digitsOf.induct with
  | case1 => rfl
  | case2 => simp [Text.Base64.digitsOf]
  | case3 => simp [Text.Base64.digitsOf]
  | case4 a b c r ih =>
    simp only [Text.Base64.digitsOf, List.length_cons, ih]
    omega

theorem bytes?_base64 (l : List UInt8) : bytes? (base64 l) = some l := by
  rw [bytes?, base64, String.toList_ofList, Text.Base64.decode?_encode]

theorem isValueChar_digit {n : Nat} (h : n < 64) : isValueChar (Text.Base64.Alphabet.standard.digit n) = true := by
  have key : ∀ n < 64, isValueChar (Text.Base64.Alphabet.standard.digit n) = true := by decide
  exact key n h

theorem all_isValueChar_base64 (l : List UInt8) : (base64 l).toList.all isValueChar = true := by
  rw [base64, String.toList_ofList, List.all_eq_true]
  intro c hc
  obtain ⟨n, hn, rfl⟩ := List.mem_map.mp hc
  exact isValueChar_digit (Text.Base64.digitsOf_lt l n hn)

theorem length_base64 (l : List UInt8) : (base64 l).length = (4 * l.length + 2) / 3 := by
  rw [base64, String.length_ofList, Text.Base64.encode, List.length_map, digitsOf_length]

theorem salt?_base64 {salt : List UInt8} (hmin : 8 ≤ salt.length) (hmax : salt.length ≤ 48) :
    salt? (base64 salt) = some salt := by
  have hlength := length_base64 salt
  have hvalue : isValue (base64 salt) = true := by
    rw [isValue, Bool.and_eq_true, decide_eq_true_iff]
    exact ⟨by omega, all_isValueChar_base64 salt⟩
  have hlong : 4 ≤ (base64 salt).length := by omega
  unfold salt?
  rw [guard_bind (by simp [hlong, hvalue]), bytes?_base64]
  exact guard_bind hmin _

theorem hash?_base64 {hash : List UInt8} (hmin : 10 ≤ hash.length) (hmax : hash.length ≤ 64) :
    hash? (base64 hash) = some hash := by
  unfold hash?
  rw [bytes?_base64]
  exact guard_bind (by simp [hmin, hmax]) _

theorem toList_text (c : Argon2.Cost) (salt hash : String) : (text c salt hash).toList = "".toList ++ '$' ::
    ("argon2id".toList ++ '$' :: ("v=19".toList ++ '$' :: ((costField c).toList ++ '$' ::
      (salt.toList ++ '$' :: hash.toList)))) := by
  have hhead : "$argon2id$v=19$m=" = "$" ++ "argon2id" ++ "$" ++ "v=19" ++ "$" ++ "m" ++ "=" := rfl
  have hpasses : ",t=" = "," ++ "t" ++ "=" := rfl
  have hlanes : ",p=" = "," ++ "p" ++ "=" := rfl
  have hdollar : "$".toList = ['$'] := rfl
  have hempty : "".toList = [] := rfl
  unfold text costField parameter
  rw [hhead, hpasses, hlanes]
  simp only [String.toList_append, List.append_assoc, hdollar, hempty, List.nil_append, List.cons_append]

theorem split_text {c : Argon2.Cost} (h : Admissible c) (salt hash : List UInt8) :
    Text.split '$' (text c (base64 salt) (base64 hash)) =
      ["", "argon2id", "v=19", costField c, base64 salt, base64 hash] := by
  obtain ⟨-, hmemory, hpasses, hlanes⟩ := h
  have hparameter : ∀ {name : String} {n : Nat}, '$' ∉ name.toList → n ≤ Word.maxNat32 →
      '$' ∉ (parameter name n).toList :=
    fun hname hn => notMem_parameter hname (by decide) (by decide) hn
  have hcost : '$' ∉ (costField c).toList := by
    simp [costField, hparameter, hmemory, hpasses, hlanes]
  have hbase : ∀ l : List UInt8, '$' ∉ (base64 l).toList := by
    intro l hmem
    exact absurd (List.all_eq_true.mp (all_isValueChar_base64 l) _ hmem) (by decide)
  rw [Text.split, toList_text, Text.splitList_append (by decide), Text.splitList_append (by decide),
    Text.splitList_append (by decide), Text.splitList_append hcost, Text.splitList_append (hbase salt),
    Text.splitList_of_notMem (hbase hash)]
  simp only [List.map_cons, List.map_nil, String.ofList_toList]

theorem parse?_text {c : Argon2.Cost} (h : Admissible c) {salt hash : List UInt8} (hmin : 8 ≤ salt.length)
    (hmax : salt.length ≤ 48) (hhash : 10 ≤ hash.length) (hhash' : hash.length ≤ 64) :
    parse? (text c (base64 salt) (base64 hash)) = some ⟨.id, .mixing, c, [], salt, hash⟩ := by
  have hversion : ∀ fields : List String, takeVersion? ("v=19" :: fields) = some (.mixing, fields) := by
    intro fields
    have hfield : ("v=".isPrefixOf "v=19" && !"v=19".contains ',') = true := by
      rw [String.contains_char_eq]
      decide +kernel
    have hnumber : number? (String.ofList ("v=19".toList.drop 2)) = some 19 := rfl
    unfold takeVersion?
    dsimp only
    rw [if_pos hfield, hnumber]
    rfl
  have hparameters : ∀ fields : List String, takeParameters? (costField c :: fields) = some (⟨c, []⟩, fields) := by
    intro fields
    have hsign : (costField c).contains '=' = true := by
      simp [String.contains_char_eq, costField, parameter]
    simp [takeParameters?, hsign, pairs?_costField h, ofPairs?_cost h]
  have hname : isName "argon2id" = true := by decide
  have hvariant : variant? "argon2id" = some .id := rfl
  unfold parse?
  rw [split_text h]
  refine (guard_bind hname _).trans ?_
  rw [hvariant, Option.bind_eq_bind, Option.bind_some, hversion, Option.bind_eq_bind, Option.bind_some]
  dsimp only
  rw [hparameters, Option.bind_eq_bind, Option.bind_some]
  refine (guard_bind h.1 _).trans ?_
  dsimp only
  rw [salt?_base64 hmin hmax, hash?_base64 hhash hhash']
  rfl

end Encoded

/-- A password belongs to each hash that is made of it. -/
theorem verify_hash {h : Hasher} (hmemory : 8 ≤ h.memory) (hpasses : 1 ≤ h.passes) (hmemory' : h.memory ≤ Word.maxNat32)
    (hpasses' : h.passes ≤ Word.maxNat32) {salt : List UInt8} (hmin : 8 ≤ salt.length) (hmax : salt.length ≤ 48)
    (password : String) : verify password (h.hash salt password) = true := by
  have hcost : Encoded.Admissible h.cost := by
    refine ⟨?_, hmemory', hpasses', ?_⟩
    · simp [Encoded.isCost, Hasher.cost, hmemory, hpasses]
    · show 1 ≤ Word.maxNat32
      decide
  have hlength := derive_length ⟨.id, .mixing, h.cost⟩ ⟨Text.Utf8.encode password, salt, [], []⟩ (show 32 ≤ 64 by decide)
  unfold verify Hasher.hash
  generalize hdigest : Argon2.derive ⟨.id, .mixing, h.cost⟩ ⟨Text.Utf8.encode password, salt, [], []⟩ 32 = digest
  rw [hdigest] at hlength
  dsimp only
  rw [Encoded.parse?_text hcost hmin hmax (by omega) (by omega)]
  dsimp only [Encoded.check]
  rw [hlength, hdigest]
  exact beq_self_eq_true _

end Password

end BlobDepot
