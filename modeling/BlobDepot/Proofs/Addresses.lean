import BlobDepot.Config.Address
import BlobDepot.Proofs.Readings
import Mathlib.Control.Basic
import Mathlib.Data.List.TakeWhile
import Mathlib.Data.Option.Basic

/-!
# Socket addresses as texts

An address is read back from its own text: `parse?_text`. The groups that the text of an address of the sixth version
leaves out are zeros, and so many of them that the length tells how many.
-/

namespace BlobDepot.SocketAddress

/-! ## Numbers -/

section

variable {base limit n : Nat} {value? : Char → Option Nat} {rest : List Char}

theorem takeNumber?_toDigits (hbase : 1 < base) (hvalue : ∀ d < base, value? d.digitChar = some d) (hn : n < limit)
    (hrest : ∀ c ∈ rest.head?, value? c = none) :
    takeNumber? base limit value? (Nat.toDigits base n ++ rest) = some (n, rest) := by
  have hstop : rest.takeWhile (fun c => (value? c).isSome) = [] := by
    cases rest with
    | nil => rfl
    | cons c r => simp [hrest c rfl]
  have htake : (Nat.toDigits base n ++ rest).takeWhile (fun c => (value? c).isSome) = Nat.toDigits base n := by
    rw [List.takeWhile_append_of_pos (Text.isSome_of_mem_toDigits hbase hvalue n), hstop, List.append_nil]
  rw [takeNumber?, htake, Text.foldl_toDigits hbase hvalue, List.drop_left]
  simp [Nat.toDigits_ne_nil, hn]

theorem takeNumber?_rest {l : List Char} (h : takeNumber? base limit value? l = some (n, rest)) :
    rest = l.dropWhile fun c => (value? c).isSome := by
  simp only [takeNumber?, Option.ite_none_left_eq_some, Option.some.injEq, Prod.mk.injEq] at h
  have hdrop := @List.drop_left _ (l.takeWhile fun c => (value? c).isSome)
    (l.dropWhile fun c => (value? c).isSome)
  rw [List.takeWhile_append_dropWhile] at hdrop
  exact h.2.2.symm.trans hdrop

theorem takeDecimal?_decimal (hn : n < limit) (hrest : ∀ c ∈ rest.head?, Text.digitValue? c = none) :
    takeDecimal? limit ((Text.decimal n).toList ++ rest) = some (n, rest) := by
  rw [Text.decimal_natCast, String.toList_ofList]
  exact takeNumber?_toDigits (by decide) Text.digitValue?_digitChar hn hrest

end

theorem port?_decimal (port : UInt16) : port? (':' :: (Text.decimal port.toNat).toList) = some port := by
  have hnumber : takeDecimal? 65536 ((Text.decimal port.toNat).toList ++ []) = some (port.toNat, []) :=
    takeDecimal?_decimal port.toNat_lt (by simp)
  rw [List.append_nil] at hnumber
  simp [port?, takeChar?, hnumber]

theorem takeScope?_decimal {scope : UInt32} {rest : List Char} (hrest : rest.head? = some ']') :
    takeScope? ((if scope = 0 then [] else '%' :: (Text.decimal scope.toNat).toList) ++ rest) = some (scope, rest) := by
  by_cases h : scope = 0
  · obtain ⟨r, rfl⟩ := List.head?_eq_some_iff.mp hrest
    simp [h, takeScope?, takeChar?]
  · have hnumber : takeDecimal? 4294967296 ((Text.decimal scope.toNat).toList ++ rest) = some (scope.toNat, rest) :=
      takeDecimal?_decimal scope.toNat_lt (by simp [hrest, Text.digitValue?])
    simp [h, takeScope?, takeChar?, hnumber]

/-! ## The fourth version -/

theorem takeOctet?_decimal (n : UInt8) {rest : List Char} (hrest : ∀ c ∈ rest.head?, Text.digitValue? c = none) :
    takeOctet? ((Text.decimal n.toNat).toList ++ rest) = some (n, rest) := by
  rw [takeOctet?, takeDecimal?_decimal n.toNat_lt hrest]
  simp [Text.decimal_natCast]

theorem takeIpv4?_text (ip : Ipv4) {rest : List Char} (hrest : ∀ c ∈ rest.head?, Text.digitValue? c = none) :
    takeIpv4? (ip.text ++ rest) = some (ip, rest) := by
  have hdot : ∀ r : List Char, ∀ c ∈ ('.' :: r).head?, Text.digitValue? c = none := by
    intro r c hc
    obtain rfl := Option.some.inj hc
    rfl
  simp [takeIpv4?, Ipv4.text, takeOctet?_decimal _ (hdot _), takeOctet?_decimal _ hrest, takeChar?]

/-- An octet ends where the decimal digits do, so a group that no full stop follows is no address of this version. -/
theorem takeIpv4?_eq_none {l : List Char} (h : (l.dropWhile fun c => (Text.digitValue? c).isSome).head? ≠ some '.') :
    takeIpv4? l = none := by
  cases hoctet : takeOctet? l with
  | none => simp [takeIpv4?, hoctet]
  | some p =>
    obtain ⟨a, r⟩ := p
    have hr : r = l.dropWhile fun c => (Text.digitValue? c).isSome := by
      simp only [takeOctet?, takeDecimal?, Option.bind_eq_bind, Option.bind_eq_some_iff] at hoctet
      obtain ⟨⟨n, r'⟩, hnumber, _, -, hpure⟩ := hoctet
      cases hpure
      exact takeNumber?_rest hnumber
    rw [← hr] at h
    have hchar : takeChar? '.' r = none := by
      cases r with
      | nil => rfl
      | cons c r => exact if_neg fun hc => h (by rw [← hc]; rfl)
    simp [takeIpv4?, hoctet, hchar]

theorem parseV4?_text (ip : Ipv4) (port : UInt16) :
    parseV4? (ip.text ++ ':' :: (Text.decimal port.toNat).toList) = some (v4 ip port) := by
  have hip : takeIpv4? (ip.text ++ ':' :: (Text.decimal port.toNat).toList) = some (ip, _) :=
    takeIpv4?_text ip (by simp [Text.digitValue?])
  simp [parseV4?, hip, port?_decimal]

/-! ## The sixth version -/

theorem hexValue?_digitChar : ∀ d < 16, hexValue? d.digitChar = some d := by
  decide

theorem takeGroup?_toDigits (g : UInt16) {rest : List Char} (hrest : ∀ c ∈ rest.head?, hexValue? c = none) :
    takeGroup? (Nat.toDigits 16 g.toNat ++ rest) = some (g, rest) := by
  have hlength : (Nat.toDigits 16 g.toNat).length ≤ 4 :=
    (Nat.length_toDigits_le_iff (by decide) (by decide)).mpr g.toNat_lt
  rw [takeGroup?, takeNumber?_toDigits (by decide) hexValue?_digitChar g.toNat_lt hrest]
  simp [hlength]

inductive Stops : List Char → Prop where
  | bracket (r : List Char) : Stops (']' :: r)
  | scope (r : List Char) : Stops ('%' :: r)
  | gap (r : List Char) : Stops (':' :: ':' :: r)

theorem takeGroups_stop {rest : List Char} (h : Stops rest) (isFirst : Bool) (n : Nat) :
    takeGroups n isFirst rest = ([], false, rest) := by
  cases n with
  | zero => rfl
  | succ n => cases h <;> cases isFirst <;> cases n <;> rfl

def colonTexts (l : List UInt16) : List Char :=
  l.flatMap fun g => ':' :: Nat.toDigits 16 g.toNat

theorem groupTexts_cons (g : UInt16) (l : List UInt16) :
    Ipv6.groupTexts (g :: l) = Nat.toDigits 16 g.toNat ++ colonTexts l := by
  induction l generalizing g with
  | nil => simp [Ipv6.groupTexts, colonTexts]
  | cons k l ih =>
    have hcut : Ipv6.groupTexts (g :: k :: l) = Nat.toDigits 16 g.toNat ++ ':' :: Ipv6.groupTexts (k :: l) := by
      simp [Ipv6.groupTexts, List.intercalate]
    rw [hcut, ih k]
    simp [colonTexts]

theorem takeIpv4?_toDigits (g : Nat) {tail : List Char} (htail : ∀ c ∈ tail.head?, c = ':' ∨ c = ']' ∨ c = '%') :
    takeIpv4? (Nat.toDigits 16 g ++ tail) = none := by
  apply takeIpv4?_eq_none
  rw [List.dropWhile_append]
  split
  · have hkept : tail.dropWhile (fun c => (Text.digitValue? c).isSome) = tail := by
      cases tail with
      | nil => rfl
      | cons c r => rcases htail c rfl with rfl | rfl | rfl <;> rfl
    intro hdot
    rw [hkept] at hdot
    rcases htail '.' hdot with h | h | h <;> cases h
  · next hdigits =>
    obtain ⟨c, r, hc⟩ := List.exists_cons_of_ne_nil fun h => hdigits (List.isEmpty_iff.mpr h)
    have hmem : c ∈ Nat.toDigits 16 g := (List.dropWhile_sublist _).subset (hc ▸ List.mem_cons_self)
    intro hdot
    rw [hc] at hdot
    obtain rfl := Option.some.inj hdot
    cases Text.isSome_of_mem_toDigits (by decide) hexValue?_digitChar g _ hmem

theorem takeGroups_step (isFirst : Bool) {n : Nat} {l tail : List Char} {g : UInt16}
    {p : List UInt16 × Bool × List Char}
    (hstart : (if isFirst then some l else takeChar? ':' l) = some (Nat.toDigits 16 g.toNat ++ tail))
    (htail : ∀ c ∈ tail.head?, c = ':' ∨ c = ']' ∨ c = '%') (hrest : takeGroups n false tail = p) :
    takeGroups (n + 1) isFirst l = (g :: p.1, p.2) := by
  have hgroup : takeGroup? (Nat.toDigits 16 g.toNat ++ tail) = some (g, tail) :=
    takeGroup?_toDigits g fun c hc => by rcases htail c hc with rfl | rfl | rfl <;> rfl
  have hmapped : (if n = 0 then none else takeIpv4? (Nat.toDigits 16 g.toNat ++ tail)) = none := by
    rw [takeIpv4?_toDigits g.toNat htail, ite_self]
  simp only [takeGroups, hstart, Option.bind_some, hmapped, hgroup, hrest]

theorem head?_colonTexts {rest : List Char} (h : Stops rest) (l : List UInt16) :
    ∀ c ∈ (colonTexts l ++ rest).head?, c = ':' ∨ c = ']' ∨ c = '%' := by
  cases l with
  | nil => cases h <;> simp [colonTexts]
  | cons g l => simp [colonTexts]

theorem takeGroups_colonTexts {rest : List Char} (h : Stops rest) : ∀ {l : List UInt16} {n : Nat}, l.length ≤ n →
    takeGroups n false (colonTexts l ++ rest) = (l, false, rest)
  | [], n, _ => takeGroups_stop h false n
  | g :: l, n + 1, hn => by
    refine takeGroups_step false ?_ (head?_colonTexts h l) (takeGroups_colonTexts h (Nat.le_of_succ_le_succ hn))
    simp [colonTexts, takeChar?]

theorem takeGroups_groupTexts {rest : List Char} (h : Stops rest) : ∀ {l : List UInt16} {n : Nat}, l.length ≤ n →
    takeGroups n true (Ipv6.groupTexts l ++ rest) = (l, false, rest)
  | [], n, _ => takeGroups_stop h true n
  | g :: l, n + 1, hn => by
    rw [groupTexts_cons, List.append_assoc]
    exact takeGroups_step true rfl (head?_colonTexts h l) (takeGroups_colonTexts h (Nat.le_of_succ_le_succ hn))

/-- The longest run is one of zeros. -/
theorem exists_longestRun : ∀ (l : List UInt16) (place : Nat), ∃ before after,
    (Ipv6.longestRun place l).1 = place + before.length ∧
      l = before ++ List.replicate (Ipv6.longestRun place l).2 0 ++ after
  | [], place => ⟨[], [], rfl, rfl⟩
  | g :: r, place => by
    rw [Ipv6.longestRun]
    split
    · refine ⟨[], (g :: r).dropWhile (· == 0), rfl, ?_⟩
      have hzeros : (g :: r).takeWhile (· == 0) = List.replicate ((g :: r).takeWhile (· == 0)).length 0 :=
        List.eq_replicate_of_mem fun k hk => eq_of_beq (List.mem_takeWhile_imp (p := (· == 0)) hk)
      rw [List.nil_append, ← hzeros, List.takeWhile_append_dropWhile]
    · obtain ⟨before, after, hplace, hl⟩ := exists_longestRun r (place + 1)
      refine ⟨g :: before, after, ?_, ?_⟩
      · rw [hplace, List.length_cons]
        omega
      · rw [List.cons_append, List.cons_append, ← hl]

theorem ofGroups?_eq {l : List UInt16} {ip : Ipv6} (h : l = ip.groups) : ofGroups? l = some ip := by
  subst h
  exact dif_pos ip.length_eq

/-- The zeros between two parts of an address. -/
theorem takeIpv6?_gap {ip : Ipv6} {head tail : List UInt16} {mapped : Bool} {l m rest : List Char}
    (hhead : takeGroups 8 true l = (head, false, ':' :: ':' :: m)) (hlength : head.length ≠ 8)
    (htail : takeGroups (7 - head.length) true m = (tail, mapped, rest))
    (hgroups : head ++ List.replicate (8 - head.length - tail.length) 0 ++ tail = ip.groups) :
    takeIpv6? l = some (ip, rest) := by
  rw [List.append_assoc] at hgroups
  simp [takeIpv6?, hhead, hlength, htail, ofGroups?_eq hgroups, takeChar?]

theorem joinBytes_bytes (g : UInt16) : joinBytes (UInt8.ofNat (g.toNat / 256)) (UInt8.ofNat g.toNat) = g := by
  have hlt : g.toNat < 65536 := g.toNat_lt
  apply UInt16.toNat_inj.mp
  simp only [joinBytes, UInt8.toNat_ofNat', UInt16.toNat_ofNat']
  omega

theorem takeIpv6?_mapped {ip : Ipv6} {g h : UInt16} (hgroups : ip.groups = [0, 0, 0, 0, 0, 0xffff, g, h])
    {rest : List Char} (hrest : ∀ c ∈ rest.head?, Text.digitValue? c = none) :
    let byte (n : Nat) := UInt8.ofNat n
    takeIpv6? (':' :: ':' :: 'f' :: 'f' :: 'f' :: 'f' :: ':' ::
      (Ipv4.text ⟨byte (g.toNat / 256), byte g.toNat, byte (h.toNat / 256), byte h.toNat⟩ ++ rest)) =
        some (ip, rest) := by
  intro byte
  have hmapped (v : Ipv4) : takeGroups 6 false (':' :: (v.text ++ rest)) =
      ([joinBytes v.a v.b, joinBytes v.c v.d], true, rest) := by
    simp [takeGroups, takeChar?, takeIpv4?_text v hrest]
  have htail (v : Ipv4) : takeGroups 7 true ('f' :: 'f' :: 'f' :: 'f' :: ':' :: (v.text ++ rest)) =
      ([0xffff, joinBytes v.a v.b, joinBytes v.c v.d], true, rest) :=
    takeGroups_step true (g := 0xffff) rfl (by simp) (hmapped v)
  refine takeIpv6?_gap (takeGroups_stop (.gap _) true 8) (by decide) (htail _) ?_
  rw [joinBytes_bytes, joinBytes_bytes, hgroups]
  rfl

/-- The zeros that are left out are as many as there are fewer than eight groups. -/
theorem takeIpv6?_run {ip : Ipv6} {before after : List UInt16} {length : Nat}
    (hgroups : ip.groups = before ++ List.replicate length 0 ++ after) (hlong : 1 < length) {rest : List Char}
    (hrest : Stops rest) :
    takeIpv6? (Ipv6.groupTexts before ++ ':' :: ':' :: (Ipv6.groupTexts after ++ rest)) = some (ip, rest) := by
  have hlength := congrArg List.length hgroups
  simp only [ip.length_eq, List.length_append, List.length_replicate] at hlength
  refine takeIpv6?_gap (takeGroups_groupTexts (.gap _) (by omega)) (by omega)
    (takeGroups_groupTexts hrest (by omega)) ?_
  rw [hgroups]
  congr 3
  omega

theorem takeIpv6?_text (ip : Ipv6) {rest : List Char} (h : rest.head? = some ']' ∨ rest.head? = some '%') :
    takeIpv6? (ip.text ++ rest) = some (ip, rest) := by
  have hstops : Stops rest := by
    rcases h with h | h <;> obtain ⟨r, rfl⟩ := List.head?_eq_some_iff.mp h
    · exact .bracket r
    · exact .scope r
  have hend : ∀ c ∈ rest.head?, Text.digitValue? c = none := by
    intro c hc
    rcases h with h | h <;> rw [Option.mem_def.mp hc] at h <;> cases h <;> rfl
  unfold Ipv6.text
  split
  · next g h hgroups => exact takeIpv6?_mapped hgroups hend
  · obtain ⟨before, after, hstart, hgroups⟩ := exists_longestRun ip.groups 0
    generalize Ipv6.longestRun 0 ip.groups = run at hstart hgroups
    obtain ⟨start, length⟩ := run
    obtain rfl : start = before.length := by simpa using hstart
    dsimp only
    split
    · next hlong =>
      have hbefore : ip.groups.take before.length = before := by
        rw [hgroups, List.append_assoc, List.take_left]
      have hafter : ip.groups.drop (before.length + length) = after := by
        rw [hgroups]
        exact List.drop_left' (by simp)
      rw [hbefore, hafter, List.append_assoc]
      exact takeIpv6?_run hgroups hlong hstops
    · have hread : takeGroups 8 true (Ipv6.groupTexts ip.groups ++ rest) = (ip.groups, false, rest) :=
        takeGroups_groupTexts hstops (Nat.le_of_eq ip.length_eq)
      simp [takeIpv6?, hread, ip.length_eq, ofGroups?_eq rfl]

theorem parseV6?_text (ip : Ipv6) (scope : UInt32) (port : UInt16) :
    parseV6? (v6 ip scope port).text.toList = some (v6 ip scope port) := by
  obtain ⟨tail, htail⟩ : ∃ tail, tail = (if scope = 0 then [] else '%' :: (Text.decimal scope.toNat).toList) ++
      ']' :: ':' :: (Text.decimal port.toNat).toList := ⟨_, rfl⟩
  have htext : (v6 ip scope port).text.toList = '[' :: (ip.text ++ tail) := by
    simp [text, htail]
  have hscope : takeScope? tail = some (scope, ']' :: ':' :: (Text.decimal port.toNat).toList) := by
    rw [htail]
    exact takeScope?_decimal rfl
  have hhead : tail.head? = some ']' ∨ tail.head? = some '%' := by
    rw [htail]
    split
    · exact .inl rfl
    · exact .inr rfl
  simp [parseV6?, htext, takeChar?, takeIpv6?_text ip hhead, hscope, port?_decimal]

theorem parse?_text (a : SocketAddress) : parse? a.text = some a := by
  cases a with
  | v4 ip port => simp [parse?, text, parseV4?_text]
  | v6 ip scope port =>
    have hfourth : parseV4? (v6 ip scope port).text.toList = none := by
      simp [text, parseV4?, takeIpv4?_eq_none, Text.digitValue?]
    rw [parse?, hfourth, parseV6?_text]
    rfl

end BlobDepot.SocketAddress
