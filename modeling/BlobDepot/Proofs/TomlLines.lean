import BlobDepot.Encoding.Toml.Reader
import BlobDepot.Proofs.Readings
import BlobDepot.Proofs.Parts
import BlobDepot.Proofs.TomlTexts

/-!
# Lines of TOML

A line that is written for a field, or for the header of a table, is read back as what it was written for.
-/

namespace BlobDepot.Toml

open Reading

/-! ## Whole numbers -/

theorem digitBelow?_digitChar : ∀ d < 10, digitBelow? 10 d.digitChar = some d := by
  decide

theorem mapM_digitBelow? : ∀ {l : List Char}, (∀ c ∈ l, (digitBelow? 10 c).isSome = true) →
    l.mapM (digitBelow? 10) = some (l.map fun c => (digitBelow? 10 c).getD 0)
  | [], _ => rfl
  | c :: r, h => by
    obtain ⟨d, hd⟩ := Option.isSome_iff_exists.mp (h c List.mem_cons_self)
    have hr := mapM_digitBelow? fun e he => h e (List.mem_cons_of_mem c he)
    simp [List.mapM_cons, hd, hr]

theorem digits?_toDigits (n : Nat) : ∃ ds, digits? 10 (Nat.toDigits 10 n) = some ds ∧ ofDigits 10 ds = n := by
  have hsplit : Text.splitList '_' (Nat.toDigits 10 n) = [Nat.toDigits 10 n] :=
    Text.splitList_of_notMem Nat.underscore_not_in_toDigits
  have hdigits := Text.isSome_of_mem_toDigits (by decide) digitBelow?_digitChar n
  refine ⟨(Nat.toDigits 10 n).map fun c => (digitBelow? 10 c).getD 0, ?_, ?_⟩
  · simp [digits?, hsplit, Nat.toDigits_ne_nil, mapM_digitBelow? hdigits]
  · rw [ofDigits, List.foldl_map]
    exact Text.foldl_toDigits (by decide) digitBelow?_digitChar n

theorem wholeDigits?_toDigits (n : Nat) : wholeDigits? (Nat.toDigits 10 n) = digits? 10 (Nat.toDigits 10 n) := by
  apply if_neg
  rintro ⟨hzero, hne⟩
  by_cases hn : n = 0
  · exact hne (by rw [hn, Nat.toDigits_zero])
  · exact Text.head?_toDigits_ne hn hzero

theorem notMem_toDigits {c : Char} (hc : c.isDigit = false) (n : Nat) : c ∉ Nat.toDigits 10 n := by
  intro h
  rw [Nat.isDigit_of_mem_toDigits (by decide) (by decide) h] at hc
  cases hc

theorem int?_toDigits {n : Nat} (hn : (n : Int) ≤ Word.maxInt64) : int? (Nat.toDigits 10 n) = some (.int n) := by
  have hother (c : Char) (hc : c.isDigit = false) (first : Char) (r : List Char) :
      Nat.toDigits 10 n ≠ first :: c :: r := fun h => notMem_toDigits hc n (by simp [h])
  have hsigned : signed (Nat.toDigits 10 n) = (false, Nat.toDigits 10 n) := by
    unfold signed
    split
    · next h => exact absurd (h ▸ List.mem_cons_self) (notMem_toDigits (by decide) n)
    · next h => exact absurd (h ▸ List.mem_cons_self) (notMem_toDigits (by decide) n)
    · rfl
  obtain ⟨ds, hds, hvalue⟩ := digits?_toDigits n
  have hlow : Word.minInt64 ≤ (n : Int) := Int.le_trans (by decide) (Int.natCast_nonneg n)
  unfold int?
  split
  · next h => exact absurd h (hother 'x' (by decide) '0' _)
  · next h => exact absurd h (hother 'o' (by decide) '0' _)
  · next h => exact absurd h (hother 'b' (by decide) '0' _)
  · simp [hsigned, wholeDigits?_toDigits, hds, hvalue, int64?, hlow, hn]

/-! ## Tokens -/

theorem mapM_char_suffix {p : Char → Bool} : ∀ {k : Nat} {l x r : List Char},
    ((List.replicate k ()).mapM fun _ => char p) l = some (x, r) → r <:+ l
  | 0, l, x, r, h => by
    cases h
    exact List.suffix_refl l
  | k + 1, l, x, r, h => by
    simp only [List.replicate_succ, List.mapM_cons, bind_apply, pure_apply, Option.bind_eq_some_iff] at h
    obtain ⟨⟨c, r₁⟩, hchar, ⟨x₁, r₂⟩, hrest, hpure⟩ := h
    cases hpure
    cases l with
    | nil => cases hchar
    | cons e r₃ =>
      rw [char_cons] at hchar
      split at hchar
      · cases hchar
        exact (mapM_char_suffix hrest).trans (List.suffix_cons c _)
      · cases hchar

theorem digitField_suffix {width low high n : Nat} {l r : List Char} (h : digitField width low high l = some (n, r)) :
    r <:+ l := by
  simp only [digitField, bind_apply, Option.bind_eq_some_iff] at h
  obtain ⟨⟨x, r₁⟩, hdigits, hrest⟩ := h
  split at hrest
  · cases hrest
    exact mapM_char_suffix hdigits
  · cases hrest

/-- A mark that stands nowhere in a text does not follow on what has been read of it. -/
theorem bind_symbol_eq_none {α β : Type} {x : Reading α} {l : List Char} {c : Char}
    (hx : ∀ {a : α} {r : List Char}, x l = some (a, r) → r <:+ l) (hc : c ∉ l) (f : α → Unit → Reading β) :
    (x >>= fun a => symbol c >>= f a) l = none := by
  rw [bind_apply]
  cases hread : x l with
  | none => rfl
  | some p =>
    obtain ⟨a, r⟩ := p
    have hr : symbol c r = none := symbol_of_head? fun hhead => hc ((hx hread).subset (List.mem_of_head? hhead))
    simp [hr]

theorem takesAll_moment {l : List Char} (hcolon : ':' ∉ l) (hdash : '-' ∉ l) : moment.takesAll l = false := by
  have hdate : date l = none := bind_symbol_eq_none digitField_suffix hdash _
  have htime : time l = none := by
    refine bind_symbol_eq_none (fun h => ?_) hcolon _
    rw [discard_apply, Option.map_eq_some_iff] at h
    obtain ⟨⟨n, r⟩, hfield, hpair⟩ := h
    cases hpair
    exact digitField_suffix hfield
  have hmoment : moment l = none := by
    simp [moment, hdate, htime]
  rw [Reading.takesAll, hmoment]

theorem token?_toDigits {n : Nat} (hn : (n : Int) ≤ Word.maxInt64) : token? (Nat.toDigits 10 n) = some (.int n) := by
  have htrue : Nat.toDigits 10 n ≠ ['t', 'r', 'u', 'e'] := fun h =>
    notMem_toDigits (c := 't') (by decide) n (by simp [h])
  have hfalse : Nat.toDigits 10 n ≠ ['f', 'a', 'l', 's', 'e'] := fun h =>
    notMem_toDigits (c := 'f') (by decide) n (by simp [h])
  have hmoment := takesAll_moment (notMem_toDigits (c := ':') (by decide) n) (notMem_toDigits (c := '-') (by decide) n)
  simp [token?, htrue, hfalse, hmoment, int?_toDigits hn]

theorem isSpace_of_isTokenChar {c : Char} (h : isTokenChar c = true) : isSpace c = false := by
  rw [Bool.eq_false_iff]
  intro hspace
  simp only [isSpace, Bool.or_eq_true, decide_eq_true_eq] at hspace
  rcases hspace with rfl | rfl <;> cases h

/-- A token that stands at the end of its line. -/
theorem scalar_of_token? {l rest : List Char} {t : Tree} (hne : l ≠ []) (hl : ∀ c ∈ l, isTokenChar c = true)
    (ht : token? l = some t) (hrest : rest.head? = some '\n') : scalar (l ++ rest) = some (t, rest) := by
  obtain ⟨r, rfl⟩ := List.head?_eq_some_iff.mp hrest
  have htake : (l ++ '\n' :: r).takeWhile isTokenChar = l := by
    rw [List.takeWhile_append_of_pos hl]
    simp [isTokenChar]
  have hdrop : (l ++ '\n' :: r).dropWhile isTokenChar = '\n' :: r := by
    rw [List.dropWhile_append_of_pos hl]
    simp [isTokenChar]
  have htime : timeAfter l ('\n' :: r) = none := rfl
  simp [scalar, htake, hdrop, htime, ht, hne]

/-! ## Values on one line -/

/-- What stands on the line of its key, and has no parts. -/
inductive IsInline : Value → Prop where
  | text (s : String) : IsInline (.text s)
  | bool (b : Bool) : IsInline (.bool b)
  | nat {n : Nat} (hn : (n : Int) ≤ Word.maxInt64) : IsInline (.nat n)
  | empty : IsInline (.list [])

mutual

def tree : Value → Tree
  | .null => .null
  | .bool b => .bool b
  | .int n => .int n
  | .text s => .text s
  | .list items => .list (trees items) none none
  | .record fields => .record (treeFields fields) none

def trees : List Value → List Tree
  | [] => []
  | v :: r => tree v :: trees r

def treeFields : List (String × Value) → List (Label × Tree)
  | [] => []
  | (s, v) :: r => (.text s, tree v) :: treeFields r

end

theorem quotedText_of_other {c : Char} (hdouble : c ≠ '"') (hsingle : c ≠ '\'') (s : List Char) :
    quotedText (c :: s) = none := by
  simp [quotedText, lineText, longText_of_other hdouble, longText_of_other hsingle, shortText_of_other hdouble,
    shortText_of_other hsingle]

theorem list_of_other {c : Char} (hc : c ≠ '[') (v : Reading Tree) (s : List Char) : list v (c :: s) = none := by
  simp [list, hc]

theorem record_of_other {c : Char} (hc : c ≠ '\x7b') (v : Reading Tree) (s : List Char) :
    record v (c :: s) = none := by
  simp [record, hc]

theorem value_bracket (room : Nat) (s : List Char) : value room (']' :: s) = none := by
  have htext : quotedText (']' :: s) = none := quotedText_of_other (by decide) (by decide) s
  have hscalar : scalar (']' :: s) = none := by simp [scalar, isTokenChar]
  cases room with
  | zero => simp [value, htext, hscalar]
  | succ room => simp [value, htext, hscalar, list_of_other, record_of_other]

@[simp] theorem tree_bool (b : Bool) : tree (.bool b) = .bool b := rfl

@[simp] theorem tree_text (s : String) : tree (.text s) = .text s := rfl

@[simp] theorem tree_nat (n : Nat) : tree (.nat n) = .int n := rfl

@[simp] theorem tree_record (fields : List (String × Value)) : tree (.record fields) = .record (treeFields fields) none :=
  rfl

theorem tree_list (items : List Value) : tree (.list items) = .list (items.map tree) none none := by
  have htrees : ∀ items : List Value, trees items = items.map tree := by
    intro items
    induction items with
    | nil => rfl
    | cons v r ih => rw [trees, ih, List.map_cons]
  rw [tree, htrees]

theorem spaces_apply (s : List Char) : spaces s = some ((), s.dropWhile isSpace) := rfl

theorem gap_bracket (s : List Char) : gap (']' :: s) = some ((), ']' :: s) := by
  have hmany : many (do discard (optional comment); newline; spaces) (']' :: s) = some ([], ']' :: s) :=
    many_of_chain (.stop (by simp [comment, newline]))
  have hspaces : spaces (']' :: s) = some ((), ']' :: s) := rfl
  simp only [gap, bind_apply, hspaces, Option.bind_some, discard_apply, hmany]
  rfl

theorem list_bracket (room : Nat) (s : List Char) : list (value room) ('[' :: ']' :: s) = some (.list [] none none, s) := by
  have hitems : items (value room) (']' :: s) = some ([], ']' :: s) := by
    simp [items, separated, gap_bracket, value_bracket]
  simp [list, hitems, gap_bracket]

theorem value_token {l rest : List Char} {t : Tree} (hne : l ≠ []) (hl : ∀ c ∈ l, isTokenChar c = true)
    (ht : token? l = some t) (hrest : rest.head? = some '\n') (room : Nat) :
    value (room + 1) (l ++ rest) = some (t, rest) := by
  have hscalar := scalar_of_token? hne hl ht hrest
  obtain ⟨c, r, rfl⟩ := List.exists_cons_of_ne_nil hne
  have hc : isTokenChar c = true := hl c List.mem_cons_self
  have hother {d : Char} (hd : isTokenChar d = false) : c ≠ d := fun h => by
    rw [← h, hc] at hd
    cases hd
  rw [List.cons_append] at hscalar ⊢
  simp [value, quotedText_of_other (hother (d := '"') (by decide)) (hother (by decide)), list_of_other (hother (by decide)),
    record_of_other (hother (by decide)), hscalar]

theorem head?_text (s : String) : ∀ c ∈ (text s).head?, isSpace c = false := by
  intro c hc
  cases hstyle : style s.toList <;> simp [text, hstyle, delimiter] at hc <;> subst hc <;> rfl

/-- A value is read back from its line. -/
theorem value_inline? {v : Value} (hv : IsInline v) (room : Nat) : ∃ l, inline? v = some l ∧
    (∀ c ∈ l.head?, isSpace c = false) ∧
    ∀ rest : List Char, rest.head? = some '\n' → value (room + 1) (l ++ rest) = some (tree v, rest) := by
  cases hv with
  | text s =>
    refine ⟨text s, rfl, head?_text s, fun rest hrest => ?_⟩
    have hread : quotedText (text s ++ rest) = some (s, rest) := quotedText_text s (by simp [hrest]) (by simp [hrest])
    simp [value, hread, tree]
  | bool b =>
    cases b with
    | false =>
      have htoken := List.all_eq_true.mp (rfl : ['f', 'a', 'l', 's', 'e'].all isTokenChar = true)
      refine ⟨_, rfl, fun c hc => ?_, fun rest hrest => value_token (by decide) htoken rfl hrest room⟩
      exact isSpace_of_isTokenChar (htoken c (List.mem_of_head? hc))
    | true =>
      have htoken := List.all_eq_true.mp (rfl : ['t', 'r', 'u', 'e'].all isTokenChar = true)
      refine ⟨_, rfl, fun c hc => ?_, fun rest hrest => value_token (by decide) htoken rfl hrest room⟩
      exact isSpace_of_isTokenChar (htoken c (List.mem_of_head? hc))
  | @nat n hn =>
    have hlow : Word.minInt64 ≤ (n : Int) := Int.le_trans (by decide) (Int.natCast_nonneg n)
    have htoken : ∀ c ∈ Nat.toDigits 10 n, isTokenChar c = true := fun c hc => by
      simp [isTokenChar, Char.isAlphanum, Nat.isDigit_of_mem_toDigits (by decide) (by decide) hc]
    refine ⟨Nat.toDigits 10 n, by simp [Value.nat, inline?, hlow, hn, Text.decimal_natCast], ?_, fun rest hrest => ?_⟩
    · exact fun c hc => isSpace_of_isTokenChar (htoken c (List.mem_of_head? hc))
    · exact value_token Nat.toDigits_ne_nil htoken (token?_toDigits hn) hrest room
  | empty =>
    refine ⟨['[', ']'], rfl, ?_, fun rest _ => ?_⟩
    · rintro _ ⟨⟩
      rfl
    · simp [value, quotedText_of_other, list_bracket, tree, trees]

/-! ## Keys -/

def IsBare (k : String) : Prop :=
  k ≠ "" ∧ ∀ c ∈ k.toList, isBareChar c = true

instance (k : String) : Decidable (IsBare k) :=
  decidable_of_iff (k ≠ "" ∧ k.toList.all isBareChar = true) (and_congr_right fun _ => List.all_eq_true)

theorem keyText_bare {k : String} (hk : IsBare k) : keyText k = k.toList := by
  have hall : k.toList.all isBareChar = true := List.all_eq_true.mpr hk.2
  simp [keyText, hk.1, hall]

def keyPart : Reading String := do
  spaces
  let part ← lineText <|> String.ofList <$> run1 isBareChar
  spaces
  pure part

theorem isTokenChar_of_isBareChar {c : Char} (h : isBareChar c = true) : isTokenChar c = true := by
  simp only [isBareChar, Bool.or_eq_true] at h
  rcases h with (h | h) | h <;> simp [isTokenChar, h]

/-- The first character of a key. -/
theorem exists_cons_of_isBare {k : String} (hk : IsBare k) : ∃ c r, k.toList = c :: r ∧ isBareChar c = true := by
  obtain ⟨c, r, hcons⟩ := List.exists_cons_of_ne_nil fun h => hk.1 (String.toList_eq_nil_iff.mp h)
  exact ⟨c, r, hcons, hk.2 c (hcons ▸ List.mem_cons_self)⟩

theorem ne_of_isBareChar {c d : Char} (hc : isBareChar c = true) (hd : isBareChar d = false) : c ≠ d := fun h => by
  rw [← h, hc] at hd
  cases hd

theorem keyPart_bare {k : String} (hk : IsBare k) {rest : List Char} (hrest : ∀ c ∈ rest.head?, isBareChar c = false) :
    keyPart (k.toList ++ rest) = some (k, rest.dropWhile isSpace) := by
  obtain ⟨c, r, hcons, hc⟩ := exists_cons_of_isBare hk
  have hstop : rest.takeWhile isBareChar = [] ∧ rest.dropWhile isBareChar = rest := by
    cases rest with
    | nil => exact ⟨rfl, rfl⟩
    | cons d r => simp [hrest d rfl]
  have hbare : run1 isBareChar (k.toList ++ rest) = some (k.toList, rest) := by
    simp [List.takeWhile_append_of_pos hk.2, List.dropWhile_append_of_pos hk.2, hstop, hk.1]
  have hspaces : (k.toList ++ rest).dropWhile isSpace = k.toList ++ rest := by
    simp [hcons, isSpace_of_isTokenChar (isTokenChar_of_isBareChar hc)]
  have hmarks : lineText (k.toList ++ rest) = none := by
    rw [hcons, List.cons_append, lineText, orElse_apply, shortText_of_other (ne_of_isBareChar hc (by decide)),
      shortText_of_other (ne_of_isBareChar hc (by decide))]
    rfl
  simp only [keyPart, bind_apply, spaces_apply, hspaces, Option.bind_some, orElse_apply, hmarks, map_apply, hbare]
  simp

def dotted (path : List String) : List Char :=
  path.flatMap fun k => '.' :: k.toList

theorem headerText_cons {k : String} {path : List String} (h : ∀ p ∈ k :: path, IsBare p) :
    headerText (k :: path) = k.toList ++ dotted path := by
  induction path generalizing k with
  | nil => simp [headerText, dotted, keyText_bare (h k List.mem_cons_self)]
  | cons k' path ih =>
    have hcut : headerText (k :: k' :: path) = keyText k ++ '.' :: headerText (k' :: path) := by
      simp [headerText, List.intercalate]
    rw [hcut, keyText_bare (h k List.mem_cons_self), ih fun p hp => h p (List.mem_cons_of_mem k hp)]
    simp [dotted]

theorem exists_cons_of_headerText {path : List String} (hne : path ≠ []) (h : ∀ p ∈ path, IsBare p) :
    ∃ c r, headerText path = c :: r ∧ isBareChar c = true := by
  obtain ⟨k, path, rfl⟩ := List.exists_cons_of_ne_nil hne
  obtain ⟨c, r, hcons, hc⟩ := exists_cons_of_isBare (h k List.mem_cons_self)
  exact ⟨c, r ++ dotted path, by rw [headerText_cons h, hcons, List.cons_append], hc⟩

theorem head?_dotted {rest : List Char} (hrest : rest.head? = some ']') (path : List String) :
    (dotted path ++ rest).dropWhile isSpace = dotted path ++ rest ∧
      ∀ c ∈ (dotted path ++ rest).head?, isBareChar c = false := by
  cases path with
  | nil =>
    obtain ⟨r, rfl⟩ := List.head?_eq_some_iff.mp hrest
    exact ⟨rfl, by simp [dotted, isBareChar]⟩
  | cons k path => exact ⟨rfl, by simp [dotted, isBareChar]⟩

theorem chain_dotted {rest : List Char} (hrest : rest.head? = some ']') : ∀ {path : List String},
    (∀ k ∈ path, IsBare k) → Chain (do symbol '.'; keyPart) (dotted path ++ rest) path rest
  | [], _ => by
    obtain ⟨r, rfl⟩ := List.head?_eq_some_iff.mp hrest
    exact .stop rfl
  | k :: path, h => by
    obtain ⟨hspaces, hstop⟩ := head?_dotted hrest path
    have hitem : (do symbol '.'; keyPart) (dotted (k :: path) ++ rest) = some (k, dotted path ++ rest) := by
      have hpart := keyPart_bare (h k List.mem_cons_self) hstop
      rw [hspaces] at hpart
      simp [dotted] at hpart ⊢
      exact hpart
    refine .step hitem ?_ (chain_dotted hrest fun p hp => h p (List.mem_cons_of_mem k hp))
    simp only [dotted, List.flatMap_cons, List.length_append, List.length_cons]
    omega

theorem key_headerText {path : List String} (hne : path ≠ []) (hpath : ∀ k ∈ path, IsBare k)
    (hlength : path.length < depth) {r : List Char} (hr : r.head? = some ']') :
    key (headerText path ++ r) = some (path, r) := by
  obtain ⟨k, path, rfl⟩ := List.exists_cons_of_ne_nil hne
  obtain ⟨hspaces, hstop⟩ := head?_dotted hr path
  have hpart := keyPart_bare (hpath k List.mem_cons_self) hstop
  rw [hspaces] at hpart
  have hchain := chain_dotted hr fun p hp => hpath p (List.mem_cons_of_mem k hp)
  have hseparated := separated_of_chain hpart hchain
  change (separated (symbol '.') keyPart >>= _) _ = _
  rw [headerText_cons hpath, List.append_assoc, bind_apply, hseparated, Option.bind_some, if_pos hlength]
  rfl

theorem key_equals {k : String} (hk : IsBare k) (rest : List Char) :
    key (k.toList ++ ' ' :: '=' :: rest) = some ([k], '=' :: rest) := by
  have hpart : keyPart (k.toList ++ ' ' :: '=' :: rest) = some (k, '=' :: rest) := keyPart_bare hk (by simp [isBareChar])
  have hchain : Chain (do symbol '.'; keyPart) ('=' :: rest) [] ('=' :: rest) := .stop rfl
  have hseparated := separated_of_chain hpart hchain
  change (separated (symbol '.') keyPart >>= _) _ = _
  rw [bind_apply, hseparated]
  rfl

/-! ## Lines -/

theorem readLine_of_content {s rest : List Char} {l : Line} (hne : s ≠ []) (hspaces : s.dropWhile isSpace = s)
    (hl : (readItemHeader <|> readHeader <|> readField <|> pure Line.blank) s = some (l, '\n' :: rest)) :
    readLine s = some (l, rest) := by
  have hend : lineRest ('\n' :: rest) = some ((), rest) := rfl
  have hempty : s.isEmpty = false := List.isEmpty_eq_false_iff.mpr hne
  unfold readLine
  generalize (readItemHeader <|> readHeader <|> readField <|> pure Line.blank) = content at hl ⊢
  rw [bind_apply, atEnd_apply, Option.bind_some, hempty]
  simp [spaces_apply, hspaces, hl, hend]

theorem readLine_field {k : String} {v : Value} (hk : IsBare k) (hv : IsInline v) : ∃ l, inline? v = some l ∧
    ∀ rest, readLine (keyText k ++ " = ".toList ++ l ++ '\n' :: rest) = some (.field [] k (tree v), rest) := by
  obtain ⟨l, hl, hspace, hread⟩ := value_inline? hv (depth - 2)
  obtain ⟨c, r, hcons, hc⟩ := exists_cons_of_isBare hk
  refine ⟨l, hl, fun rest => ?_⟩
  have hkey := key_equals hk (' ' :: (l ++ '\n' :: rest))
  have hvalue : value (depth - 1) (l ++ '\n' :: rest) = some (tree v, '\n' :: rest) := hread _ rfl
  have hdrop : (l ++ '\n' :: rest).dropWhile isSpace = l ++ '\n' :: rest := by
    cases l with
    | nil => rfl
    | cons d l => simp [hspace d rfl]
  have hfield : readField (k.toList ++ ' ' :: '=' :: ' ' :: (l ++ '\n' :: rest)) =
      some (.field [] k (tree v), '\n' :: rest) := by
    simp [readField, assignment, hkey, spaces_apply, isSpace, hdrop, hvalue]
  have htext : keyText k ++ " = ".toList ++ l ++ '\n' :: rest = k.toList ++ ' ' :: '=' :: ' ' :: (l ++ '\n' :: rest) := by
    simp [keyText_bare hk]
  rw [htext]
  rw [hcons, List.cons_append] at hfield ⊢
  have hbracket : c ≠ '[' := ne_of_isBareChar hc (by decide)
  apply readLine_of_content (by simp)
  · simp [isSpace_of_isTokenChar (isTokenChar_of_isBareChar hc)]
  · simp [readItemHeader, readHeader, hbracket, hfield]

theorem readLine_blank (rest : List Char) : readLine ('\n' :: rest) = some (.blank, rest) := by
  apply readLine_of_content (by simp) (by simp [isSpace])
  have hfield : readField ('\n' :: rest) = none := rfl
  simp [readItemHeader, readHeader, hfield]

theorem readLine_itemHeader {path : List String} {k : String} (hpath : ∀ p ∈ path ++ [k], IsBare p)
    (hlength : (path ++ [k]).length < depth) (rest : List Char) :
    readLine ('[' :: '[' :: (headerText (path ++ [k]) ++ ']' :: ']' :: '\n' :: rest)) =
      some (.itemHeader path k, rest) := by
  have hkey := key_headerText (by simp) hpath hlength (r := ']' :: ']' :: '\n' :: rest) rfl
  apply readLine_of_content (by simp) (by simp [isSpace])
  simp [readItemHeader, hkey]

theorem readLine_header {path : List String} {k : String} (hpath : ∀ p ∈ path ++ [k], IsBare p)
    (hlength : (path ++ [k]).length < depth) (rest : List Char) :
    readLine ('[' :: (headerText (path ++ [k]) ++ ']' :: '\n' :: rest)) = some (.header path k, rest) := by
  have hkey := key_headerText (by simp) hpath hlength (r := ']' :: '\n' :: rest) rfl
  have hhead : symbol '[' (headerText (path ++ [k]) ++ ']' :: '\n' :: rest) = none := by
    obtain ⟨c, r, hcons, hc⟩ := exists_cons_of_headerText (by simp) hpath
    have hbracket : c ≠ '[' := ne_of_isBareChar hc (by decide)
    simp [hcons, hbracket]
  apply readLine_of_content (by simp) (by simp [isSpace])
  simp [readItemHeader, readHeader, hkey, hhead]

end BlobDepot.Toml
