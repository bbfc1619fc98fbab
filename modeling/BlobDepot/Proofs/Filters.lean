import BlobDepot.Proofs.Grammar
import Mathlib.Data.List.Basic

/-!
# The language of filters

A text is read as a filter if and only if the lenient grammar derives the filter from it. The texts that make no use of
what this grammar adds are read as documented: `parsed_iff_derived`.
-/

namespace BlobDepot.Directory.Filter

open Text.Utf8 (ofChars)

/-! ## Filters -/

def readParts (fuel : Nat) (make : List Filter → Filter) (c : Cursor) : Except Fault (Filter × Cursor) := do
  let (parts, c) ← readList fuel (c.skip 1)
  if parts.isEmpty then c.fail .emptyList else pure (make parts, c)

def readBody (fuel : Nat) (c : Cursor) : Except Fault (Filter × Cursor) :=
  match c.rest.head? with
  | none => c.fail .unexpectedEnd
  | some 38 => readParts fuel all c
  | some 124 => readParts fuel any c
  | some 33 => do
    let (part, c) ← read fuel (c.skip 1)
    pure (not part, c)
  | some _ => readItem c

theorem readParts_bind {β : Type} (fuel : Nat) (make : List Filter → Filter) (c : Cursor)
    (k : Filter × Cursor → Except Fault β) : (readParts fuel make c >>= k) = readList fuel (c.skip 1) >>= fun x =>
      if x.1.isEmpty then x.2.fail .emptyList >>= k else k (make x.1, x.2) := by
  unfold readParts
  cases readList fuel (c.skip 1) with
  | error e => rfl
  | ok x =>
    obtain ⟨parts, c'⟩ := x
    cases parts <;> rfl

theorem read_succ (fuel : Nat) (c : Cursor) :
    read (fuel + 1) c = (do
      let c ← c.expect 40
      let (f, c) ← readBody fuel c
      pure (f, ← c.expect 41)) := by
  rw [read]
  unfold readBody
  congr 1
  funext c
  dsimp only
  -- What follows a branch is the same for all of them.
  rcases c.rest.head? with _ | b
  · rfl
  by_cases hall : b = 38
  · subst hall
    exact (readParts_bind fuel all c _).symm
  by_cases hany : b = 124
  · subst hany
    exact (readParts_bind fuel any c _).symm
  by_cases hnot : b = 33
  · subst hnot
    cases read fuel (c.skip 1) <;> rfl
  · simp only

def Sound (fuel : Nat) : Prop :=
  ∀ {l : List Char} {n : Nat} {f : Filter} {c : Cursor}, read fuel ⟨ofChars l, n⟩ = .ok (f, c) →
    ∃ t r, l = t ++ r ∧ c.rest = ofChars r ∧ Derives true t f

def ListSound (fuel : Nat) : Prop :=
  ∀ {l : List Char} {n : Nat} {fs : List Filter} {c : Cursor}, readList fuel ⟨ofChars l, n⟩ = .ok (fs, c) →
    ∃ (parts : List (List Char × Filter)) (r : List Char), l = parts.flatMap Prod.fst ++ r ∧ c.rest = ofChars r ∧
      fs = parts.map Prod.snd ∧ ∀ p ∈ parts, Derives true p.1 p.2

theorem readParts_ok {fuel : Nat} (hlist : ListSound fuel) {make : List Filter → Filter} {d : Char}
    (hd : d.toNat < 128) {l : List Char} {n : Nat} {f : Filter} {c : Cursor}
    (h : readParts fuel make ⟨ofChars (d :: l), n⟩ = .ok (f, c)) :
    ∃ (parts : List (List Char × Filter)) (r : List Char), parts ≠ [] ∧ l = parts.flatMap Prod.fst ++ r ∧
      c.rest = ofChars r ∧ f = make (parts.map Prod.snd) ∧ ∀ p ∈ parts, Derives true p.1 p.2 := by
  unfold readParts at h
  rw [skip_one hd] at h
  obtain ⟨⟨fs, c'⟩, hparts, hout⟩ := bind_eq_ok.mp h
  obtain ⟨parts, r, rfl, hr, rfl, hderives⟩ := hlist hparts
  dsimp only at hout
  split at hout
  · cases hout
  · next hne =>
    cases hout
    refine ⟨parts, r, ?_, rfl, hr, rfl, hderives⟩
    rintro rfl
    exact hne rfl

theorem readBody_ok {fuel : Nat} (hread : Sound fuel) (hlist : ListSound fuel) {l : List Char} {n : Nat} {f : Filter}
    {c : Cursor} (h : readBody fuel ⟨ofChars l, n⟩ = .ok (f, c)) :
    ∃ t r, l = t ++ r ∧ c.rest = ofChars r ∧ Derives true ('(' :: t ++ [')']) f := by
  unfold readBody at h
  dsimp only at h
  split at h
  · cases h
  · next hhead =>
    obtain ⟨l, rfl⟩ := exists_of_head? (d := '&') (by decide) hhead
    obtain ⟨parts, r, hne, rfl, hr, rfl, hderives⟩ := readParts_ok hlist (by decide) h
    exact ⟨'&' :: parts.flatMap Prod.fst, r, rfl, hr, .all hne hderives⟩
  · next hhead =>
    obtain ⟨l, rfl⟩ := exists_of_head? (d := '|') (by decide) hhead
    obtain ⟨parts, r, hne, rfl, hr, rfl, hderives⟩ := readParts_ok hlist (by decide) h
    exact ⟨'|' :: parts.flatMap Prod.fst, r, rfl, hr, .any hne hderives⟩
  · next hhead =>
    obtain ⟨l, rfl⟩ := exists_of_head? (d := '!') (by decide) hhead
    rw [skip_one (by decide)] at h
    obtain ⟨⟨part, c'⟩, hpart, hout⟩ := bind_eq_ok.mp h
    obtain ⟨t, r, rfl, hr, hderives⟩ := hread hpart
    cases hout
    exact ⟨'!' :: t, r, rfl, hr, .not hderives⟩
  · next b h38 h124 h33 hhead =>
    have hfirst : ∀ x ∈ l.head?, x ∉ operators := by
      intro x hx hop
      obtain ⟨l', rfl⟩ := List.head?_eq_some_iff.mp hx
      have hbytes : ∀ x ∈ operators, UInt8.ofNat x.toNat = 38 ∨ UInt8.ofNat x.toNat = 124 ∨
          UInt8.ofNat x.toNat = 33 := by simp [operators]
      rw [Text.Utf8.ofChars_cons_ascii (operators_ascii x hop)] at hhead
      obtain rfl := Option.some.inj hhead
      rcases hbytes x hop with hb | hb | hb
      · exact h38 hb
      · exact h124 hb
      · exact h33 hb
    obtain ⟨t, r, rfl, hr, hitem⟩ := readItem_ok hfirst h
    exact ⟨t, r, rfl, hr, .item hitem⟩

theorem read_sound (fuel : Nat) : Sound fuel ∧ ListSound fuel := by
  -- Both readers at once: each of them calls the other one with one less of fuel.
  induction fuel with
  | zero =>
    constructor
    · intro l n f c h
      cases h
    · intro l n fs c h
      cases h
      exact ⟨[], l, rfl, rfl, rfl, fun _ hp => nomatch hp⟩
  | succ fuel ih =>
    obtain ⟨hread, hlist⟩ := ih
    constructor
    · intro l n f c h
      rw [read_succ] at h
      obtain ⟨c₁, hopen, h⟩ := bind_eq_ok.mp h
      obtain ⟨l, rfl, rfl⟩ := expect_ok (d := '(') (by decide) hopen
      obtain ⟨⟨g, ⟨_, p⟩⟩, hbody, h⟩ := bind_eq_ok.mp h
      obtain ⟨t, r, rfl, rfl, hderives⟩ := readBody_ok hread hlist hbody
      obtain ⟨c₃, hclose, h⟩ := bind_eq_ok.mp h
      obtain ⟨r, rfl, rfl⟩ := expect_ok (d := ')') (by decide) hclose
      cases h
      exact ⟨'(' :: t ++ [')'], r, by simp, rfl, hderives⟩
    · intro l n fs c h
      rw [readList] at h
      split at h
      · obtain ⟨⟨f, ⟨_, p⟩⟩, hfirst, h⟩ := bind_eq_ok.mp h
        obtain ⟨t, r, rfl, rfl, hderives⟩ := hread hfirst
        obtain ⟨⟨fs, c'⟩, hrest, h⟩ := bind_eq_ok.mp h
        obtain ⟨parts, r, rfl, hr, rfl, hparts⟩ := hlist hrest
        cases h
        refine ⟨(t, f) :: parts, r, by simp, hr, rfl, fun p hp => ?_⟩
        rcases List.mem_cons.mp hp with rfl | hp
        · exact hderives
        · exact hparts p hp
      · cases h
        exact ⟨[], l, rfl, rfl, rfl, fun _ hp => nomatch hp⟩

def Reads (t : List Char) (f : Filter) : Prop :=
  ∀ fuel : Nat, t.length ≤ fuel → ∀ (l : List Char) (n : Nat),
    ∃ p, read fuel ⟨ofChars (t ++ l), n⟩ = .ok (f, ⟨ofChars l, p⟩)

theorem Derives.exists_cons {lenient : Bool} {t : List Char} {f : Filter} (h : Derives lenient t f) :
    ∃ t', t = '(' :: t' := by
  cases h <;> exact ⟨_, rfl⟩

theorem readList_close (fuel : Nat) (l : List Char) (n : Nat) :
    readList fuel ⟨ofChars (')' :: l), n⟩ = .ok ([], ⟨ofChars (')' :: l), n⟩) := by
  cases fuel with
  | zero => rfl
  | succ fuel =>
    rw [Text.Utf8.ofChars_cons_ascii (by decide), readList]
    rfl

theorem readList_open {fuel : Nat} {l r : List Char} (hl : l = '(' :: r) {n : Nat} {f : Filter} {c : Cursor}
    (h : read fuel ⟨ofChars l, n⟩ = .ok (f, c)) :
    readList (fuel + 1) ⟨ofChars l, n⟩ = (readList fuel c).map fun x => (f :: x.1, x.2) := by
  have hhead : (ofChars l).head? = some 40 := by
    rw [hl, Text.Utf8.ofChars_cons_ascii (by decide)]
    rfl
  rw [readList, if_pos hhead, h, bind_ok]
  dsimp only
  cases readList fuel c <;> rfl

theorem readList_text {lenient : Bool} {parts : List (List Char × Filter)}
    (hderives : ∀ p ∈ parts, Derives lenient p.1 p.2) (hreads : ∀ p ∈ parts, Reads p.1 p.2) (fuel : Nat)
    (hfuel : (parts.flatMap Prod.fst).length < fuel) (l : List Char) (n : Nat) :
    ∃ p, readList fuel ⟨ofChars (parts.flatMap Prod.fst ++ ')' :: l), n⟩ =
      .ok (parts.map Prod.snd, ⟨ofChars (')' :: l), p⟩) := by
  induction parts generalizing fuel n with
  | nil => exact ⟨n, readList_close fuel l n⟩
  | cons part parts ih =>
    obtain ⟨fuel, rfl⟩ := Nat.exists_eq_add_one_of_ne_zero (Nat.ne_of_gt (Nat.zero_lt_of_lt hfuel))
    obtain ⟨t, f⟩ := part
    have hd : Derives lenient t f := hderives (t, f) List.mem_cons_self
    have hr : Reads t f := hreads (t, f) List.mem_cons_self
    obtain ⟨t', ht⟩ := hd.exists_cons
    have hlength : t.length = t'.length + 1 := by rw [ht, List.length_cons]
    simp only [List.flatMap_cons, List.length_append] at hfuel
    obtain ⟨p, hp⟩ := hr fuel (by omega) (parts.flatMap Prod.fst ++ ')' :: l) n
    obtain ⟨q, hq⟩ := ih (fun x hx => hderives x (List.mem_cons_of_mem _ hx))
      (fun x hx => hreads x (List.mem_cons_of_mem _ hx)) fuel (by omega) p
    refine ⟨q, ?_⟩
    rw [List.flatMap_cons, List.append_assoc]
    exact (readList_open (by rw [ht, List.cons_append]) hp).trans (congrArg _ hq)

theorem reads_of_body {t : List Char} {f : Filter}
    (h : ∀ fuel : Nat, t.length < fuel → ∀ (l : List Char) (n : Nat),
      ∃ p, readBody fuel ⟨ofChars (t ++ ')' :: l), n⟩ = .ok (f, ⟨ofChars (')' :: l), p⟩)) :
    Reads ('(' :: t ++ [')']) f := by
  intro fuel hfuel l n
  simp only [List.cons_append, List.length_append, List.length_cons, List.length_nil] at hfuel
  obtain ⟨fuel, rfl⟩ := Nat.exists_eq_add_one_of_ne_zero (show fuel ≠ 0 by omega)
  obtain ⟨p, hp⟩ := h fuel (by omega) l (n + 1)
  refine ⟨p + 1, ?_⟩
  have hopen : Cursor.expect ⟨ofChars ('(' :: (t ++ ')' :: l)), n⟩ 40 = .ok ⟨ofChars (t ++ ')' :: l), n + 1⟩ :=
    expect_cons (d := '(') (by decide) _ _
  have hclose : Cursor.expect ⟨ofChars (')' :: l), p⟩ 41 = .ok ⟨ofChars l, p + 1⟩ :=
    expect_cons (d := ')') (by decide) _ _
  have htext : '(' :: t ++ [')'] ++ l = '(' :: (t ++ ')' :: l) := by simp
  rw [htext, read_succ, hopen, bind_ok, hp, bind_ok]
  show (Cursor.expect ⟨ofChars (')' :: l), p⟩ 41 >>= _) = _
  rw [hclose]
  rfl

theorem readBody_all {fuel : Nat} {l : List Char} {n : Nat} :
    readBody fuel ⟨ofChars ('&' :: l), n⟩ = readParts fuel all ⟨ofChars ('&' :: l), n⟩ := by
  rw [Text.Utf8.ofChars_cons_ascii (by decide)]
  rfl

theorem readBody_any {fuel : Nat} {l : List Char} {n : Nat} :
    readBody fuel ⟨ofChars ('|' :: l), n⟩ = readParts fuel any ⟨ofChars ('|' :: l), n⟩ := by
  rw [Text.Utf8.ofChars_cons_ascii (by decide)]
  rfl

theorem readBody_not {fuel : Nat} {l : List Char} {n : Nat} :
    readBody fuel ⟨ofChars ('!' :: l), n⟩ = (read fuel ⟨ofChars l, n + 1⟩ >>= fun x => .ok (.not x.1, x.2)) := by
  rw [Text.Utf8.ofChars_cons_ascii (by decide)]
  rfl

theorem readBody_item {fuel : Nat} {x : Char} {l : List Char} {n : Nat} (hx : x ∉ operators) :
    readBody fuel ⟨ofChars (x :: l), n⟩ = readItem ⟨ofChars (x :: l), n⟩ := by
  obtain ⟨b, r, hb⟩ := List.exists_cons_of_ne_nil (String.utf8EncodeChar_ne_nil (c := x))
  have hne : ∀ d ∈ operators, b ≠ UInt8.ofNat d.toNat := by
    intro d hd
    refine Text.Utf8.ne_of_mem_encodeChar (operators_ascii d hd) ?_ (hb ▸ List.mem_cons_self)
    rintro rfl
    exact hx hd
  have hhead : (ofChars (x :: l)).head? = some b := by
    rw [Text.Utf8.ofChars_cons, hb]
    rfl
  have hall : b ≠ 38 := hne '&' (by decide)
  have hany : b ≠ 124 := hne '|' (by decide)
  have hnot : b ≠ 33 := hne '!' (by decide)
  unfold readBody
  dsimp only
  rw [hhead]
  split <;> simp_all

theorem readParts_text {lenient : Bool} {parts : List (List Char × Filter)} (hne : parts ≠ [])
    (hderives : ∀ p ∈ parts, Derives lenient p.1 p.2) (hreads : ∀ p ∈ parts, Reads p.1 p.2)
    (make : List Filter → Filter) {d : Char} (hd : d.toNat < 128) {fuel : Nat}
    (hfuel : (d :: parts.flatMap Prod.fst).length < fuel) (l : List Char) (n : Nat) :
    ∃ p, readParts fuel make ⟨ofChars (d :: parts.flatMap Prod.fst ++ ')' :: l), n⟩ =
      .ok (make (parts.map Prod.snd), ⟨ofChars (')' :: l), p⟩) := by
  rw [List.length_cons] at hfuel
  obtain ⟨p, hp⟩ := readList_text hderives hreads fuel (by omega) l (n + 1)
  refine ⟨p, ?_⟩
  unfold readParts
  rw [List.cons_append, skip_one hd, hp, bind_ok]
  exact if_neg (by simpa using hne)

theorem Derives.reads {lenient : Bool} {t : List Char} {f : Filter} (h : Derives lenient t f) : Reads t f := by
  induction h with
  | @all parts hne hparts ih =>
    refine reads_of_body fun fuel hfuel l n => ?_
    rw [List.cons_append, readBody_all]
    exact readParts_text hne hparts ih .all (by decide) hfuel l n
  | @any parts hne hparts ih =>
    refine reads_of_body fun fuel hfuel l n => ?_
    rw [List.cons_append, readBody_any]
    exact readParts_text hne hparts ih .any (by decide) hfuel l n
  | @not t f _ ih =>
    refine reads_of_body fun fuel hfuel l n => ?_
    obtain ⟨p, hp⟩ := ih fuel (Nat.le_of_lt (Nat.lt_of_succ_lt hfuel)) (')' :: l) (n + 1)
    refine ⟨p, ?_⟩
    rw [List.cons_append, readBody_not, hp]
    rfl
  | @item t f hitem =>
    refine reads_of_body fun fuel hfuel l n => ?_
    obtain ⟨p, hp⟩ := readItem_text hitem l n
    obtain ⟨x, r, rfl, hx⟩ := hitem.exists_cons
    exact ⟨p, by rwa [List.cons_append, readBody_item hx]⟩

/-- The grammar is unambiguous. -/
theorem Derives.unique {lenient lenient' : Bool} {t : List Char} {f g : Filter} (hf : Derives lenient t f)
    (hg : Derives lenient' t g) : f = g := by
  obtain ⟨p, hp⟩ := hf.reads _ (Nat.le_refl _) [] 0
  obtain ⟨q, hq⟩ := hg.reads _ (Nat.le_refl _) [] 0
  rw [hp] at hq
  cases hq
  rfl

/-- What is read of a text is what the lenient grammar derives from it. -/
theorem parse_eq_ok {s : String} {f : Filter} : parse s = .ok f ↔ Derives true (Text.trimChars s.toList) f := by
  have hbytes : Text.Utf8.encode (Text.trim s) = ofChars (Text.trimChars s.toList) := Text.Utf8.encode_ofList _
  unfold parse
  rw [hbytes]
  generalize Text.trimChars s.toList = t
  dsimp only
  constructor
  · intro h
    obtain ⟨⟨g, c⟩, hread, hout⟩ := bind_eq_ok.mp h
    obtain ⟨t, r, rfl, hr, hderives⟩ := (read_sound _).1 hread
    dsimp only at hout
    split at hout
    · next hrest =>
      cases hout
      obtain rfl := Text.Utf8.ofChars_eq_nil (hr.symm.trans (List.isEmpty_iff.mp hrest))
      rwa [List.append_nil]
    · cases hout
  · intro h
    -- a derivation is read with fuel for each of its characters, and `parse` has it for each byte twice
    have hfuel : t.length ≤ 2 * (ofChars t).length + 1 := by
      have := Text.Utf8.length_le_length_ofChars t
      omega
    obtain ⟨p, hp⟩ := h.reads _ hfuel [] 0
    rw [List.append_nil] at hp
    rw [hp]
    rfl

/-! ## The documented grammar -/

theorem ValueText.lenient {strict : Bool} {t : List Char} {bytes : List UInt8} (h : ValueText strict t bytes) :
    ValueText true t bytes := by
  induction h with
  | nil => exact .nil
  | char hc _ ih => exact .char hc ih
  | escape hx hy _ ih => exact .escape hx hy ih
  | signed _ hy _ ih => exact .signed rfl hy ih

theorem Item.lenient {strict : Bool} {t : List Char} {f : Filter} (h : Item strict t f) : Item true t f := by
  cases h with
  | equal hn ht hvalue => exact .equal hn ht.lenient hvalue
  | present hn _ => exact .present hn nofun

theorem Derives.lenient {strict : Bool} {t : List Char} {f : Filter} (h : Derives strict t f) : Derives true t f := by
  induction h with
  | all hne _ ih => exact .all hne ih
  | any hne _ ih => exact .any hne ih
  | not _ ih => exact .not ih
  | item hitem => exact .item hitem.lenient

/-- Somewhere between an equality sign and the next parenthesis, an escape begins with a plus sign, or two asterisks
stand side by side. -/
def Lax (t : List Char) : Prop :=
  ∃ before value after, t = before ++ '=' :: value ++ after ∧ '(' ∉ value ∧ ')' ∉ value ∧
    (['\\', '+'] <:+ value ∨ ['*', '*'] <:+ value)

theorem Lax.append {t : List Char} (h : Lax t) (before after : List Char) : Lax (before ++ t ++ after) := by
  obtain ⟨a, value, b, rfl, h⟩ := h
  exact ⟨before ++ a, value, b ++ after, by simp, h⟩

theorem Lax.of_within {name value : List Char} (hopen : '(' ∉ value) (hclose : ')' ∉ value)
    (h : ['\\', '+'] <:+: value ∨ ['*', '*'] <:+: value) : Lax (name ++ '=' :: value) := by
  rcases h with ⟨a, b, rfl⟩ | ⟨a, b, rfl⟩
  all_goals simp only [List.mem_append, not_or] at hopen hclose
  · exact ⟨name, a ++ ['\\', '+'], b, by simp, by simp [hopen.1.1], by simp [hclose.1.1], .inl ⟨a, rfl⟩⟩
  · exact ⟨name, a ++ ['*', '*'], b, by simp, by simp [hopen.1.1], by simp [hclose.1.1], .inr ⟨a, rfl⟩⟩

theorem ne_paren_of_hexValue? {c : Char} {n : Nat} (h : hexValue? c = some n) : '(' ≠ c ∧ ')' ≠ c := by
  constructor
  · rintro rfl
    cases h
  · rintro rfl
    cases h

theorem ValueText.notMem_paren {lenient : Bool} {t : List Char} {bytes : List UInt8} (h : ValueText lenient t bytes) :
    '(' ∉ t ∧ ')' ∉ t := by
  induction h with
  | nil => exact ⟨List.not_mem_nil, List.not_mem_nil⟩
  | char hc _ ih =>
    simp only [valueMarks, List.mem_cons, List.not_mem_nil, or_false, not_or] at hc
    exact ⟨List.not_mem_cons_of_ne_of_not_mem (Ne.symm hc.1) ih.1,
      List.not_mem_cons_of_ne_of_not_mem (Ne.symm hc.2.1) ih.2⟩
  | escape hx hy _ ih =>
    obtain ⟨hx, hx'⟩ := ne_paren_of_hexValue? hx
    obtain ⟨hy, hy'⟩ := ne_paren_of_hexValue? hy
    simp [hx, hx', hy, hy', ih]
  | signed _ hy _ ih =>
    obtain ⟨hy, hy'⟩ := ne_paren_of_hexValue? hy
    simp [hy, hy', ih]

theorem ValueText.strict {t : List Char} {bytes : List UInt8} (h : ValueText true t bytes) :
    ValueText false t bytes ∨ ['\\', '+'] <:+: t := by
  induction h with
  | nil => exact .inl .nil
  | char hc _ ih => exact ih.imp (.char hc) fun h => h.trans (List.suffix_cons _ _).isInfix
  | @escape x y _ _ _ _ hx hy _ ih => exact ih.imp (.escape hx hy) fun h => h.trans ⟨['\\', x, y], [], by simp⟩
  | signed _ _ _ _ => exact .inr ⟨[], _, rfl⟩

theorem Item.strict {t : List Char} {f : Filter} (h : Item true t f) : Item false t f ∨ Lax t := by
  cases h with
  | equal hn ht hvalue =>
    obtain ⟨hopen, hclose⟩ := ht.notMem_paren
    exact ht.strict.imp (.equal hn · hvalue) fun h => .of_within hopen hclose (.inl h)
  | @present name n hn _ =>
    cases n with
    | zero => exact .inl (.present hn fun _ => rfl)
    | succ n => exact .inr (.of_within (by simp [List.mem_replicate]) (by simp [List.mem_replicate]) (.inr ⟨[], _, rfl⟩))

theorem Derives.strict {t : List Char} {f : Filter} (h : Derives true t f) (hlax : ¬Lax t) : Derives false t f := by
  have hpart : ∀ {parts : List (List Char × Filter)} {a b : List Char}, ¬Lax (a ++ parts.flatMap Prod.fst ++ b) →
      ∀ p ∈ parts, ¬Lax p.1 := by
    intro parts a b hlax p hp h
    obtain ⟨l, r, rfl⟩ := List.append_of_mem hp
    refine hlax ?_
    have := h.append (a ++ l.flatMap Prod.fst) (r.flatMap Prod.fst ++ b)
    simpa using this
  induction h with
  | all hne _ ih => exact .all hne fun p hp => ih p hp (hpart (a := ['(', '&']) hlax p hp)
  | any hne _ ih => exact .any hne fun p hp => ih p hp (hpart (a := ['(', '|']) hlax p hp)
  | not _ ih => exact .not (ih fun h => hlax (h.append ['(', '!'] [')']))
  | item hitem => exact .item (hitem.strict.resolve_right fun h => hlax (h.append ['('] [')']))

/-- A text is read as the filter that the grammar derives from it, and as no other one. Between an equality sign and
the next parenthesis, a plus sign may stand for the first digit of an escape, and asterisks may be repeated; the other
texts are read as documented. -/
theorem parsed_iff_derived (s : String) (f : Filter) :
    (parse s = .ok f ↔ Derives true (Text.trimChars s.toList) f) ∧
      (¬Lax (Text.trimChars s.toList) → (parse s = .ok f ↔ Derives false (Text.trimChars s.toList) f)) := by
  refine ⟨parse_eq_ok, fun hlax => parse_eq_ok.trans ?_⟩
  exact ⟨fun h => h.strict hlax, Derives.lenient⟩

theorem Lax.exists_within {t : List Char} (h : Lax t) : ['\\', '+'] <:+: t ∨ ['*', '*'] <:+: t := by
  obtain ⟨a, value, b, rfl, -, -, h⟩ := h
  have hvalue : value <:+: a ++ '=' :: value ++ b := ⟨a ++ ['='], b, by simp⟩
  exact h.imp (fun h => h.isInfix.trans hvalue) fun h => h.isInfix.trans hvalue

theorem parsed_iff_derived_nested :
    ¬Lax (Text.trimChars " (&(objectClass=person)(!(uid=a\\2ab))(cn=*))".toList) ∧
      Derives false (Text.trimChars " (&(objectClass=person)(!(uid=a\\2ab))(cn=*))".toList)
        (.all [.equal "objectClass" "person", .not (.equal "uid" "a*b"), .present "cn"]) := by
  have hlax : ¬Lax (Text.trimChars " (&(objectClass=person)(!(uid=a\\2ab))(cn=*))".toList) :=
    fun h => absurd h.exists_within (by decide +kernel)
  have hparse : parse " (&(objectClass=person)(!(uid=a\\2ab))(cn=*))" =
      .ok (.all [.equal "objectClass" "person", .not (.equal "uid" "a*b"), .present "cn"]) := rfl
  exact ⟨hlax, ((parsed_iff_derived _ _).2 hlax).mp hparse⟩

/-! ### Texts that the documented grammar does not have -/

theorem Item.value {lenient : Bool} {name value : List Char} {f : Filter} (h : Item lenient (name ++ '=' :: value) f)
    (hname : '=' ∉ name) (hvalue : '=' ∉ value) : (∃ bytes, ValueText lenient value bytes) ∨
      ∃ n, value = List.replicate (n + 1) '*' ∧ (lenient = false → n = 0) := by
  generalize htext : name ++ '=' :: value = t at h
  cases h with
  | equal _ ht _ =>
    obtain ⟨-, -, rfl⟩ := (List.append_cons_inj_of_notMem hname hvalue).mp htext
    exact .inl ⟨_, ht⟩
  | @present _ n _ hone =>
    obtain ⟨-, -, rfl⟩ := (List.append_cons_inj_of_notMem hname hvalue).mp htext
    exact .inr ⟨n, rfl, hone⟩

theorem Derives.item_value {lenient : Bool} {name value : List Char} {f : Filter}
    (h : Derives lenient ('(' :: (name ++ '=' :: value) ++ [')']) f) (hn : NameText name) (hvalue : '=' ∉ value) :
    (∃ bytes, ValueText lenient value bytes) ∨
      ∃ n, value = List.replicate (n + 1) '*' ∧ (lenient = false → n = 0) := by
  have hname : '=' ∉ name := fun hmem => hn.unmarked _ hmem List.mem_cons_self
  obtain ⟨x, r, rfl, hx⟩ := hn.exists_cons
  generalize htext : '(' :: (x :: r ++ '=' :: value) ++ [')'] = t at h
  have hfirst : ∀ {y : Char} {s : List Char}, y ∈ operators → '(' :: (x :: r ++ '=' :: value) ++ [')'] ≠ '(' :: y :: s := by
    rintro y s hy heq
    injection (List.cons.inj heq).2 with hxy
    exact hx (hxy ▸ hy)
  cases h with
  | all _ _ => exact absurd htext (hfirst (by decide))
  | any _ _ => exact absurd htext (hfirst (by decide))
  | not _ => exact absurd htext (hfirst (by decide))
  | item hitem =>
    obtain rfl := List.append_cancel_right (List.cons.inj htext).2
    exact hitem.value hname hvalue

theorem laxity_is_accepted :
    (parse "(uid=\\+a)" = .ok (.equal "uid" "\n") ∧ ∀ f, ¬Derives false (Text.trimChars "(uid=\\+a)".toList) f) ∧
      parse "(uid=**)" = .ok (.present "uid") ∧ ∀ f, ¬Derives false (Text.trimChars "(uid=**)".toList) f := by
  have huid : NameText ['u', 'i', 'd'] := ⟨by simp [nameMarks], ⟨'u', by decide, by decide⟩, by simp [operators]⟩
  have hplus : parse "(uid=\\+a)" = .ok (.equal "uid" "\n") := rfl
  have hstars : parse "(uid=**)" = .ok (.present "uid") := rfl
  refine ⟨⟨hplus, fun f h => ?_⟩, hstars, fun f h => ?_⟩
  · have htext : Text.trimChars "(uid=\\+a)".toList = '(' :: (['u', 'i', 'd'] ++ '=' :: ['\\', '+', 'a']) ++ [')'] :=
      rfl
    rw [htext] at h
    rcases h.item_value huid (by decide) with ⟨bytes, hvalue⟩ | ⟨n, hvalue, -⟩
    · cases hvalue with
      | char hmark _ => exact hmark (by decide)
      | escape hhex _ _ => cases hhex
      | signed hlenient _ _ => cases hlenient
    · exact absurd (List.cons.inj hvalue).1 (by decide)
  · have htext : Text.trimChars "(uid=**)".toList = '(' :: (['u', 'i', 'd'] ++ '=' :: ['*', '*']) ++ [')'] := rfl
    rw [htext] at h
    rcases h.item_value huid (by decide) with ⟨bytes, hvalue⟩ | ⟨n, hvalue, hone⟩
    · cases hvalue with
      | char hmark _ => exact hmark (by decide)
    · rw [hone rfl] at hvalue
      exact absurd hvalue (by decide)

end BlobDepot.Directory.Filter
