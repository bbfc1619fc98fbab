import BlobDepot.Encoding.Toml.Writer
import BlobDepot.Proofs.Readings
import Mathlib.Tactic.SplitIfs

/-!
# Texts of TOML

A text is read back from the form that it is written in: `quotedText_text`. The form is read from its end towards its
front, so that each character meets what is already known to be read behind it.
-/

namespace BlobDepot.Toml

open Reading

/-- The text that parts, and what closes them, spell out. -/
def Spells (item close : Reading (List Char)) (s l rest : List Char) : Prop :=
  ∃ parts m k, Chain item s parts m ∧ close m = some (k, rest) ∧ parts.flatten ++ k = l

namespace Spells

variable {item close : Reading (List Char)} {s l rest : List Char}

theorem stop (hend : item s = none) (hclose : close s = some (l, rest)) : Spells item close s l rest :=
  ⟨[], s, l, .stop hend, hclose, rfl⟩

theorem step {a s' : List Char} (hitem : item s = some (a, s')) (hless : s'.length < s.length)
    (h : Spells item close s' l rest) : Spells item close s (a ++ l) rest := by
  obtain ⟨parts, m, k, hchain, hclose, rfl⟩ := h
  exact ⟨a :: parts, m, k, .step hitem hless hchain, hclose, by simp⟩

/-- A run of plain characters is one part, which one more such character in front makes longer. -/
theorem plain {p : Char → Bool} (hrun : ∀ s : List Char, s.takeWhile p ≠ [] → item s = some (s.takeWhile p, s.dropWhile p))
    {c : Char} (hc : p c = true) (h : Spells item close s l rest) : Spells item close (c :: s) (c :: l) rest := by
  have htake : (c :: s).takeWhile p = c :: s.takeWhile p := List.takeWhile_cons_of_pos hc
  have hdrop : (c :: s).dropWhile p = s.dropWhile p := List.dropWhile_cons_of_pos hc
  have hitem : item (c :: s) = some (c :: s.takeWhile p, s.dropWhile p) := by
    rw [hrun (c :: s) (by simp [htake]), htake, hdrop]
  have hsplit : s.takeWhile p ++ s.dropWhile p = s := List.takeWhile_append_dropWhile
  by_cases hempty : s.takeWhile p = []
  · rw [hempty, List.nil_append] at hsplit
    rw [hempty, hsplit] at hitem
    exact step hitem (Nat.lt_succ_self _) h
  · obtain ⟨parts, m, k, hchain, hclose, rfl⟩ := h
    cases hchain with
    | stop hend => cases hend.symm.trans (hrun s hempty)
    | step hfirst hless hchain =>
      cases hfirst.symm.trans (hrun s hempty)
      exact ⟨_, m, k, .step hitem (Nat.lt_succ_of_lt hless) hchain, hclose, by simp⟩

end Spells

/-! ## Marks -/

theorem takeWhile_marks {mark : Char} {s : List Char} (hs : s.head? ≠ some mark) (n : Nat) :
    (List.replicate n mark ++ s).takeWhile (· == mark) = List.replicate n mark ∧
      (List.replicate n mark ++ s).dropWhile (· == mark) = s := by
  have hmarks : ∀ c ∈ List.replicate n mark, (c == mark) = true := fun c hc => by
    simp [List.eq_of_mem_replicate hc]
  rw [List.takeWhile_append_of_pos hmarks, List.dropWhile_append_of_pos hmarks]
  cases s with
  | nil => simp
  | cons c r =>
    have hc : c ≠ mark := fun h => hs (by rw [h]; rfl)
    simp [hc]

def longPart (mark : Char) (part : Reading (List Char)) : Reading (List Char) :=
  part <|> lineBreak <|> innerMarks mark

section

variable {mark : Char} {part : Reading (List Char)} {s l rest : List Char}

theorem longPart_marks (hpart : ∀ s, part (mark :: s) = none) (hbreak : ∀ s, lineBreak (mark :: s) = none)
    (hs : s.head? ≠ some mark) (n : Nat) : longPart mark part (List.replicate (n + 1) mark ++ s) =
      if n + 1 ≤ 2 then some (List.replicate (n + 1) mark, s) else none := by
  obtain ⟨htake, hdrop⟩ := takeWhile_marks hs (n + 1)
  have hmarks : innerMarks mark (List.replicate (n + 1) mark ++ s) =
      if n + 1 ≤ 2 then some (List.replicate (n + 1) mark, s) else none := by
    by_cases h : n + 1 ≤ 2 <;> simp [innerMarks, htake, hdrop, h]
  rw [List.replicate_succ, List.cons_append] at hmarks ⊢
  simp [longPart, hpart, hbreak, hmarks]

theorem Spells.marks (hpart : ∀ s, part (mark :: s) = none) (hbreak : ∀ s, lineBreak (mark :: s) = none)
    (hs : s.head? ≠ some mark) {n : Nat} (hn : n ≤ 2) (h : Spells (longPart mark part) (closingMarks mark) s l rest) :
    Spells (longPart mark part) (closingMarks mark) (List.replicate n mark ++ s) (List.replicate n mark ++ l) rest := by
  cases n with
  | zero => exact h
  | succ n =>
    have hitem := longPart_marks hpart hbreak hs n
    rw [if_pos hn] at hitem
    exact step hitem (by simp) h

theorem Spells.close (hpart : ∀ s, part (mark :: s) = none) (hbreak : ∀ s, lineBreak (mark :: s) = none)
    (hrest : rest.head? ≠ some mark) {n : Nat} (hn : n ≤ 2) : Spells (longPart mark part) (closingMarks mark)
      (List.replicate n mark ++ mark :: mark :: mark :: rest) (List.replicate n mark) rest := by
  have hmarks : List.replicate n mark ++ mark :: mark :: mark :: rest = List.replicate (n + 3) mark ++ rest := by
    rw [← List.replicate_append_replicate, List.append_assoc]
    rfl
  obtain ⟨htake, hdrop⟩ := takeWhile_marks hrest (n + 3)
  rw [hmarks]
  apply stop
  · rw [longPart_marks hpart hbreak hrest, if_neg (by omega)]
  · simp [closingMarks, htake, hdrop, hn]

theorem longText_of_spells {start body : List Char} (hstart : start = ['\n'] ∨ start = [] ∧ newline body = none)
    (h : Spells (longPart mark part) (closingMarks mark) body l rest) :
    longText mark part (mark :: mark :: mark :: (start ++ body)) = some (String.ofList l, rest) := by
  obtain ⟨parts, m, k, hchain, hclose, rfl⟩ := h
  have hmany : many (part <|> lineBreak <|> innerMarks mark) body = some (parts, m) := many_of_chain hchain
  rcases hstart with rfl | ⟨rfl, hstart⟩
  · simp [longText, newline, hmany, hclose]
  · simp [longText, hstart, hmany, hclose]

theorem longText_eq_none (h : word [mark, mark, mark] s = none) : longText mark part s = none := by
  rw [longText, bind_apply, h]
  rfl

def closingMark (mark : Char) : Reading (List Char) := do
  symbol mark
  pure []

theorem shortText_of_spells (h : Spells part (closingMark mark) s l rest) :
    shortText mark part (mark :: s) = some (String.ofList l, rest) := by
  obtain ⟨parts, m, k, hchain, hclose, rfl⟩ := h
  simp only [closingMark, bind_apply, pure_apply, Option.bind_eq_some_iff] at hclose
  obtain ⟨⟨_, r⟩, hsymbol, hpure⟩ := hclose
  cases hpure
  simp [shortText, many_of_chain hchain, hsymbol]

end

/-! ## Forms with escapes -/

def isPlain (c : Char) : Bool :=
  isTextChar c && c != '"' && c != '\\'

theorem mapM_char {p : Char → Bool} (rest : List Char) : ∀ {l : List Char}, (∀ c ∈ l, p c = true) →
    ((List.replicate l.length ()).mapM fun _ => char p) (l ++ rest) = some (l, rest)
  | [], _ => rfl
  | c :: r, h => by
    have hrest := mapM_char rest fun d hd => h d (List.mem_cons_of_mem c hd)
    simp [List.replicate_succ, h c List.mem_cons_self, hrest]

theorem hex_digits : ∀ n < 128, ((Text.Hex.ofNat 4 n).map Char.toUpper).length = 4 ∧
    ((Text.Hex.ofNat 4 n).map Char.toUpper).all (fun c => (hexValue? c).isSome) = true ∧
    ((Text.Hex.ofNat 4 n).map Char.toUpper).foldl (fun n c => 16 * n + (hexValue? c).getD 0) 0 = n := by
  decide

theorem coded_hex {c : Char} (hc : c.toNat < 128) (rest : List Char) :
    coded 4 ((Text.Hex.ofNat 4 c.toNat).map Char.toUpper ++ rest) = some ([c], rest) := by
  obtain ⟨hlength, hdigits, hvalue⟩ := hex_digits c.toNat hc
  have hread := mapM_char rest (List.all_eq_true.mp hdigits)
  rw [hlength] at hread
  have hvalid : c.toNat.isValidChar := c.valid
  rw [coded, bind_apply, hread, Option.bind_some]
  simp [hvalue, hvalid]

/-- What reads the parts of a text in which there are escapes. -/
structure TakesEscapes (long : Bool) (item : Reading (List Char)) : Prop where
  plain : ∀ s : List Char, s.takeWhile isPlain ≠ [] → item s = some (s.takeWhile isPlain, s.dropWhile isPlain)
  escaped : ∀ {s : List Char} {p : List Char × List Char}, escaped s = some p → item s = some p
  line : long = true → ∀ s : List Char, item ('\n' :: s) = some (['\n'], s)

theorem takeWhile_of_escaped {s : List Char} {p : List Char × List Char} (h : escaped s = some p) :
    s.takeWhile isPlain = [] := by
  cases s with
  | nil => rfl
  | cons c r =>
    by_cases hc : c = '\\'
    · rw [hc]
      rfl
    · simp [escaped, hc] at h

theorem takesEscapes_plainOrEscaped : TakesEscapes false plainOrEscaped where
  plain s h := by
    change (run1 isPlain <|> Toml.escaped) s = _
    simp [h]
  escaped := by
    intro s p h
    change (run1 isPlain <|> Toml.escaped) s = _
    simp [takeWhile_of_escaped h, h]
  line h := by cases h

theorem takesEscapes_longPart : TakesEscapes true (longPart '"' (plainOrEscaped <|> joinedLine)) where
  plain s h := by
    simp [longPart, takesEscapes_plainOrEscaped.plain s h]
  escaped h := by
    simp [longPart, takesEscapes_plainOrEscaped.escaped h]
  line _ s := by
    simp [longPart, plainOrEscaped, isTextChar, escaped, joinedLine, lineBreak, newline]

theorem isPlain_of_not_control {c : Char} (hlow : 32 ≤ c.toNat) (hdelete : c.toNat ≠ 127) (hmark : c ≠ '"')
    (hslash : c ≠ '\\') : isPlain c = true := by
  simp [isPlain, isTextChar, hlow, hdelete, hmark, hslash]

theorem Spells.escape {long : Bool} {item close : Reading (List Char)} (hitem : TakesEscapes long item) {c : Char}
    (hc : c ≠ '"') {s l rest : List Char} (h : Spells item close s l rest) :
    Spells item close (escape long c ++ s) (c :: l) rest := by
  have hcode {e : List Char} (he : escaped (e ++ s) = some ([c], s)) (hne : 0 < e.length) :
      Spells item close (e ++ s) (c :: l) rest :=
    h.step (hitem.escaped he) (by rw [List.length_append]; omega)
  have hofNat : Char.ofNat c.toNat = c := Char.ofNat_toNat c
  unfold Toml.escape
  split_ifs with hslash htab hnewline hlong hreturn hback hfeed hcontrol
  · subst hslash
    exact hcode rfl (by decide)
  · subst htab
    exact hcode rfl (by decide)
  · subst hnewline
    exact h.step (hitem.line hlong s) (Nat.lt_succ_self _)
  · subst hnewline
    exact hcode rfl (by decide)
  · subst hreturn
    exact hcode rfl (by decide)
  · rw [hback] at hofNat
    exact hcode (by rw [← hofNat]; rfl) (by decide)
  · rw [hfeed] at hofNat
    exact hcode (by rw [← hofNat]; rfl) (by decide)
  · have hlt : c.toNat < 128 := by
      simp at hcontrol
      omega
    exact hcode (by simp [escaped, coded_hex hlt]) (by simp)
  · simp only [Bool.or_eq_true, decide_eq_true_eq, not_or] at hcontrol
    exact h.plain hitem.plain (isPlain_of_not_control (by omega) hcontrol.2 hc hslash)

theorem Spells.escapedMark {long : Bool} {item close : Reading (List Char)} (hitem : TakesEscapes long item)
    {s l rest : List Char} (h : Spells item close s l rest) :
    Spells item close ('\\' :: '"' :: s) ('"' :: l) rest := by
  have hmark : escaped ('\\' :: '"' :: s) = some (['"'], s) := rfl
  exact h.step (hitem.escaped hmark) (Nat.lt_succ_of_lt (Nat.lt_succ_self _))

theorem head?_escape {long : Bool} {c : Char} (hc : c ≠ '"') (s : List Char) :
    (escape long c ++ s).head? ≠ some '"' := by
  unfold escape
  split_ifs <;> simp [hc]

theorem spells_escapeAll (rest : List Char) : ∀ (l : List Char) (run : Nat),
    Spells plainOrEscaped (closingMark '"') (escapeAll false run l ++ '"' :: rest) l rest
  | [], run => .stop rfl rfl
  | c :: r, run => by
    rw [escapeAll]
    by_cases hc : c = '"'
    · subst hc
      exact (spells_escapeAll rest r 0).escapedMark takesEscapes_plainOrEscaped
    · rw [if_neg hc, List.append_assoc]
      exact (spells_escapeAll rest r 0).escape takesEscapes_plainOrEscaped hc

theorem spells_escapeAll_long {rest : List Char} (hrest : rest.head? ≠ some '"') : ∀ (l : List Char) {run : Nat},
    run ≤ 2 → Spells (longPart '"' (plainOrEscaped <|> joinedLine)) (closingMarks '"')
      (List.replicate run '"' ++ (escapeAll true run l ++ '"' :: '"' :: '"' :: rest)) (List.replicate run '"' ++ l) rest
  | [], run, hrun => by
    rw [List.append_nil]
    exact .close (fun _ => rfl) (fun _ => rfl) hrest hrun
  | c :: r, run, hrun => by
    rw [escapeAll]
    by_cases hc : c = '"'
    · subst hc
      by_cases hless : run < 2
      · have hnext := spells_escapeAll_long hrest r (Nat.succ_le_of_lt hless)
        simpa [hless, List.replicate_succ'] using hnext
      · have hnext := (spells_escapeAll_long hrest r (Nat.zero_le 2)).escapedMark takesEscapes_longPart
        simpa [hless] using hnext.marks (fun _ => rfl) (fun _ => rfl) (by simp) hrun
    · rw [if_neg hc, List.append_assoc]
      have hnext := (spells_escapeAll_long hrest r (Nat.zero_le 2)).escape takesEscapes_longPart hc
      exact hnext.marks (fun _ => rfl) (fun _ => rfl) (head?_escape hc _) hrun

/-! ## Forms without escapes -/

theorem longestRunOf_ge (mark : Char) : ∀ (l : List Char) (run longest : Nat),
    run ≤ longestRunOf mark run longest l ∧ longest ≤ longestRunOf mark run longest l
  | [], run, longest => ⟨Nat.le_max_left _ _, Nat.le_max_right _ _⟩
  | c :: r, run, longest => by
    rw [longestRunOf]
    split
    · obtain ⟨hrun, hlongest⟩ := longestRunOf_ge mark r (run + 1) longest
      exact ⟨by omega, hlongest⟩
    · obtain ⟨-, hlongest⟩ := longestRunOf_ge mark r 0 (max run longest)
      exact Nat.max_le.mp hlongest

theorem notMem_of_longestRunOf {mark : Char} : ∀ {l : List Char} {run longest : Nat},
    longestRunOf mark run longest l = 0 → mark ∉ l
  | [], _, _, _ => List.not_mem_nil
  | c :: r, run, longest, h => by
    rw [longestRunOf] at h
    split at h
    · have hge := (longestRunOf_ge mark r (run + 1) longest).1
      omega
    · next hc => exact List.not_mem_cons_of_ne_of_not_mem (Ne.symm hc) (notMem_of_longestRunOf h)

def isRaw (c : Char) : Bool :=
  isTextChar c && c != '\''

theorem plain_raw (s : List Char) (h : s.takeWhile isRaw ≠ []) :
    plain '\'' s = some (s.takeWhile isRaw, s.dropWhile isRaw) := by
  change run1 isRaw s = _
  simp [h]

theorem spells_raw (rest : List Char) : ∀ {l : List Char}, (∀ c ∈ l, isRaw c = true) →
    Spells (plain '\'') (closingMark '\'') (l ++ '\'' :: rest) l rest
  | [], _ => .stop rfl rfl
  | c :: _, h =>
    (spells_raw rest fun d hd => h d (List.mem_cons_of_mem c hd)).plain plain_raw (h c List.mem_cons_self)

/-- What stands for itself in a text on several lines. -/
theorem Spells.raw {s l rest : List Char} {c : Char} (hc : isTextChar c = true ∨ c = '\n') (hmark : c ≠ '\'')
    (h : Spells (longPart '\'' (Toml.plain '\'')) (closingMarks '\'') s l rest) :
    Spells (longPart '\'' (Toml.plain '\'')) (closingMarks '\'') (c :: s) (c :: l) rest := by
  rcases hc with hc | rfl
  · apply h.plain (p := isRaw)
    · simp [isRaw, hc, hmark]
    · intro s hs
      simp [longPart, plain_raw s hs]
  · have hbreak : longPart '\'' (Toml.plain '\'') ('\n' :: s) = some (['\n'], s) := by
      simp [longPart, Toml.plain, isTextChar, lineBreak, newline]
    exact h.step hbreak (Nat.lt_succ_self _)

theorem spells_raw_long {rest : List Char} (hrest : rest.head? ≠ some '\'') : ∀ {l : List Char} {run longest : Nat},
    (∀ c ∈ l, isTextChar c = true ∨ c = '\n') → longestRunOf '\'' run longest l ≤ 2 →
    Spells (longPart '\'' (plain '\'')) (closingMarks '\'')
      (List.replicate run '\'' ++ (l ++ '\'' :: '\'' :: '\'' :: rest)) (List.replicate run '\'' ++ l) rest
  | [], run, longest, _, hrun => by
    rw [List.append_nil]
    exact .close (fun _ => rfl) (fun _ => rfl) hrest (Nat.max_le.mp hrun).1
  | c :: r, run, longest, h, hrun => by
    have hr : ∀ d ∈ r, isTextChar d = true ∨ d = '\n' := fun d hd => h d (List.mem_cons_of_mem c hd)
    rw [longestRunOf] at hrun
    by_cases hc : c = '\''
    · subst hc
      rw [if_pos rfl] at hrun
      simpa [List.replicate_succ'] using spells_raw_long hrest hr hrun
    · rw [if_neg hc] at hrun
      have hless := Nat.max_le.mp (Nat.le_trans (longestRunOf_ge '\'' r 0 (max run longest)).2 hrun)
      have hnext := (spells_raw_long hrest hr hrun).raw (h c List.mem_cons_self) hc
      exact hnext.marks (fun _ => rfl) (fun _ => rfl) (by simpa using hc) hless.1

/-! ## Every form -/

theorem isTextChar_of_needsCode {c : Char} (h : needsCode c = false) : isTextChar c = true ∨ c = '\n' := by
  by_cases hline : c = '\n'
  · exact .inr hline
  · left
    by_cases htab : c = '\t'
    · rw [htab]
      rfl
    · simp [needsCode, hline, htab] at h
      simp [isTextChar, h]

theorem isRaw_of_style {l : List Char} (h : style l = .literal) : ∀ c ∈ l, isRaw c = true := by
  simp only [style] at h
  split_ifs at h with hbasic hliteral
  simp only [Bool.and_eq_true, Bool.not_eq_true', beq_iff_eq, List.any_eq_false, List.contains_eq_mem,
    decide_eq_false_iff_not] at hliteral
  obtain ⟨⟨hcodes, hmarks⟩, hlines⟩ := hliteral
  intro c hc
  have htext := isTextChar_of_needsCode (Bool.eq_false_iff.mpr (hcodes c hc))
  have hline : c ≠ '\n' := fun h => hlines (h ▸ hc)
  have hmark : c ≠ '\'' := fun h => notMem_of_longestRunOf hmarks (h ▸ hc)
  simp [isRaw, htext.resolve_right hline, hmark]

theorem raw_of_style {l : List Char} (h : style l = .longLiteral) :
    (∀ c ∈ l, isTextChar c = true ∨ c = '\n') ∧ longestRunOf '\'' 0 0 l ≤ 2 := by
  simp only [style] at h
  split_ifs at h with hbasic hliteral hlong hraw
  simp only [Bool.and_eq_true, Bool.not_eq_true', List.any_eq_false, decide_eq_true_eq] at hraw
  exact ⟨fun c hc => isTextChar_of_needsCode (Bool.eq_false_iff.mpr (hraw.1 c hc)), hraw.2⟩

/-- The first line of a text on several lines begins behind the marks only if there is one line alone. -/
theorem start_or {l body : List Char} (h : '\n' ∉ l → newline body = none) :
    (if l.contains '\n' then ['\n'] else []) = ['\n'] ∨
      (if l.contains '\n' then ['\n'] else []) = [] ∧ newline body = none := by
  by_cases hl : '\n' ∈ l <;> simp [hl, h]

theorem newline_escapeAll {l rest : List Char} (h : '\n' ∉ l) :
    newline (escapeAll true 0 l ++ '"' :: rest) = none := by
  cases l with
  | nil => rfl
  | cons c r =>
    have hc : c ≠ '\n' := fun hc => h (hc ▸ List.mem_cons_self)
    by_cases hmark : c = '"'
    · simp [escapeAll, hmark, newline]
    · simp only [escapeAll, hmark, if_false, escape, hc]
      split_ifs <;> simp [newline, *]

theorem head?_escapeAll (l : List Char) (run : Nat) : (escapeAll false run l).head? ≠ some '"' := by
  cases l with
  | nil => simp [escapeAll]
  | cons c r =>
    by_cases hc : c = '"'
    · simp [escapeAll, hc]
    · rw [escapeAll, if_neg hc]
      exact head?_escape hc _

theorem newline_raw {l rest : List Char} (hl : ∀ c ∈ l, isTextChar c = true ∨ c = '\n') (h : '\n' ∉ l) :
    newline (l ++ '\'' :: rest) = none := by
  cases l with
  | nil => rfl
  | cons c r =>
    have hc : c ≠ '\n' := fun hc => h (hc ▸ List.mem_cons_self)
    have hreturn : c ≠ '\r' := fun hr => by
      subst hr
      exact (hl _ List.mem_cons_self).elim (by decide) (by decide)
    simp [newline, hc, hreturn]

theorem longText_of_other {mark c : Char} (h : c ≠ mark) (part : Reading (List Char)) (s : List Char) :
    longText mark part (c :: s) = none :=
  longText_eq_none (by simp [h])

/-- Two marks, and no third. -/
theorem longText_of_short {mark : Char} {l rest : List Char} (part : Reading (List Char)) (hl : l.head? ≠ some mark)
    (hrest : rest.head? ≠ some mark) : longText mark part (mark :: (l ++ mark :: rest)) = none := by
  apply longText_eq_none
  cases l with
  | nil => simp [symbol_of_head? hrest]
  | cons c r =>
    have hc : c ≠ mark := fun h => hl (by rw [h]; rfl)
    simp [hc]

theorem shortText_of_other {mark c : Char} (h : c ≠ mark) (part : Reading (List Char)) (s : List Char) :
    shortText mark part (c :: s) = none := by
  simp [shortText, h]

/-- A text is read back from its own form. -/
theorem quotedText_text (s : String) {rest : List Char} (hdouble : rest.head? ≠ some '"')
    (hsingle : rest.head? ≠ some '\'') : quotedText (text s ++ rest) = some (s, rest) := by
  cases hstyle : style s.toList with
  | basic =>
    have htext : text s ++ rest = '"' :: (escapeAll false 0 s.toList ++ '"' :: rest) := by
      simp [text, hstyle, delimiter]
    have hshort := shortText_of_spells (spells_escapeAll rest s.toList 0)
    rw [String.ofList_toList] at hshort
    rw [htext, quotedText, orElse_apply, longText_of_short _ (head?_escapeAll _ 0) hdouble, orElse_apply,
      longText_of_other (by decide), lineText, orElse_apply, hshort]
    rfl
  | literal =>
    have htext : text s ++ rest = '\'' :: (s.toList ++ '\'' :: rest) := by
      simp [text, hstyle, delimiter]
    have hraw := isRaw_of_style hstyle
    have hhead : s.toList.head? ≠ some '\'' := fun h => absurd (hraw _ (List.mem_of_head? h)) (by decide)
    have hshort := shortText_of_spells (spells_raw rest hraw)
    rw [String.ofList_toList] at hshort
    rw [htext, quotedText, orElse_apply, longText_of_other (by decide), orElse_apply, longText_of_short _ hhead hsingle,
      lineText, orElse_apply, shortText_of_other (by decide), hshort]
    rfl
  | longBasic =>
    have htext : text s ++ rest = '"' :: '"' :: '"' :: ((if s.toList.contains '\n' then ['\n'] else []) ++
        (escapeAll true 0 s.toList ++ '"' :: '"' :: '"' :: rest)) := by
      simp [text, hstyle, delimiter]
    have hlong := longText_of_spells (start_or newline_escapeAll) (spells_escapeAll_long hdouble s.toList (Nat.zero_le 2))
    rw [List.replicate_zero, List.nil_append, String.ofList_toList] at hlong
    rw [htext, quotedText, orElse_apply]
    exact congrArg (Option.or · _) hlong
  | longLiteral =>
    have htext : text s ++ rest = '\'' :: '\'' :: '\'' :: ((if s.toList.contains '\n' then ['\n'] else []) ++
        (s.toList ++ '\'' :: '\'' :: '\'' :: rest)) := by
      simp [text, hstyle, delimiter]
    obtain ⟨hraw, hmarks⟩ := raw_of_style hstyle
    have hlong := longText_of_spells (start_or (newline_raw hraw)) (spells_raw_long hsingle hraw hmarks)
    rw [List.replicate_zero, List.nil_append, String.ofList_toList] at hlong
    rw [htext, quotedText, orElse_apply, longText_of_other (by decide), orElse_apply]
    exact congrArg (Option.or · _) hlong

end BlobDepot.Toml
