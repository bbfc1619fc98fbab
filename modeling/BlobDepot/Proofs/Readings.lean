import BlobDepot.Encoding.Toml.Scalar
import BlobDepot.Text.Basic

/-!
# Readings

What comes of steps that can fail, what numerals stand for, and what readings take from the front of a text.
-/

/-!
## Results of steps that can fail

Steps come to a result only if each of them does.
-/

namespace BlobDepot

section

variable {ε α β : Type}

theorem bind_ok (a : α) (f : α → Except ε β) : (Except.ok a >>= f) = f a := rfl

theorem bind_eq_ok {x : Except ε α} {f : α → Except ε β} {b : β} :
    (x >>= f) = .ok b ↔ ∃ a, x = .ok a ∧ f a = .ok b := by
  cases x with
  | error e => exact ⟨nofun, fun ⟨_, ha, _⟩ => nomatch ha⟩
  | ok a => exact ⟨fun h => ⟨a, rfl, h⟩, fun ⟨_, ha, h⟩ => Except.ok.inj ha ▸ h⟩

theorem map_eq_ok {f : α → β} {x : Except ε α} {b : β} :
    x.map f = .ok b ↔ ∃ a, x = .ok a ∧ f a = b := by
  cases x with
  | error e => exact ⟨nofun, fun ⟨_, ha, _⟩ => nomatch ha⟩
  | ok a => exact ⟨fun h => ⟨a, rfl, Except.ok.inj h⟩, fun ⟨_, ha, h⟩ => Except.ok.inj ha ▸ congrArg _ h⟩

end

end BlobDepot

/-!
## Numerals

The number that the digits of a number stand for is that number, in any base that has digits.
-/

namespace BlobDepot.Text

/-! ### Any base -/

section

variable {base : Nat} {value? : Char → Option Nat}

theorem isSome_of_mem_toDigits (hbase : 1 < base) (hvalue : ∀ d < base, value? d.digitChar = some d) (n : Nat) :
    ∀ c ∈ Nat.toDigits base n, (value? c).isSome = true := by
  induction n using Nat.strongRecOn with
  | _ n ih =>
    have hlast : ∀ d < base, ∀ c ∈ [d.digitChar], (value? c).isSome = true := by
      intro d hd c hc
      rw [List.mem_singleton.mp hc, hvalue d hd, Option.isSome_some]
    by_cases hn : n < base
    · rw [Nat.toDigits_of_lt_base hn]
      exact hlast n hn
    · rw [Nat.toDigits_of_base_le hbase (Nat.le_of_not_lt hn)]
      intro c hc
      apply (List.mem_append.mp hc).elim
      · exact ih _ (Nat.div_lt_self (by omega) hbase) c
      · exact hlast _ (Nat.mod_lt n (by omega)) c

theorem foldl_toDigits (hbase : 1 < base) (hvalue : ∀ d < base, value? d.digitChar = some d) (n : Nat) :
    (Nat.toDigits base n).foldl (fun n c => base * n + (value? c).getD 0) 0 = n := by
  induction n using Nat.strongRecOn with
  | _ n ih =>
    by_cases hn : n < base
    · rw [Nat.toDigits_of_lt_base hn]
      simp [hvalue n hn]
    · rw [Nat.toDigits_of_base_le hbase (Nat.le_of_not_lt hn), List.foldl_append,
        ih _ (Nat.div_lt_self (by omega) hbase)]
      simp [hvalue _ (Nat.mod_lt n (by omega)), Nat.div_add_mod]

end

/-! ### Decimal numbers -/

theorem decimal_natCast (n : Nat) : decimal n = String.ofList (Nat.toDigits 10 n) := rfl

theorem isDigit_of_mem_decimal {n : Nat} {c : Char} (h : c ∈ (decimal n).toList) : c.isDigit = true := by
  rw [decimal_natCast, String.toList_ofList] at h
  exact Nat.isDigit_of_mem_toDigits (by decide) (by decide) h

theorem digitValue?_of_isDigit {c : Char} (h : c.isDigit = true) : digitValue? c = some (c.toNat - 48) := by
  unfold digitValue?
  rw [Char.isDigit, Bool.and_eq_true, decide_eq_true_iff, decide_eq_true_iff] at h
  exact if_pos h

theorem digitValue?_digitChar : ∀ d < 10, digitValue? d.digitChar = some d := by
  decide

theorem natOfDigits?_toDigits (n : Nat) : natOfDigits? (Nat.toDigits 10 n) = some n := by
  have hfold : ∀ (l : List Char) (init : Nat), (∀ c ∈ l, c.isDigit = true) →
      l.foldlM (fun n c => (digitValue? c).map (10 * n + ·)) init = some (Nat.ofDigitChars 10 l init) := by
    intro l
    induction l with
    | nil => exact fun _ _ => rfl
    | cons c r ih =>
      intro init hdigits
      rw [List.foldlM_cons, digitValue?_of_isDigit (hdigits c List.mem_cons_self), Nat.ofDigitChars_cons]
      exact ih _ fun d hd => hdigits d (List.mem_cons_of_mem c hd)
  rw [natOfDigits?, hfold _ 0 fun c hc => Nat.isDigit_of_mem_toDigits (by decide) (by decide) hc,
    Nat.ofDigitChars_ten_toDigits]

theorem head?_toDigits_ne {n : Nat} (h : n ≠ 0) : (Nat.toDigits 10 n).head? ≠ some '0' := by
  induction n using Nat.strongRecOn with
  | _ n ih =>
    by_cases hn : n < 10
    · have hdigit : ∀ n < 10, n ≠ 0 → n.digitChar ≠ '0' := by decide
      rw [Nat.toDigits_of_lt_base hn]
      exact fun hzero => hdigit n hn h (Option.some.inj hzero)
    · rw [Nat.toDigits_of_base_le (by decide) (Nat.le_of_not_lt hn)]
      have hhead := ih (n / 10) (by omega) (by omega)
      obtain ⟨c, r, hc⟩ := List.exists_cons_of_ne_nil (Nat.toDigits_ne_nil (n := n / 10) (b := 10))
      rw [hc] at hhead ⊢
      exact hhead

end BlobDepot.Text

/-!
## What readings take

How a reading goes through a text is told from the place where it begins. A reading that is repeated goes on until it
fails: `many_of_chain`.
-/

namespace BlobDepot.Toml.Reading

variable {α β : Type} {item : Reading α} {s rest : List Char}

/-! ### Readings at a place -/

@[simp] theorem pure_apply (a : α) (s : List Char) : (pure a : Reading α) s = some (a, s) := rfl

@[simp] theorem failure_apply (s : List Char) : (failure : Reading α) s = none := rfl

@[simp] theorem bind_apply (x : Reading α) (f : α → Reading β) (s : List Char) :
    (x >>= f) s = (x s).bind fun p => f p.1 p.2 := rfl

@[simp] theorem map_apply (f : α → β) (x : Reading α) (s : List Char) :
    (f <$> x) s = (x s).map fun p => (f p.1, p.2) := by
  cases h : x s <;> simp [Functor.map, StateT.map, h]

@[simp] theorem discard_apply (x : Reading α) (s : List Char) : (discard x) s = (x s).map fun p => ((), p.2) := by
  cases h : x s <;> simp [discard, Functor.discard, Functor.mapConst, StateT.map, h]

@[simp] theorem orElse_apply (x y : Reading α) (s : List Char) : (x <|> y) s = (x s).or (y s) := by
  change (x s).orElse _ = _
  cases x s <;> rfl

@[simp] theorem optional_apply (x : Reading α) (s : List Char) :
    (optional x) s = ((x s).map fun p => (some p.1, p.2)).or (some (none, s)) := by
  rw [optional, orElse_apply, map_apply]
  rfl

@[simp] theorem liftM_apply (x : Option α) (s : List Char) : (liftM x : Reading α) s = x.map fun a => (a, s) := by
  cases x <;> rfl

@[simp] theorem atEnd_apply (s : List Char) : atEnd s = some (s.isEmpty, s) := rfl

@[simp] theorem run_apply (p : Char → Bool) (s : List Char) : run p s = some (s.takeWhile p, s.dropWhile p) := rfl

@[simp] theorem char_nil (p : Char → Bool) : char p [] = none := rfl

@[simp] theorem char_cons (p : Char → Bool) (c : Char) (s : List Char) :
    char p (c :: s) = if p c then some (c, s) else none := rfl

@[simp] theorem symbol_nil (c : Char) : symbol c [] = none := rfl

@[simp] theorem symbol_cons (c d : Char) (s : List Char) : symbol c (d :: s) = if d = c then some ((), s) else none := by
  by_cases h : d = c <;> simp [symbol, h]

theorem symbol_of_head? {c : Char} (h : s.head? ≠ some c) : symbol c s = none := by
  cases s with
  | nil => rfl
  | cons d r => rw [symbol_cons, if_neg fun hd => h (by rw [hd]; rfl)]

@[simp] theorem word_nil (s : List Char) : word [] s = some ((), s) := rfl

@[simp] theorem word_cons (c : Char) (l s : List Char) : word (c :: l) s = (symbol c s).bind fun p => word l p.2 := rfl

@[simp] theorem run1_apply (p : Char → Bool) (s : List Char) :
    run1 p s = if s.takeWhile p = [] then none else some (s.takeWhile p, s.dropWhile p) := by
  by_cases h : s.takeWhile p = [] <;> simp [run1, h]

/-! ### Repetition -/

/-- A reading goes through a text again and again, until it fails. -/
inductive Chain (item : Reading α) : List Char → List α → List Char → Prop where
  | stop {s : List Char} (hend : item s = none) : Chain item s [] s
  | step {s s' rest : List Char} {a : α} {l : List α} (hitem : item s = some (a, s')) (hless : s'.length < s.length)
      (hchain : Chain item s' l rest) : Chain item s (a :: l) rest

theorem upTo_of_chain {l : List α} (h : Chain item s l rest) : ∀ {n : Nat}, s.length ≤ n →
    upTo item n s = some (l, rest) := by
  induction h with
  | stop hend =>
    intro n hn
    cases n with
    | zero => rfl
    | succ n => simp [upTo, hend]
  | step hitem hless hchain ih =>
    intro n hn
    cases n with
    | zero => omega
    | succ n =>
      have hrest := ih (Nat.le_of_lt_succ (Nat.lt_of_lt_of_le hless hn))
      simp [upTo, hitem, hrest]

theorem many_of_chain {l : List α} (h : Chain item s l rest) : many item s = some (l, rest) :=
  upTo_of_chain h (Nat.le_refl _)

/-- The items at the front of a text, whatever is read of the rest. -/
def ReadsItems (item : Reading α) (s : List Char) (l : List α) (rest : List Char) : Prop :=
  ∀ (m : List α) (last : List Char), Chain item rest m last → Chain item s (l ++ m) last

theorem ReadsItems.one {a : α} (hitem : item s = some (a, rest)) (hless : rest.length < s.length) :
    ReadsItems item s [a] rest :=
  fun _ _ h => .step hitem hless h

theorem ReadsItems.append {l l' : List α} {s' : List Char} (h : ReadsItems item s l s')
    (h' : ReadsItems item s' l' rest) : ReadsItems item s (l ++ l') rest := fun m last hchain => by
  rw [List.append_assoc]
  exact h _ _ (h' m last hchain)

theorem separated_of_chain {sep : Reading Unit} {a : α} {l : List α} {s' : List Char} (hitem : item s = some (a, s'))
    (h : Chain (do sep; item) s' l rest) : separated sep item s = some (a :: l, rest) := by
  have hmany : many (do sep; item) s' = some (l, rest) := many_of_chain h
  simp [separated, hitem, hmany]

end BlobDepot.Toml.Reading
