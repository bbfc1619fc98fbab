import BlobDepot.Directory.Login
import BlobDepot.Proofs.Filters
import BlobDepot.Proofs.Parts

/-!
# Filters written out

A filter that is written with its values escaped is read back as it was, whatever characters the values hold, and so
nothing in the name of a user changes the filter that looks for the user: `written_read_back`.
-/

namespace BlobDepot.Directory

namespace Filter

open Text.Utf8 (ofChars)

mutual

def written : Filter → String
  | all parts => "(&" ++ writtenList parts ++ ")"
  | any parts => "(|" ++ writtenList parts ++ ")"
  | not part => "(!" ++ written part ++ ")"
  | equal name value => "(" ++ name ++ "=" ++ escapeFilterValue value ++ ")"
  | present name => "(" ++ name ++ "=*)"

def writtenList : List Filter → String
  | [] => ""
  | f :: r => written f ++ writtenList r

end

structure PlainName (name : String) : Prop where
  ne_empty : name ≠ ""
  trim_eq : Text.trim name = name
  unmarked : ∀ c ∈ name.toList, c ∉ nameMarks
  first : ∀ c ∈ name.toList.head?, c ∉ operators

instance (name : String) : Decidable (PlainName name) :=
  decidable_of_iff (name ≠ "" ∧ Text.trim name = name ∧ (name.toList.all fun c => decide (c ∉ nameMarks)) = true ∧
      (name.toList.head?.all fun c => decide (c ∉ operators)) = true)
    ⟨fun ⟨hne, htrim, hmarks, hfirst⟩ => ⟨hne, htrim, by simpa using hmarks, by simpa [Option.all_eq_true] using hfirst⟩,
      fun h => ⟨h.ne_empty, h.trim_eq, by simpa using h.unmarked, by simpa [Option.all_eq_true] using h.first⟩⟩

/-- A filter without empty lists, all of whose names are plain. Its values may be any texts. -/
inductive Proper : Filter → Prop
  | all {parts : List Filter} : parts ≠ [] → (∀ f ∈ parts, Proper f) → Proper (.all parts)
  | any {parts : List Filter} : parts ≠ [] → (∀ f ∈ parts, Proper f) → Proper (.any parts)
  | not {part : Filter} : Proper part → Proper (.not part)
  | equal {name : String} (value : String) : PlainName name → Proper (.equal name value)
  | present {name : String} : PlainName name → Proper (.present name)

/-! ## Values -/

theorem ValueText.escaped {lenient : Bool} {t : List Char} {bytes : List UInt8} (c : Char)
    (h : ValueText lenient t bytes) :
    ValueText lenient (escapeFilterChar c ++ t) (String.utf8EncodeChar c ++ bytes) := by
  unfold escapeFilterChar
  split
  · next hc =>
    subst hc
    exact .escape (x := '2') (y := 'a') rfl rfl h
  split
  · next hc =>
    subst hc
    exact .escape (x := '2') (y := '8') rfl rfl h
  split
  · next hc =>
    subst hc
    exact .escape (x := '2') (y := '9') rfl rfl h
  split
  · next hc =>
    subst hc
    exact .escape (x := '5') (y := 'c') rfl rfl h
  split
  · next hc =>
    subst hc
    exact .escape (x := '0') (y := '0') rfl rfl h
  · next hstar hopen hclose hslash _ =>
    have hplain : c ∉ valueMarks := by simp [valueMarks, hstar, hopen, hclose, hslash]
    exact .char hplain h

theorem valueText_escape (lenient : Bool) (l : List Char) :
    ValueText lenient (l.flatMap escapeFilterChar) (ofChars l) := by
  induction l with
  | nil => exact .nil
  | cons c r ih => exact ih.escaped c

/-! ## Names -/

theorem PlainName.nameText {name : String} (h : PlainName name) : NameText name.toList := by
  have hnamed : ∃ c ∈ name.toList, Text.isBlank c = false := by
    by_contra hblank
    have htrim := trim_eq_empty_iff.mpr hblank
    rw [String.ofList_toList, h.trim_eq] at htrim
    exact h.ne_empty htrim
  exact ⟨h.unmarked, hnamed, h.first⟩

theorem Item.written_equal {name : String} (h : PlainName name) (value : String) :
    Item false (name.toList ++ '=' :: (escapeFilterValue value).toList) (.equal name value) := by
  have hitem := Item.equal h.nameText (valueText_escape false value.toList) (Text.Utf8.encode_eq value)
  rw [String.ofList_toList, h.trim_eq] at hitem
  rwa [escapeFilterValue, String.toList_ofList]

theorem Item.written_present {name : String} (h : PlainName name) :
    Item false (name.toList ++ ['=', '*']) (.present name) := by
  have hitem : Item false (name.toList ++ ['=', '*']) _ := .present (n := 0) h.nameText fun _ => rfl
  rwa [String.ofList_toList, h.trim_eq] at hitem

/-! ## Filters -/

theorem toList_writtenList (parts : List Filter) :
    (writtenList parts).toList = (parts.map fun f => ((written f).toList, f)).flatMap Prod.fst := by
  induction parts with
  | nil => rfl
  | cons f r ih => rw [writtenList, String.toList_append, ih, List.map_cons, List.flatMap_cons]

theorem map_snd_written (parts : List Filter) :
    (parts.map fun f => ((written f).toList, f)).map Prod.snd = parts := by
  rw [List.map_map]
  exact List.map_id parts

/-- The documented grammar derives a proper filter from what is written of it. -/
theorem Proper.derives {f : Filter} (h : Proper f) : Derives false (written f).toList f := by
  induction h with
  | @all parts hne _ ih =>
    have hd := @Derives.all false (parts.map fun f => ((written f).toList, f)) (by simpa using hne) (by simpa using ih)
    rw [map_snd_written, ← toList_writtenList] at hd
    rw [written, String.toList_append, String.toList_append]
    exact hd
  | @any parts hne _ ih =>
    have hd := @Derives.any false (parts.map fun f => ((written f).toList, f)) (by simpa using hne) (by simpa using ih)
    rw [map_snd_written, ← toList_writtenList] at hd
    rw [written, String.toList_append, String.toList_append]
    exact hd
  | not _ ih =>
    rw [written, String.toList_append, String.toList_append]
    exact ih.not
  | equal value hname =>
    have hd := Derives.item (Item.written_equal hname value)
    simpa [written] using hd
  | present hname =>
    have hd := Derives.item (Item.written_present hname)
    simpa [written] using hd

theorem Derives.trimChars_eq {lenient : Bool} {t : List Char} {f : Filter} (h : Derives lenient t f) :
    Text.trimChars t = t := by
  have hparens : ∃ s, t = '(' :: s ++ [')'] := by cases h <;> exact ⟨_, rfl⟩
  obtain ⟨s, rfl⟩ := hparens
  refine Text.trimChars_eq_self ?_ ?_
  · rintro c ⟨⟩
    rfl
  · intro c hc
    rw [List.getLast?_concat] at hc
    cases hc
    rfl

theorem parse_written {f : Filter} (h : Proper f) : parse (written f) = .ok f := by
  rw [parse_eq_ok, h.derives.trimChars_eq]
  exact h.derives.lenient

end Filter

open Directory.Filter

theorem Settings.userFilter_eq (s : Settings) (user : String) :
    s.userFilter user = written (.all [.equal "objectClass" s.userObjectClass, .equal s.userAttribute user]) := by
  have hopen : "(&(objectClass=" = "(&" ++ "(" ++ "objectClass" ++ "=" := rfl
  have hmiddle : ")(" = ")" ++ "(" := rfl
  have hclose : "))" = ")" ++ "" ++ ")" := rfl
  unfold userFilter
  rw [hopen, hmiddle, hclose]
  simp only [written, writtenList, String.append_assoc]

theorem Settings.parse_userFilter {s : Settings} (h : PlainName s.userAttribute) (user : String) :
    parse (s.userFilter user) = .ok (.all [.equal "objectClass" s.userObjectClass, .equal s.userAttribute user]) := by
  have hclass : PlainName "objectClass" := by decide
  rw [userFilter_eq]
  refine parse_written (.all (by simp) fun f hf => ?_)
  simp only [List.mem_cons, List.not_mem_nil, or_false] at hf
  rcases hf with rfl | rfl
  · exact .equal _ hclass
  · exact .equal _ h

/-- What is written of a filter is read as that filter, and the filter for a user asks for the object class and for the
name, both of them as they are. -/
theorem written_read_back :
    (∀ f : Filter, Proper f → parse (written f) = .ok f) ∧
      ∀ (s : Settings) (user : String), PlainName s.userAttribute → parse (s.userFilter user) =
        .ok (.all [.equal "objectClass" s.userObjectClass, .equal s.userAttribute user]) :=
  ⟨fun _ h => parse_written h, fun _ user h => Settings.parse_userFilter h user⟩

theorem written_read_back_metacharacters :
    let f : Filter := .any [.equal "uid" "*)(uid=*", .not (.equal "cn" "\\\x00"), .equal "cn" "", .present "mail"]
    (Proper f ∧ written f = "(|(uid=\\2a\\29\\28uid=\\2a)(!(cn=\\5c\\00))(cn=)(mail=*))" ∧ parse (written f) = .ok f) ∧
      PlainName Settings.standard.userAttribute ∧
        parse (Settings.standard.userFilter "*)(uid=*") =
          .ok (.all [.equal "objectClass" "person", .equal "uid" "*)(uid=*"]) := by
  intro f
  have huid : PlainName "uid" := by decide
  have hcn : PlainName "cn" := by decide
  have hmail : PlainName "mail" := by decide
  have hproper : Proper f := by
    refine .any (by simp) fun g hg => ?_
    simp only [List.mem_cons, List.not_mem_nil, or_false] at hg
    rcases hg with rfl | rfl | rfl | rfl
    · exact .equal _ huid
    · exact .not (.equal _ hcn)
    · exact .equal _ hcn
    · exact .present hmail
  exact ⟨⟨hproper, rfl, written_read_back.1 f hproper⟩, huid, written_read_back.2 .standard _ huid⟩

end BlobDepot.Directory
