import BlobDepot.Proofs.Resolution

/-!
# Entries where a login looks for them

A login looks for a user under a base that is made of the user's name. The entry that a directory would have there for
the user is found exactly if the base has a name of its own, and the value for users is one that the entry has:
`placed_user_admitted_iff`. An entry at the root is never found, and for attributes other than the identifier no entry is
whose name needs an escape: `placed_user_turned_away`.
-/

namespace BlobDepot.Directory

open Directory.Filter (PlainName)
open Text (isBlank lower sameLetters sameLetters_iff trim trimChars)

/-! ## Characters other than blanks -/

def inked (l : List Char) : Nat :=
  l.countP fun c => !isBlank c

@[simp] theorem inked_append (a b : List Char) : inked (a ++ b) = inked a + inked b :=
  List.countP_append

theorem inked_cons (c : Char) (l : List Char) : inked (c :: l) = inked [c] + inked l :=
  inked_append [c] l

theorem inked_reverse (l : List Char) : inked l.reverse = inked l :=
  List.countP_reverse

theorem inked_dropWhile_isBlank (l : List Char) : inked (l.dropWhile isBlank) = inked l := by
  have hblank : inked (l.takeWhile isBlank) = 0 := by
    apply List.countP_eq_zero.mpr
    intro c hc
    simp [List.mem_takeWhile_imp hc]
  have hsplit := congrArg inked (List.takeWhile_append_dropWhile (p := isBlank) (l := l))
  rwa [inked_append, hblank, Nat.zero_add] at hsplit

theorem inked_trimChars (l : List Char) : inked (trimChars l) = inked l := by
  rw [trimChars, inked_reverse, inked_dropWhile_isBlank, inked_reverse, inked_dropWhile_isBlank]

theorem inked_map_toLower (l : List Char) : inked (l.map Char.toLower) = inked l := by
  simp [inked, List.countP_map, Function.comp_def, Text.isBlank_toLower]

/-! ## What an escape adds -/

theorem escapeNameChar_eq_or (isFirst isLast : Bool) (c : Char) :
    escapeNameChar isFirst isLast c = [c] ∨ inked [c] < inked (escapeNameChar isFirst isLast c) := by
  have hmark : inked [c] < inked ['\\', c] := by simp [inked, isBlank, List.countP_cons]
  unfold escapeNameChar
  split
  · exact .inr hmark
  split
  · next hc =>
    obtain ⟨rfl, -⟩ : c = '#' ∧ isFirst = true := by simpa using hc
    exact .inr hmark
  split
  · next hc =>
    obtain ⟨rfl, -⟩ : c = ' ' ∧ (isFirst || isLast) = true := by simpa using hc
    exact .inr hmark
  split
  · next hc =>
    subst hc
    exact .inr (by decide)
  · exact .inl rfl

theorem comma_mem_escapeNameChar {isFirst isLast : Bool} {c : Char} (h : ',' ∈ escapeNameChar isFirst isLast c) :
    c = ',' := by
  unfold escapeNameChar at h
  split at h
  · simpa [eq_comm] using h
  split at h
  · simp at h
  split at h
  · simp at h
  split at h
  · simp at h
  · simpa [eq_comm] using h

section
variable {ps : List (Char × Nat)} {f : Char × Nat → Bool} {g : Char × Nat → Bool}

theorem inked_escaped_le : inked (ps.map Prod.fst) ≤ inked (ps.flatMap fun p => escapeNameChar (f p) (g p) p.1) := by
  induction ps with
  | nil => exact Nat.le_refl _
  | cons p ps ih =>
    have hhead : inked [p.1] ≤ inked (escapeNameChar (f p) (g p) p.1) := by
      rcases escapeNameChar_eq_or (f p) (g p) p.1 with h | h
      · rw [h]
      · exact h.le
    rw [List.map_cons, List.flatMap_cons, inked_cons, inked_append]
    exact Nat.add_le_add hhead ih

/-- An escape adds to what is no blank. -/
theorem eq_self_of_inked_escaped
    (h : inked (ps.flatMap fun p => escapeNameChar (f p) (g p) p.1) = inked (ps.map Prod.fst)) :
    ∀ p ∈ ps, escapeNameChar (f p) (g p) p.1 = [p.1] := by
  induction ps with
  | nil => simp
  | cons p ps ih =>
    have htail : inked (ps.map Prod.fst) ≤ inked (ps.flatMap fun p => escapeNameChar (f p) (g p) p.1) :=
      inked_escaped_le
    rw [List.map_cons, List.flatMap_cons, inked_cons, inked_append] at h
    rcases escapeNameChar_eq_or (f p) (g p) p.1 with hp | hp
    · rw [hp] at h
      exact List.forall_mem_cons.mpr ⟨hp, ih (by omega)⟩
    · omega

end

variable {user : String}

theorem comma_mem_escapeNameValue (h : ',' ∈ (escapeNameValue user).toList) : ',' ∈ user.toList := by
  simp only [escapeNameValue, String.toList_ofList, List.mem_flatMap] at h
  obtain ⟨p, hp, hcomma⟩ := h
  have hmem := List.fst_mem_of_mem_zipIdx hp
  rwa [comma_mem_escapeNameChar hcomma] at hmem

theorem escaped_of_inked (h : inked (escapeNameValue user).toList = inked user.toList) :
    ∀ p ∈ user.toList.zipIdx, escapeNameChar (p.2 == 0) (p.2 + 1 == user.toList.length) p.1 = [p.1] := by
  apply eq_self_of_inked_escaped (f := fun p => p.2 == 0) (g := fun p => p.2 + 1 == user.toList.length)
  rw [List.zipIdx_map_fst, ← h, escapeNameValue, String.toList_ofList]

theorem escapeNameValue_eq_of_inked (h : inked (escapeNameValue user).toList = inked user.toList) :
    escapeNameValue user = user := by
  have hself := List.flatMap_congr (escaped_of_inked h)
  rw [escapeNameValue, hself, ← List.map_eq_flatMap, List.zipIdx_map_fst, String.ofList_toList]

theorem comma_notMem_of_escapeNameValue_eq (h : escapeNameValue user = user) : ',' ∉ user.toList := by
  intro hcomma
  obtain ⟨i, hi⟩ := List.getElem?_of_mem hcomma
  have hink : inked (escapeNameValue user).toList = inked user.toList := by rw [h]
  have hself := escaped_of_inked hink (',', i) (List.mk_mem_zipIdx_iff_getElem?.mpr hi)
  simp [escapeNameChar] at hself

/-! ## The first component of a name -/

theorem comma_notMem_firstComponent {dn : String} {a : String × String} (h : firstComponent? dn = some a) :
    ',' ∉ a.1.toList ∧ ',' ∉ a.2.toList := by
  simp only [firstComponent?, Text.split, Text.splitFirst?, Option.bind_eq_bind, Option.bind_eq_some_iff,
    List.head?_map, Option.map_eq_some_iff] at h
  obtain ⟨-, ⟨l, hl, rfl⟩, -, ⟨⟨cut, hcut, rfl⟩, ha⟩⟩ := h
  obtain rfl := Option.some.inj ha
  have hpart := (Text.cutFirst?_eq_some_iff.mp hcut).2.symm
  have hcomma := Text.notMem_of_mem_splitList (List.mem_of_mem_head? hl)
  rw [String.toList_ofList] at hpart
  rw [← hpart, List.mem_append, List.mem_cons] at hcomma
  simp only [trim, String.toList_ofList]
  exact ⟨fun hmem => hcomma (.inl (Text.mem_of_mem_trimChars hmem)),
    fun hmem => hcomma (.inr (.inr (Text.mem_of_mem_trimChars hmem)))⟩

def Settings.ownName (s : Settings) (user : String) : String :=
  let component := s.userAttribute ++ "=" ++ escapeNameValue user
  if s.baseDn = "" then component else component ++ "," ++ s.baseDn

variable {s : Settings}

theorem head?_split_ownName (h : ',' ∉ (s.userAttribute ++ "=" ++ escapeNameValue user).toList) :
    (Text.split ',' (s.ownName user)).head? = some (s.userAttribute ++ "=" ++ escapeNameValue user) := by
  unfold Settings.ownName
  dsimp only
  split
  · rw [Text.split_of_notMem h, List.head?_cons]
  · have hcomma : (",":String).toList = [','] := rfl
    have hparts : (s.userAttribute ++ "=" ++ escapeNameValue user ++ "," ++ s.baseDn).toList =
        (s.userAttribute ++ "=" ++ escapeNameValue user).toList ++ ',' :: s.baseDn.toList := by
      simp [hcomma]
    rw [Text.split_append hparts h, List.head?_cons]

theorem firstComponent?_ownName (h : PlainName s.userAttribute) (hname : ',' ∉ s.userAttribute.toList)
    (huser : ',' ∉ user.toList) :
    firstComponent? (s.ownName user) = some (s.userAttribute, trim (escapeNameValue user)) := by
  have hequals : '=' ∉ s.userAttribute.toList := fun hmem => h.unmarked _ hmem (by decide)
  have hsign : ("=":String).toList = ['='] := rfl
  have hcomponent : ',' ∉ (s.userAttribute ++ "=" ++ escapeNameValue user).toList := by
    simpa [hsign, hname] using mt comma_mem_escapeNameValue huser
  unfold firstComponent?
  rw [head?_split_ownName hcomponent]
  simp [Text.splitFirst?, hsign, Text.cutFirst?_append hequals, h.trim_eq]

theorem comma_mem_iff_of_sameLetters {a b : String} (h : sameLetters a b = true) :
    ',' ∈ a.toList ↔ ',' ∈ b.toList := by
  have hlower (t : String) : ',' ∈ (lower t).toList ↔ ',' ∈ t.toList := by
    rw [Text.toList_lower, List.mem_map]
    constructor
    · rintro ⟨c, hc, hcomma⟩
      rwa [Text.eq_of_toLower_eq hcomma (by decide)] at hc
    · exact fun hc => ⟨',', hc, by decide⟩
  rw [← hlower a, sameLetters_iff.mp h, hlower b]

theorem sameLetters_trim_escapeNameValue_iff :
    sameLetters (trim (escapeNameValue user)) user = true ↔ trim user = user ∧ escapeNameValue user = user := by
  rw [sameLetters_iff]
  constructor
  · intro h
    have hchars := congrArg String.toList h
    rw [Text.toList_lower, Text.toList_lower, trim, String.toList_ofList] at hchars
    have hink := congrArg inked hchars
    rw [inked_map_toLower, inked_map_toLower, inked_trimChars] at hink
    have hescape := escapeNameValue_eq_of_inked hink
    refine ⟨?_, hescape⟩
    rw [hescape] at hchars
    have hlength := congrArg List.length hchars
    rw [List.length_map, List.length_map] at hlength
    rw [trim, (Text.trimChars_sublist user.toList).eq_of_length hlength, String.ofList_toList]
  · rintro ⟨htrim, hescape⟩
    rw [hescape, htrim]

/-! ## Who is let in -/

/-- The users whose names an entry for them has as a value of the attribute for names. -/
def Settings.Answers (s : Settings) (user : String) : Prop :=
  lower s.userAttribute = "uid" ∨
    lower s.userAttribute = "objectclass" ∧ sameLetters s.userObjectClass user = true ∨
      ',' ∉ s.userAttribute.toList ∧ trim user = user ∧ escapeNameValue user = user

instance (s : Settings) (user : String) : Decidable (s.Answers user) :=
  inferInstanceAs (Decidable (_ ∨ _))

/-- The entry is the user's own: it is directly under the base, it has the user's identifier, the class that is asked
for and the password, and no other entry has its name or is one for the user. -/
structure Owns (verify : String → String → Bool) (entries : List StaticEntry) (s : Settings) (user password : String)
    (e : StaticEntry) : Prop where
  mem : e ∈ entries
  dn_eq : e.dn = s.ownName user
  uid_eq : e.uid = user
  classed : sameLetters e.objectClass s.userObjectClass = true
  verified : verify password e.passwordHash = true
  only_of_name : ∀ other ∈ entries, normalizeName other.dn = normalizeName e.dn → other = e
  only_qualified : ∀ other ∈ entries, Qualifies s user other → other = e

variable {verify : String → String → Bool} {entries : List StaticEntry} {password : String} {e : StaticEntry}

theorem Settings.placed_ownName_iff :
    components (s.userBase user) <:+ components (s.ownName user) ↔ s.baseDn ≠ "" := by
  by_cases h : s.baseDn = ""
  · have hbase : components (s.userBase user) = components (s.ownName user) ++ components "" := by
      rw [Settings.userBase, components_append, h, Settings.ownName, if_pos h]
    refine iff_of_false (fun hsuffix => ?_) (not_not.mpr h)
    have hlength := hsuffix.length_le
    have hroot := List.length_pos_of_ne_nil (components_ne_nil "")
    rw [hbase, List.length_append] at hlength
    omega
  · refine iff_of_true ?_ h
    rw [Settings.ownName, if_neg h]
    exact List.suffix_refl _

theorem firstComponent?_ownName_finds_iff (h : PlainName s.userAttribute) :
    (∃ a, firstComponent? (s.ownName user) = some a ∧ sameLetters a.1 s.userAttribute = true ∧
      sameLetters a.2 user = true) ↔
        ',' ∉ s.userAttribute.toList ∧ trim user = user ∧ escapeNameValue user = user := by
  constructor
  · rintro ⟨a, ha, hname, hvalue⟩
    obtain ⟨hcomma, hcomma'⟩ := comma_notMem_firstComponent ha
    have hattribute := (comma_mem_iff_of_sameLetters hname).not.mp hcomma
    rw [firstComponent?_ownName h hattribute ((comma_mem_iff_of_sameLetters hvalue).not.mp hcomma')] at ha
    cases ha
    exact ⟨hattribute, sameLetters_trim_escapeNameValue_iff.mp hvalue⟩
  · rintro ⟨hattribute, hplain⟩
    have hfirst := firstComponent?_ownName h hattribute (comma_notMem_of_escapeNameValue_eq hplain.2)
    exact ⟨_, hfirst, beq_self_eq_true _, sameLetters_trim_escapeNameValue_iff.mpr hplain⟩

theorem Owns.has_iff (howns : Owns verify entries s user password e) (h : PlainName s.userAttribute) :
    e.Has s.userAttribute user ↔ s.Answers user := by
  have hclass : sameLetters "objectClass" s.userAttribute = true ∧ sameLetters e.objectClass user = true ↔
      lower s.userAttribute = "objectclass" ∧ sameLetters s.userObjectClass user = true := by
    have hkey : lower "objectClass" = "objectclass" := by decide
    rw [sameLetters_iff, sameLetters_iff, sameLetters_iff, hkey, sameLetters_iff.mp howns.classed, eq_comm]
  have hidentifier : sameLetters "uid" s.userAttribute = true ∧ sameLetters e.uid user = true ↔
      lower s.userAttribute = "uid" := by
    have hkey : lower "uid" = "uid" := by decide
    rw [sameLetters_iff, sameLetters_iff, hkey, howns.uid_eq, eq_comm]
    exact and_iff_left rfl
  unfold StaticEntry.Has StaticEntry.attributes Settings.Answers
  rw [List.exists_mem_cons_iff, List.exists_mem_cons_iff, hclass, hidentifier, howns.dn_eq,
    ← firstComponent?_ownName_finds_iff h, or_left_comm]
  simp only [Option.mem_toList]

theorem Owns.qualifies_iff (howns : Owns verify entries s user password e) (h : PlainName s.userAttribute) :
    Qualifies s user e ↔ s.baseDn ≠ "" ∧ s.Answers user := by
  rw [Directory.qualifies_iff, howns.has_iff h, howns.dn_eq, Settings.placed_ownName_iff]
  have hclassed : e.Has "objectClass" s.userObjectClass :=
    ⟨_, List.mem_cons_self, beq_self_eq_true _, howns.classed⟩
  rw [and_iff_right hclassed, and_comm]

theorem find?_eq_some_of_only {α : Type} {p : α → Bool} {l : List α} {a : α} (hmem : a ∈ l) (ha : p a = true)
    (honly : ∀ b ∈ l, p b = true → b = a) : l.find? p = some a := by
  obtain ⟨b, hb⟩ := Option.isSome_iff_exists.mp (List.find?_isSome.mpr ⟨a, hmem, ha⟩)
  rw [hb, honly b (List.mem_of_find?_eq_some hb) (List.find?_some hb)]

theorem Owns.authenticate_iff (howns : Owns verify entries s user password e) (h : PlainName s.userAttribute)
    (huser : user ≠ "") (hpassword : password ≠ "") :
    Login.authenticate ⟨ofEntries verify entries, s⟩ user password = true ↔ Qualifies s user e := by
  rw [authenticate_ofEntries_iff]
  constructor
  · rintro ⟨-, -, f, found, -, hparse, hfound, -⟩
    rw [Settings.parse_userFilter h] at hparse
    cases hparse
    rw [resolved?_eq] at hfound
    have hqualifies : Qualifies s user found := by simpa using List.find?_some hfound
    rwa [howns.only_qualified found (List.mem_of_find?_eq_some hfound) hqualifies] at hqualifies
  · intro hqualifies
    have hfound : entries.find? (fun e => decide (Qualifies s user e)) = some e :=
      find?_eq_some_of_only howns.mem (by simpa using hqualifies) (by simpa using howns.only_qualified)
    have hbound : entryOf? entries e.dn = some e :=
      find?_eq_some_of_only howns.mem (by simp) (by simpa using howns.only_of_name)
    exact ⟨huser, hpassword, _, e, e, Settings.parse_userFilter h user, resolved?_eq.trans hfound, hbound,
      howns.verified⟩

/-- The owner of an entry is let in exactly if the base is not the root and the entry answers to the user's name. -/
theorem placed_user_admitted_iff (howns : Owns verify entries s user password e) (h : PlainName s.userAttribute)
    (huser : user ≠ "") (hpassword : password ≠ "") :
    Login.authenticate ⟨ofEntries verify entries, s⟩ user password = true ↔ s.baseDn ≠ "" ∧ s.Answers user := by
  rw [howns.authenticate_iff h huser hpassword, howns.qualifies_iff h]

theorem owns_of_only {hash : String} (hdn : e.dn = s.ownName e.uid) (hclassed : e.objectClass = s.userObjectClass)
    (hhash : e.passwordHash = hash) (hverify : verify password hash = true) :
    Owns verify [e] s e.uid password e where
  mem := List.mem_singleton_self e
  dn_eq := hdn
  uid_eq := rfl
  classed := sameLetters_iff.mpr (congrArg lower hclassed)
  verified := hhash ▸ hverify
  only_of_name _ h _ := List.mem_singleton.mp h
  only_qualified _ h _ := List.mem_singleton.mp h

theorem placed_user_admitted_iff_of_comma :
    let e : StaticEntry := ⟨"uid=a\\,b,dc=x", "person", "a,b", leastHash "wonderland"⟩
    let s : Settings := ⟨"dc=x", "person", "uid"⟩
    Owns Password.verify [e] s "a,b" "wonderland" e ∧ PlainName s.userAttribute ∧
      Login.authenticate ⟨ofEntries Password.verify [e], s⟩ "a,b" "wonderland" = true := by
  intro e s
  have howns : Owns Password.verify [e] s e.uid "wonderland" e :=
    owns_of_only (by decide) rfl rfl (verify_leastHash "wonderland")
  have hattribute : PlainName s.userAttribute := by decide
  refine ⟨howns, hattribute, ?_⟩
  exact (placed_user_admitted_iff howns hattribute (by decide) (by decide)).mpr (by decide)

/-- The owner of an entry at the root is not let in, and neither is one whose name needs an escape, if it is looked for
by another attribute than the identifier. -/
theorem placed_user_turned_away :
    (let e : StaticEntry := ⟨"uid=alice", "person", "alice", leastHash "wonderland"⟩
      let s : Settings := ⟨"", "person", "uid"⟩
      Owns Password.verify [e] s "alice" "wonderland" e ∧ PlainName s.userAttribute ∧
        Login.authenticate ⟨ofEntries Password.verify [e], s⟩ "alice" "wonderland" = false) ∧
    (let e : StaticEntry := ⟨"cn=a\\,b,dc=example,dc=com", "person", "a,b", leastHash "wonderland"⟩
      let s : Settings := ⟨"dc=example,dc=com", "person", "cn"⟩
      Owns Password.verify [e] s "a,b" "wonderland" e ∧ PlainName s.userAttribute ∧
        Login.authenticate ⟨ofEntries Password.verify [e], s⟩ "a,b" "wonderland" = false) := by
  constructor
  all_goals
    intro e s
    have howns : Owns Password.verify [e] s e.uid "wonderland" e :=
      owns_of_only (by decide) rfl rfl (verify_leastHash "wonderland")
    have hattribute : PlainName s.userAttribute := by decide
    have hrejected : ¬Qualifies s e.uid e := by
      rw [howns.qualifies_iff hattribute]
      decide
    exact ⟨howns, hattribute, Bool.eq_false_iff.mpr
      (mt (howns.authenticate_iff hattribute (by decide) (by decide)).mp hrejected)⟩

end BlobDepot.Directory
