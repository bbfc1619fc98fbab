import BlobDepot.Directory.Login
import BlobDepot.Proofs.Escapes
import BlobDepot.Proofs.Passwords

/-!
# Whose password opens a login

A login resolves the name of a user to an entry by a search, and then asks for the password of the first entry whose
normalized name is that of the resolved one: `opened_by_resolved_entry`. Normalizing a name takes no notice of escapes,
so that this may be another entry: `opened_by_other_entry`.
-/

namespace BlobDepot.Directory

def resolved? (entries : List StaticEntry) (f : Filter) (base : String) : Option StaticEntry :=
  entries.find? fun e => isInSubtree (normalizeName e.dn) (normalizeName base) && f.holds e.entry

theorem StaticEntry.entry_dn (e : StaticEntry) : e.entry.dn = e.dn := by
  unfold entry
  dsimp only
  split
  · split <;> rfl
  · rfl

theorem head?_found (entries : List StaticEntry) (f : Filter) (base : String) :
    (found entries f base).head? = (resolved? entries f base).map StaticEntry.entry := by
  have htest : (fun e : Entry => isInSubtree (normalizeName e.dn) (normalizeName base) && f.holds e) ∘
      StaticEntry.entry = fun e => isInSubtree (normalizeName e.dn) (normalizeName base) && f.holds e.entry := by
    funext e
    rw [Function.comp_apply, e.entry_dn]
  rw [found, List.head?_filter, List.find?_map, htest]
  rfl

theorem entryOf?_eq_some {entries : List StaticEntry} {dn : String} {e : StaticEntry}
    (h : entryOf? entries dn = some e) : e ∈ entries ∧ normalizeName e.dn = normalizeName dn := by
  unfold entryOf? at h
  have hname := List.find?_some h
  exact ⟨List.mem_of_find?_eq_some h, eq_of_beq hname⟩

section

variable {verify : String → String → Bool} {entries : List StaticEntry} {s : Settings}

theorem search_ofEntries {filter : String} {f : Filter} (h : Filter.parse filter = .ok f) (base : String) :
    (ofEntries verify entries).search filter base = .ok (found entries f base) := by
  unfold ofEntries
  dsimp only
  rw [h]

theorem search_ofEntries_error {filter : String} {e : Filter.Fault} (h : Filter.parse filter = .error e)
    (base : String) : (ofEntries verify entries).search filter base = .error (.invalidRequest e.message) := by
  unfold ofEntries
  dsimp only
  rw [h]

theorem bind_ofEntries {password : String} (h : password ≠ "") (dn : String) :
    (ofEntries verify entries).bind dn password =
      .ok ((entryOf? entries dn).any fun e => verify password e.passwordHash) := by
  unfold ofEntries
  dsimp only
  rw [bne_iff_ne.mpr h, Bool.true_and]
  cases entryOf? entries dn <;> rfl

theorem findUser_ofEntries {user : String} {f : Filter} (h : Filter.parse (s.userFilter user) = .ok f) :
    Login.findUser ⟨ofEntries verify entries, s⟩ user =
      .ok ((resolved? entries f (s.userBase user)).map StaticEntry.dn) := by
  unfold Login.findUser
  dsimp only
  have hdn : (fun e : Entry => e.dn) ∘ StaticEntry.entry = StaticEntry.dn := funext StaticEntry.entry_dn
  rw [search_ofEntries h, bind_ok, head?_found, Option.map_map, hdn]
  rfl

theorem findUser_ofEntries_error {user : String} {e : Filter.Fault} (h : Filter.parse (s.userFilter user) = .error e) :
    Login.findUser ⟨ofEntries verify entries, s⟩ user = .error (.invalidRequest e.message) := by
  unfold Login.findUser
  dsimp only
  rw [search_ofEntries_error h]
  rfl

/-- A user is admitted if the name resolves to an entry, and the first entry of its name has the password. -/
theorem authenticate_ofEntries_iff {user password : String} :
    Login.authenticate ⟨ofEntries verify entries, s⟩ user password = true ↔ user ≠ "" ∧ password ≠ "" ∧
      ∃ f found bound, Filter.parse (s.userFilter user) = .ok f ∧ resolved? entries f (s.userBase user) = some found ∧
        entryOf? entries found.dn = some bound ∧ verify password bound.passwordHash = true := by
  unfold Login.authenticate
  rw [Bool.and_eq_true, Bool.and_eq_true, bne_iff_ne, bne_iff_ne, and_assoc]
  refine and_congr_right fun _ => and_congr_right fun hpassword => ?_
  cases hparse : Filter.parse (s.userFilter user) with
  | error e =>
    rw [findUser_ofEntries_error hparse]
    simp
  | ok f =>
    rw [findUser_ofEntries hparse]
    cases hfound : resolved? entries f (s.userBase user) with
    | none => simp [hfound]
    | some e =>
      have hbind : (ofEntries verify entries).bind e.dn password = _ := bind_ofEntries hpassword e.dn
      simp [hfound, hbind, Option.any_eq_true]

/-- Whoever is admitted has the password of the first entry of the name that was resolved. That is the resolved entry
itself, unless another one has its normalized name. -/
theorem opened_by_resolved_entry {user password : String}
    (h : Login.authenticate ⟨ofEntries verify entries, s⟩ user password = true) :
    ∃ f found bound, Filter.parse (s.userFilter user) = .ok f ∧ resolved? entries f (s.userBase user) = some found ∧
      Login.findUser ⟨ofEntries verify entries, s⟩ user = .ok (some found.dn) ∧
        entryOf? entries found.dn = some bound ∧ verify password bound.passwordHash = true ∧
          ((∀ e ∈ entries, normalizeName e.dn = normalizeName found.dn → e = found) →
            verify password found.passwordHash = true) := by
  obtain ⟨-, -, f, found, bound, hparse, hfound, hbound, hverify⟩ := authenticate_ofEntries_iff.mp h
  refine ⟨f, found, bound, hparse, hfound, ?_, hbound, hverify, fun hunique => ?_⟩
  · rw [findUser_ofEntries hparse, hfound]
    rfl
  · obtain ⟨hmem, hname⟩ := entryOf?_eq_some hbound
    rw [← hunique bound hmem hname]
    exact hverify

end

def leastHash (password : String) : String :=
  Password.Hasher.hash ⟨8, 1⟩ (Text.Utf8.encode "0123456789abcdef") password

theorem verify_leastHash (password : String) : Password.verify password (leastHash password) = true :=
  Password.verify_hash (by decide) (by decide) (by decide) (by decide) (by decide) (by decide) password

theorem StaticEntry.entry_passwordHash (dn objectClass uid hash : String) :
    entry ⟨dn, objectClass, uid, hash⟩ = entry ⟨dn, objectClass, uid, ""⟩ := rfl

theorem opened_by_resolved_entry_of_two :
    let entries : List StaticEntry :=
      [⟨"uid=a\\,b,dc=x", "person", "a,b", leastHash "one"⟩, ⟨"uid=c,dc=x", "person", "c", leastHash "two"⟩]
    Login.authenticate ⟨ofEntries Password.verify entries, ⟨"dc=x", "person", "uid"⟩⟩ "a,b" "one" = true ∧
      ∃ found ∈ entries, Login.findUser ⟨ofEntries Password.verify entries, ⟨"dc=x", "person", "uid"⟩⟩ "a,b" =
          .ok (some found.dn) ∧ Password.verify "one" found.passwordHash = true := by
  intro entries
  have hparse : Filter.parse (Settings.userFilter ⟨"dc=x", "person", "uid"⟩ "a,b") =
      .ok (.all [.equal "objectClass" "person", .equal "uid" "a,b"]) :=
    Settings.parse_userFilter (by decide) _
  have hfirst : resolved? entries (.all [.equal "objectClass" "person", .equal "uid" "a,b"])
      (Settings.userBase ⟨"dc=x", "person", "uid"⟩ "a,b") = entries.head? := by
    refine List.find?_cons_of_pos ?_
    -- a search does not look at hashes, and this one is not to be computed
    rw [StaticEntry.entry_passwordHash]
    dsimp only
    rfl
  have hbound : entryOf? entries "uid=a\\,b,dc=x" = entries.head? := List.find?_cons_of_pos (beq_self_eq_true _)
  have h := authenticate_ofEntries_iff.mpr ⟨by decide, by decide, _, _, _, hparse, hfirst, hbound, verify_leastHash "one"⟩
  obtain ⟨f, found, bound, -, hfound, huser, -, -, hunique⟩ := opened_by_resolved_entry h
  have hmem : found ∈ entries := List.mem_of_find?_eq_some hfound
  refine ⟨h, found, hmem, huser, hunique fun e he hname => ?_⟩
  simp only [entries, List.mem_cons, List.not_mem_nil, or_false] at he hmem
  rcases he with rfl | rfl <;> rcases hmem with rfl | rfl
  · rfl
  · exact absurd hname (by dsimp only; decide)
  · exact absurd hname (by dsimp only; decide)
  · rfl

/-! ## Names with escapes -/

/-- Two entries whose names differ in a blank behind a comma that is part of a value. -/
def namesakes (hash other : String) : List StaticEntry :=
  [⟨"uid=a\\,b,dc=x", "person", "a,b", hash⟩, ⟨"uid=a\\, b,dc=x", "person", "a, b", other⟩]

theorem resolved?_namesakes (hash other : String) :
    resolved? (namesakes hash other) (.all [.equal "objectClass" "person", .equal "uid" "a, b"])
      (Settings.userBase ⟨"dc=x", "person", "uid"⟩ "a, b") = some ⟨"uid=a\\, b,dc=x", "person", "a, b", other⟩ := by
  unfold resolved? namesakes
  rw [List.find?_cons_of_neg, List.find?_cons_of_pos]
  · rw [StaticEntry.entry_passwordHash]
    dsimp only
    rfl
  · rw [StaticEntry.entry_passwordHash]
    dsimp only
    exact Bool.eq_false_iff.mp rfl

theorem entryOf?_namesakes (hash other : String) :
    entryOf? (namesakes hash other) "uid=a\\, b,dc=x" = some ⟨"uid=a\\,b,dc=x", "person", "a,b", hash⟩ := by
  unfold entryOf? namesakes
  rw [List.find?_cons_of_pos]
  dsimp only
  rfl

/-- The second of two namesakes cannot log in with any password of its own, but is logged in with that of the first. -/
theorem opened_by_other_entry :
    Text.sameLetters "uid=a\\,b,dc=x" "uid=a\\, b,dc=x" = false ∧
      Login.findUser ⟨ofEntries Password.verify (namesakes (leastHash "one") "!"), ⟨"dc=x", "person", "uid"⟩⟩ "a, b" =
          .ok (some "uid=a\\, b,dc=x") ∧
        Login.authenticate ⟨ofEntries Password.verify (namesakes (leastHash "one") "!"), ⟨"dc=x", "person", "uid"⟩⟩
            "a, b" "one" = true ∧
          Password.verify "one" "!" = false := by
  have hparse : Filter.parse (Settings.userFilter ⟨"dc=x", "person", "uid"⟩ "a, b") =
      .ok (.all [.equal "objectClass" "person", .equal "uid" "a, b"]) :=
    Settings.parse_userFilter (by decide) _
  refine ⟨rfl, ?_, ?_, rfl⟩
  · rw [findUser_ofEntries hparse, resolved?_namesakes]
    rfl
  · exact authenticate_ofEntries_iff.mpr ⟨by decide, by decide, _, _, _, hparse, resolved?_namesakes _ _,
      entryOf?_namesakes _ _, verify_leastHash _⟩

end BlobDepot.Directory
