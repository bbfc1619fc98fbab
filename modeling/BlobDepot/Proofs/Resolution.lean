import BlobDepot.Proofs.Parts
import BlobDepot.Proofs.Logins
import BlobDepot.Proofs.SortedMap

/-!
# To whom a name is resolved

The name of a user is resolved to the first entry of the list that has the object class, has the name as a value of the
attribute for names, and lies under the base that is made of the name: `resolved_to_first`. The attribute in the first
component of an entry's own name counts for the class as well: `classed_by_own_name`.
-/

namespace BlobDepot.Directory

open Directory.Filter (PlainName)
open Text (lower sameLetters sameLetters_iff)

/-! ## Values of attributes -/

namespace Entry

variable {e : Entry} {name value : String}

@[simp] theorem hasValue_ofName (dn : String) : (ofName dn).hasValue name value = false := by
  simp [hasValue, values, ofName, SortedMap.get?_empty]

theorem values_addValue (added new : String) :
    (e.addValue added new).values name = if sameLetters added name then e.values added ++ [new] else e.values name := by
  by_cases h : sameLetters added name = true
  · have hkey := sameLetters_iff.mp h
    simp [h, values, addValue, ← hkey, SortedMap.get?_insert_self]
  · have hkey : lower name ≠ lower added := fun heq => h (sameLetters_iff.mpr heq.symm)
    simp [h, values, addValue, SortedMap.get?_insert_of_ne _ _ hkey]

theorem hasValue_congr {name' value' : String} (hname : sameLetters name name' = true)
    (hvalue : sameLetters value value' = true) : e.hasValue name value = e.hasValue name' value' := by
  rw [sameLetters_iff] at hname hvalue
  simp [hasValue, values, sameLetters, hname, hvalue]

theorem hasValue_addValue (added new : String) : (e.addValue added new).hasValue name value = true ↔
    e.hasValue name value = true ∨ sameLetters added name = true ∧ sameLetters new value = true := by
  by_cases h : sameLetters added name = true
  · have hown : e.hasValue added value = e.hasValue name value := hasValue_congr h (sameLetters_iff.mpr rfl)
    rw [← hown]
    simp [hasValue, values_addValue, h]
  · simp [hasValue, values_addValue, h]

/-- A value that is there already up to case makes no difference to what is found. -/
theorem hasValue_addMissing (added new : String) :
    (if e.hasValue added new then e else e.addValue added new).hasValue name value = true ↔
      e.hasValue name value = true ∨ sameLetters added name = true ∧ sameLetters new value = true := by
  split
  · next hpresent => exact ⟨.inl, fun h => h.elim id fun hsame => hasValue_congr hsame.1 hsame.2 ▸ hpresent⟩
  · exact hasValue_addValue added new

end Entry

namespace StaticEntry

variable {e : StaticEntry} {name value : String}

/-- The attributes of an entry with their values: its class, its identifier, and the first component of its name. -/
def attributes (e : StaticEntry) : List (String × String) :=
  ("objectClass", e.objectClass) :: ("uid", e.uid) :: (firstComponent? e.dn).toList

def Has (e : StaticEntry) (name value : String) : Prop :=
  ∃ a ∈ e.attributes, sameLetters a.1 name = true ∧ sameLetters a.2 value = true

instance : Decidable (e.Has name value) :=
  inferInstanceAs (Decidable (∃ a ∈ e.attributes, _))

theorem hasValue_entry : e.entry.hasValue name value = true ↔ e.Has name value := by
  unfold entry Has attributes
  dsimp only
  cases firstComponent? e.dn with
  | none => simp [Entry.hasValue_addValue]
  | some a =>
    dsimp only
    rw [Entry.hasValue_addMissing, Entry.hasValue_addValue, Entry.hasValue_addValue]
    simp [or_assoc]

end StaticEntry

/-! ## Entries for a user -/

structure Qualifies (s : Settings) (user : String) (e : StaticEntry) : Prop where
  classed : e.Has "objectClass" s.userObjectClass
  named : e.Has s.userAttribute user
  placed : components (s.userBase user) <:+ components e.dn

variable {verify : String → String → Bool} {entries : List StaticEntry} {s : Settings} {user : String} {e : StaticEntry}

theorem qualifies_iff : Qualifies s user e ↔ e.Has "objectClass" s.userObjectClass ∧ e.Has s.userAttribute user ∧
    components (s.userBase user) <:+ components e.dn :=
  ⟨fun h => ⟨h.classed, h.named, h.placed⟩, fun ⟨hclassed, hnamed, hplaced⟩ => ⟨hclassed, hnamed, hplaced⟩⟩

instance : Decidable (Qualifies s user e) :=
  decidable_of_iff _ qualifies_iff.symm

theorem Settings.found_iff_qualifies :
    (isInSubtree (normalizeName e.dn) (normalizeName (s.userBase user)) &&
      (Filter.all [.equal "objectClass" s.userObjectClass, .equal s.userAttribute user]).holds e.entry) = true ↔
        Qualifies s user e := by
  have hbase : normalizeName (s.userBase user) ≠ "" := normalizeName_append_ne_empty _ s.baseDn
  simp only [Filter.holds, Filter.allHold, Bool.and_true, Bool.and_eq_true, StaticEntry.hasValue_entry,
    isInSubtree_iff hbase, qualifies_iff]
  exact and_comm.trans and_assoc

theorem resolved?_eq : resolved? entries (.all [.equal "objectClass" s.userObjectClass, .equal s.userAttribute user])
    (s.userBase user) = entries.find? fun e => decide (Qualifies s user e) := by
  rw [resolved?]
  refine congrArg (List.find? · entries) (funext fun e => ?_)
  rw [Bool.eq_iff_iff, Settings.found_iff_qualifies, decide_eq_true_iff]

/-- A name is resolved without fail, to the first entry of the list that qualifies. -/
theorem resolved_to_first (h : PlainName s.userAttribute) (user : String) :
    Login.findUser ⟨ofEntries verify entries, s⟩ user =
      .ok ((entries.find? fun e => decide (Qualifies s user e)).map StaticEntry.dn) := by
  rw [findUser_ofEntries (Settings.parse_userFilter h user), resolved?_eq]

theorem resolved_to_first_of_three :
    let entries : List StaticEntry :=
      [⟨"uid=b,dc=x", "user", "b", "!"⟩, ⟨"cn=b, UID=Al, dc=x", "user", "al", "!"⟩, ⟨"uid=al,dc=x", "User", "-", "!"⟩]
    PlainName "Uid" ∧ Login.findUser ⟨ofEntries Password.verify entries, ⟨"DC=X", "user", "Uid"⟩⟩ "al" =
      .ok (some "cn=b, UID=Al, dc=x") := by
  refine ⟨by decide, ?_⟩
  rw [resolved_to_first (s := ⟨"DC=X", "user", "Uid"⟩) (by decide)]
  decide +kernel

/-- An entry of another class is found all the same if its name begins with the class that is asked for. -/
theorem classed_by_own_name :
    let entries : List StaticEntry := [⟨"objectClass=staff,uid=alice,dc=x", "person", "alice", "!"⟩]
    let s : Settings := ⟨"dc=x", "staff", "uid"⟩
    PlainName s.userAttribute ∧ (∀ e ∈ entries, sameLetters e.objectClass s.userObjectClass = false) ∧
      Login.findUser ⟨ofEntries Password.verify entries, s⟩ "alice" = .ok (some "objectClass=staff,uid=alice,dc=x") ∧
        Login.findUser ⟨ofEntries Password.verify entries, s⟩ "alice" ≠
          .ok ((entries.find? fun e => sameLetters e.objectClass s.userObjectClass &&
            decide (e.Has s.userAttribute "alice" ∧ components (s.userBase "alice") <:+ components e.dn)).map
              StaticEntry.dn) := by
  intro entries s
  have hfound : Login.findUser ⟨ofEntries Password.verify entries, s⟩ "alice" =
      .ok (some "objectClass=staff,uid=alice,dc=x") := by
    rw [findUser_ofEntries (Settings.parse_userFilter (by decide) _), resolved?_eq]
    decide
  refine ⟨by decide, by decide, hfound, ?_⟩
  rw [hfound]
  decide

end BlobDepot.Directory
