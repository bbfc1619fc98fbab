import BlobDepot.Config.Encoding
import BlobDepot.Proofs.Addresses
import BlobDepot.Proofs.Decoding
import BlobDepot.Proofs.TomlDocuments
import Mathlib.Data.List.Forall2

/-!
# Configurations and their texts

A configuration that has been read is written as a text that is read as the same configuration, with its secrets and
without them: `printed_and_read_back`.
-/

namespace BlobDepot

open Decoder Toml

/-! ## Values -/

theorem SocketAddress.decode_text (a : SocketAddress) : decode (.text a.text) = .ok a := by
  rw [decode, text_text, bind_ok, parse?_text]
  rfl

theorem CatalogBackend.decode_tree (b : CatalogBackend) (room : Nat) : decode room (tree b.value) = .ok b := by
  cases b with
  | memory => simp [decode, value, treeFields, takeName, named, withFields, bind_ok]
  | sqlite path =>
    simp [decode, value, treeFields, takeName, named, withFields, fields, takeFields, Slot.take_of_ok (text_text path),
      Found.optional, Tree.strictFault, bind_ok]

theorem VaultSettings.decode_tree {v : VaultSettings} (hlimit : (v.spoolLimit : Int) ≤ Word.maxNat64) :
    decode (tree v.value) = .ok v := by
  simp [decode, value, treeFields, fields, takeFields, Slot.take_of_ok (text_text v.path),
    Slot.take_of_ok (nat64_int hlimit), nat64_int hlimit, Found.optional, bind_ok]

theorem Directory.StaticEntry.decode_tree (e : StaticEntry) : decode (tree e.value) = .ok e := by
  simp [decode, value, treeFields, fields, takeFields, Slot.take_of_ok (text_text _), Found.required, Found.optional,
    bind_ok]

/-- The entries may be any list that is read as them. -/
theorem DirectorySection.decode_record (d : DirectorySection) (room : Nat) {entries : Tree}
    (hentries : Decoder.list Directory.StaticEntry.decode entries = .ok d.entries) :
    decode room (.record [(.text "enabled", .bool d.enabled), (.text "base_dn", .text d.settings.baseDn),
      (.text "user_object_class", .text d.settings.userObjectClass),
      (.text "user_attribute", .text d.settings.userAttribute), (.text "entries", entries)] none) = .ok d := by
  simp [decode, takeOwn, slots, isOwn, Directory.Settings.decode, Directory.Settings.slots, Directory.Settings.ofFound,
    fields, takeFields, Slot.take_of_ok (text_text _), Slot.take_of_ok (bool_bool _), Slot.take_of_ok hentries, hentries,
    Found.optional, Tree.strictFault, bind_ok]

theorem DirectorySection.decode_tree (d : DirectorySection) (room : Nat) : decode room (tree d.value) = .ok d := by
  have hentries : Decoder.list Directory.StaticEntry.decode (tree (.list (d.entries.map Directory.StaticEntry.value))) =
      .ok d.entries := by
    rw [tree_list, List.map_map]
    exact list_of_ok Directory.StaticEntry.decode_tree d.entries none
  exact d.decode_record room hentries

theorem Config.decode_tree {c : Config} (hlimit : (c.vault.spoolLimit : Int) ≤ Word.maxNat64) (levels : Nat) :
    decode levels (tree c.value) = .ok c := by
  have hlisten := SocketAddress.decode_text c.listen
  have hcatalog := CatalogBackend.decode_tree c.catalog (levels - 1)
  have hvault := VaultSettings.decode_tree hlimit
  have hdirectory := DirectorySection.decode_tree c.directory (levels - 1)
  simp [decode, value, fields, treeFields, Decoder.fields, takeFields, Slot.take_of_ok (text_text _),
    Slot.take_of_ok (bool_bool _), Slot.take_of_ok hlisten, Slot.take_of_ok hcatalog, Slot.take_of_ok hvault,
    Slot.take_of_ok hdirectory, hlisten, hcatalog, hvault, hdirectory, Found.optional, bind_ok]

/-! ## Documents -/

theorem CatalogBackend.isTables_value (b : CatalogBackend) (n : Nat) : IsTables (IsDocument n) b.value := by
  cases b with
  | memory =>
    have hkeys : AreKeys ["backend"] := by decide
    refine .record (isDocument_of_inline ?_ ?_ n)
    · exact hkeys
    · exact List.forall_mem_singleton.mpr (.text _)
  | sqlite path =>
    have hkeys : AreKeys ["backend", "path"] := by decide
    refine .record (isDocument_of_inline ?_ ?_ n)
    · exact hkeys
    · simp only [List.forall_mem_cons]
      exact ⟨.text _, .text _, List.forall_mem_nil _⟩

theorem VaultSettings.isTables_value {v : VaultSettings} (hlimit : (v.spoolLimit : Int) ≤ Word.maxInt64) (n : Nat) :
    IsTables (IsDocument n) v.value := by
  have hkeys : AreKeys ["path", "memory_spool_limit"] := by decide
  refine .record (isDocument_of_inline ?_ ?_ n)
  · exact hkeys
  · simp only [List.forall_mem_cons]
    exact ⟨.text _, .nat hlimit, List.forall_mem_nil _⟩

theorem Directory.StaticEntry.isDocument_value (e : StaticEntry) (n : Nat) :
    ∃ fields, e.value = .record fields ∧ IsDocument n fields := by
  have hkeys : AreKeys ["dn", "object_class", "uid", "password_hash"] := by decide
  refine ⟨_, rfl, isDocument_of_inline ?_ ?_ n⟩
  · exact hkeys
  · simp only [List.forall_mem_cons]
    exact ⟨.text _, .text _, .text _, .text _, List.forall_mem_nil _⟩

theorem DirectorySection.isTables_value (d : DirectorySection) (n : Nat) : IsTables (IsDocument (n + 1)) d.value := by
  have hkeys : AreKeys ["enabled", "base_dn", "user_object_class", "user_attribute", "entries"] := by decide
  have hplain : ∀ f ∈ ("enabled", Value.bool d.enabled) :: d.settings.valueFields, IsInline f.2 := by
    simp only [Directory.Settings.valueFields, List.forall_mem_cons]
    exact ⟨.bool _, .text _, .text _, .text _, List.forall_mem_nil _⟩
  have hentries : ∀ v ∈ d.entries.map Directory.StaticEntry.value, ∃ fields, v = .record fields ∧ IsDocument n fields := by
    intro v hv
    obtain ⟨e, -, rfl⟩ := List.mem_map.mp hv
    exact e.isDocument_value n
  apply IsTables.record
  by_cases hempty : d.entries = []
  · -- A list without entries is a plain field like the others.
    refine isDocument_of_inline (by exact hkeys) (fun f hf => ?_) (n + 1)
    apply (List.mem_append.mp hf).elim (hplain f)
    intro hlast
    rw [List.mem_singleton.mp hlast, hempty]
    exact .empty
  · refine ⟨hkeys, _, _, rfl, hplain, ?_⟩
    exact List.forall_mem_singleton.mpr (.items (by simpa using hempty) hentries)

theorem Config.isDocument_fields {c : Config} (hlimit : (c.vault.spoolLimit : Int) ≤ Word.maxInt64) :
    IsDocument 2 c.fields := by
  have hkeys : AreKeys ["listen", "host", "scheme", "public", "admin_user", "admin_pass", "meta", "content",
    "directory"] := by decide
  refine ⟨hkeys, [("listen", .text c.listen.text), ("host", .text c.host), ("scheme", .text c.scheme),
    ("public", .bool c.isPublic), ("admin_user", .text c.adminUser), ("admin_pass", .text c.adminPass)],
    [("meta", c.catalog.value), ("content", c.vault.value), ("directory", c.directory.value)], rfl, ?_, ?_⟩
  · simp only [List.forall_mem_cons]
    exact ⟨.text _, .text _, .text _, .bool _, .text _, .text _, List.forall_mem_nil _⟩
  · simp only [List.forall_mem_cons]
    exact ⟨c.catalog.isTables_value 1, VaultSettings.isTables_value hlimit 1, c.directory.isTables_value 0,
      List.forall_mem_nil _⟩

/-! ## Limits -/

theorem VaultSettings.standard_spoolLimit_le : (standard.spoolLimit : Int) ≤ Word.maxInt64 := by
  decide

theorem VaultSettings.spoolLimit_le {v : VaultSettings} {t : Tree} (ht : t.Fits) (h : decode t = .ok v) :
    (v.spoolLimit : Int) ≤ Word.maxInt64 := by
  simp only [decode, bind_eq_ok] at h
  obtain ⟨found, hfound, path, -, limit, hlimit, hpure⟩ := h
  cases hpure
  rcases Found.optional_eq_ok (fit_fields hfound ht) hlimit with rfl | ⟨t', ht', hlimit⟩
  · exact standard_spoolLimit_le
  · exact nat64_le ht' hlimit

namespace Config

theorem spoolLimit_le_of_decode {levels : Nat} {t : Tree} {c : Config} (ht : t.Fits) (h : decode levels t = .ok c) :
    (c.vault.spoolLimit : Int) ≤ Word.maxInt64 := by
  simp only [decode, bind_eq_ok] at h
  obtain ⟨found, hfound, _, -, _, -, _, -, _, -, _, -, _, -, _, -, vault, hvault, _, -, hpure⟩ := h
  cases hpure
  rcases Found.optional_eq_ok (fit_fields hfound ht) hvault with rfl | ⟨t', ht', hvault⟩
  · exact VaultSettings.standard_spoolLimit_le
  · exact VaultSettings.spoolLimit_le ht' hvault

/-- The limit of a configuration that has been read can be written. -/
theorem spoolLimit_le {s : String} {c : Config} (h : ofToml s = .ok c) : (c.vault.spoolLimit : Int) ≤ Word.maxInt64 := by
  unfold ofToml at h
  split at h
  · cases h
  · next t hread =>
    split at h
    · next c' hdecode =>
      cases h
      exact spoolLimit_le_of_decode (fits_of_read? hread) hdecode
    · cases h

/-! ## Texts -/

/-- A configuration is read back from its own text, if the limit can be written. -/
theorem ofToml_toToml {c : Config} (hlimit : (c.vault.spoolLimit : Int) ≤ Word.maxInt64) :
    ∃ s, c.toToml = .ok s ∧ ofToml s = .ok c := by
  obtain ⟨s, hwrite, hread⟩ := read?_write? (isDocument_fields hlimit) (by decide)
  have hlimit' : (c.vault.spoolLimit : Int) ≤ Word.maxNat64 := Int.le_trans hlimit (by decide)
  refine ⟨s, by rw [toToml, hwrite], ?_⟩
  have hdecode : decode (s.length + 2) (tree (.record c.fields)) = .ok c := decode_tree hlimit' _
  rw [ofToml, hread]
  dsimp only
  rw [hdecode]

/-- Two configurations that differ in nothing but a password that is set and the hashes of passwords. -/
structure SameButSecrets (c d : Config) : Prop where
  rest : d = { c with adminPass := d.adminPass, directory.entries := d.directory.entries }
  unset : c.adminPass = "" → d.adminPass = ""
  entries : List.Forall₂ (fun e e' => e' = { e with passwordHash := e'.passwordHash }) c.directory.entries
    d.directory.entries

theorem sameButSecrets_redacted (c : Config) : SameButSecrets c c.redacted where
  rest := rfl
  unset h := if_pos h
  entries := by
    rw [redacted]
    induction c.directory.entries with
    | nil => exact .nil
    | cons e r ih => exact .cons rfl ih

theorem masked_redacted (c : Config) : (c.adminPass ≠ "" → c.redacted.adminPass = mask) ∧
    ∀ e ∈ c.redacted.directory.entries, e.passwordHash = mask := by
  refine ⟨fun h => if_neg h, fun e he => ?_⟩
  obtain ⟨e', -, rfl⟩ := List.mem_map.mp he
  rfl

/-- Nothing of a secret is left but whether there is a password at all. -/
theorem SameButSecrets.redacted_eq {c d : Config} (h : SameButSecrets c d)
    (hset : d.adminPass = "" → c.adminPass = "") : d.redacted = c.redacted := by
  have hpass : d.redacted.adminPass = c.redacted.adminPass := by
    by_cases hc : c.adminPass = ""
    · exact (if_pos (h.unset hc)).trans (if_pos hc).symm
    · exact (if_neg (mt hset hc)).trans (if_neg hc).symm
  have hentries : d.redacted.directory.entries = c.redacted.directory.entries := by
    unfold redacted
    dsimp only
    have hall := h.entries
    generalize c.directory.entries = l, d.directory.entries = l' at hall
    induction hall with
    | nil => rfl
    | cons he _ ih => rw [List.map_cons, List.map_cons, ih, he]
  have hrest : d.redacted = { c.redacted with
      adminPass := d.redacted.adminPass, directory.entries := d.redacted.directory.entries } := by
    rw [h.rest]
    rfl
  rw [hrest, hpass, hentries]

theorem printed_and_read_back {s : String} {c : Config} (h : ofToml s = .ok c) :
    (∃ t, c.toToml = .ok t ∧ ofToml t = .ok c) ∧ (∃ t, c.redacted.toToml = .ok t ∧ ofToml t = .ok c.redacted) ∧
      SameButSecrets c c.redacted := by
  have hlimit := spoolLimit_le h
  have hredacted : (c.redacted.vault.spoolLimit : Int) ≤ Word.maxInt64 := hlimit
  exact ⟨ofToml_toToml hlimit, ofToml_toToml hredacted, sameButSecrets_redacted c⟩

/-- An address of the sixth version, a password that is set, the largest limit and an entry without a class. -/
theorem printed_and_read_back_with_entry :
    let s := "listen = \"[::1]:80\"\nadmin_pass = \"secret\"\n[content]\nmemory_spool_limit = 9223372036854775807\n" ++
      "[[directory.entries]]\ndn = \"uid=ada\"\nuid = \"ada\"\npassword_hash = \"none\"\n"
    let c := { standard with
      listen := .v6 ⟨[0, 0, 0, 0, 0, 0, 0, 1], rfl⟩ 0 80
      adminPass := "secret"
      vault.spoolLimit := 9223372036854775807
      directory.entries := [⟨"uid=ada", Directory.Settings.standard.userObjectClass, "ada", "none"⟩] }
    ofToml s = .ok c ∧ (∃ t, c.toToml = .ok t ∧ ofToml t = .ok c) ∧
      (∃ t, c.redacted.toToml = .ok t ∧ ofToml t = .ok c.redacted) ∧ SameButSecrets c c.redacted ∧
      c.redacted = { c with
        adminPass := "********"
        directory.entries := [⟨"uid=ada", Directory.Settings.standard.userObjectClass, "ada", "********"⟩] } := by
  intro s c
  have h : ofToml s = .ok c := by decide +kernel
  obtain ⟨whole, masked, hsame⟩ := printed_and_read_back h
  exact ⟨h, whole, masked, hsame, by decide⟩

end Config

end BlobDepot
