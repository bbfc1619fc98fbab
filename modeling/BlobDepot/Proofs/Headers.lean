import BlobDepot.Service
import BlobDepot.Proofs.Base64
import BlobDepot.Proofs.Characters
import BlobDepot.Proofs.Parts

/-!
# Names and passwords in headers

A name without colons and any password are read from each header that is written of them, in either alphabet of Base64,
and from no other header: `parsed_iff_presents`.
-/

namespace BlobDepot

open Text (isBlank lower trimChars)
open Text.Base64 (Alphabet encodePadded)

def credentialBytes (user password : String) : List UInt8 :=
  Text.Utf8.encode (user ++ ":" ++ password)

/-- A header that is written of a name and a password: the scheme, a space, and the payload in one of the alphabets.
There may be more blanks in front of the payload and around all of it. -/
inductive Presents (header user password : String) : Prop
  | intro (before gap after : List Char) (scheme : String) (a : Alphabet) :
    (∀ c ∈ before ++ gap ++ after, isBlank c = true) → lower scheme = "basic" → ':' ∉ user.toList →
      header.toList =
        before ++ (scheme.toList ++ ' ' :: gap ++ encodePadded a (credentialBytes user password)) ++ after →
          Presents header user password

section
variable {user password : String}

theorem toList_credentials : (user ++ ":" ++ password).toList = user.toList ++ ':' :: password.toList := by
  simp [String.toList_append]

theorem payload_ne_nil (a : Alphabet) : encodePadded a (credentialBytes user password) ≠ [] := by
  refine Text.Base64.encodePadded_ne_nil a (Text.Utf8.encode_ne_nil fun hempty => ?_)
  have hcut : (user ++ ":" ++ password).toList = _ := toList_credentials
  rw [hempty] at hcut
  simp at hcut

theorem decodePayload?_eq_some_iff {payload : List Char} {bytes : List UInt8} :
    decodePayload? payload = some bytes ↔ ∃ a, payload = encodePadded a bytes := by
  unfold decodePayload?
  constructor
  · intro h
    cases hstandard : Text.Base64.decodePadded? .standard payload with
    | some read =>
      rw [hstandard] at h
      cases h
      exact ⟨.standard, Text.Base64.decodePadded?_eq_some_iff.mp hstandard⟩
    | none =>
      rw [hstandard] at h
      exact ⟨.urlSafe, Text.Base64.decodePadded?_eq_some_iff.mp h⟩
  · intro h
    obtain ⟨a, rfl⟩ := h
    cases hstandard : Text.Base64.decodePadded? .standard (encodePadded a bytes) with
    | some read =>
      -- A payload in the other alphabet that is read here as well is read as the same bytes.
      rw [Text.Base64.encodePadded_inj (Text.Base64.decodePadded?_eq_some_iff.mp hstandard)]
    | none =>
      cases a with
      | standard =>
        rw [Text.Base64.decodePadded?_encodePadded] at hstandard
        cases hstandard
      | urlSafe => exact Text.Base64.decodePadded?_encodePadded .urlSafe bytes

theorem eq_credentials_iff {s : String} :
    s = user ++ ":" ++ password ↔ s.toList = user.toList ++ ':' :: password.toList := by
  rw [← String.toList_inj, toList_credentials]

/-- What is read of a header, part by part. -/
theorem parseBasic?_eq_some_iff {header : String} : parseBasic? header = some (user, password) ↔
    ∃ scheme rest a, ' ' ∉ scheme.toList ∧ trimChars header.toList = scheme.toList ++ ' ' :: rest ∧
      lower scheme = "basic" ∧ ':' ∉ user.toList ∧ trimChars rest = encodePadded a (credentialBytes user password) := by
  have hbasic : lower "basic" = "basic" := by decide
  constructor
  · intro h
    obtain ⟨⟨scheme, rest⟩, hscheme, h⟩ := Option.bind_eq_some_iff.mp h
    obtain ⟨_, hguard, h⟩ := Option.bind_eq_some_iff.mp h
    obtain ⟨bytes, hbytes, h⟩ := Option.bind_eq_some_iff.mp h
    obtain ⟨text, htext, h⟩ := Option.bind_eq_some_iff.mp h
    obtain ⟨hspace, hcut⟩ := Text.splitFirst?_eq_some_iff.mp hscheme
    obtain ⟨hcolon, hparts⟩ := Text.splitFirst?_eq_some_iff.mp h
    obtain ⟨a, hpayload⟩ := decodePayload?_eq_some_iff.mp hbytes
    rw [Text.trim, String.toList_ofList] at hcut hpayload
    have hletters : Text.sameLetters scheme "basic" = true := by
      by_contra hother
      have hfailed : (guard (Text.sameLetters scheme "basic" = true) : Option Unit) = none := if_neg hother
      rw [hfailed] at hguard
      cases hguard
    refine ⟨scheme, rest.toList, a, hspace, hcut, ?_, hcolon, ?_⟩
    · rw [← hbasic]
      exact Text.sameLetters_iff.mp hletters
    · rw [hpayload, ← Text.Utf8.decode?_eq_some_iff.mp htext, credentialBytes, eq_credentials_iff.mpr hparts]
  · intro h
    obtain ⟨scheme, rest, a, hspace, hcut, hscheme, hcolon, hpayload⟩ := h
    have hfirst : Text.splitFirst? ' ' (Text.trim header) = some (scheme, String.ofList rest) := by
      rw [Text.splitFirst?_eq_some_iff, Text.trim, String.toList_ofList, String.toList_ofList]
      exact ⟨hspace, hcut⟩
    have hletters : Text.sameLetters scheme "basic" = true := Text.sameLetters_iff.mpr (hscheme.trans hbasic.symm)
    have hpassed : (guard (Text.sameLetters scheme "basic" = true) : Option Unit) = some () := if_pos hletters
    have hbytes : decodePayload? (Text.trim (String.ofList rest)).toList = some (credentialBytes user password) := by
      rw [Text.trim, String.toList_ofList, String.toList_ofList]
      exact decodePayload?_eq_some_iff.mpr ⟨a, hpayload⟩
    have hparts : Text.splitFirst? ':' (user ++ ":" ++ password) = some (user, password) :=
      Text.splitFirst?_eq_some_iff.mpr ⟨hcolon, toList_credentials⟩
    refine Option.bind_eq_some_iff.mpr ⟨_, hfirst, ?_⟩
    refine Option.bind_eq_some_iff.mpr ⟨_, hpassed, ?_⟩
    refine Option.bind_eq_some_iff.mpr ⟨_, hbytes, ?_⟩
    exact Option.bind_eq_some_iff.mpr ⟨_, Text.Utf8.decode?_encode _, hparts⟩

theorem not_blank_of_scheme {scheme : String} (h : lower scheme = "basic") :
    ∀ c ∈ scheme.toList, isBlank c = false := by
  intro c hc
  have hlower : c.toLower ∈ (lower scheme).toList := by
    rw [Text.toList_lower]
    exact List.mem_map_of_mem hc
  have key : ∀ d ∈ "basic".toList, isBlank d = false := by simp [isBlank]
  rw [h] at hlower
  rw [← Text.isBlank_toLower, key _ hlower]

theorem exists_cons_of_scheme {scheme : String} (h : lower scheme = "basic") : ∃ c r, scheme.toList = c :: r := by
  refine List.exists_cons_of_ne_nil fun hnil => ?_
  have hlower := Text.toList_lower scheme
  rw [h, hnil] at hlower
  exact absurd hlower (by decide)

theorem presents_of_parseBasic? {header : String} (h : parseBasic? header = some (user, password)) :
    Presents header user password := by
  obtain ⟨scheme, rest, a, -, hcut, hscheme, hcolon, hpayload⟩ := parseBasic?_eq_some_iff.mp h
  obtain ⟨before, after, hblank, hheader⟩ := Text.exists_append_trimChars header.toList
  obtain ⟨gap, behind, hgap, hrest⟩ := Text.exists_append_trimChars rest
  rw [List.forall_mem_append] at hblank hgap
  refine .intro before gap (behind ++ after) scheme a ?_ hscheme hcolon ?_
  · simp only [List.forall_mem_append]
    exact ⟨⟨hblank.1, hgap.1⟩, hgap.2, hblank.2⟩
  · rw [hheader, hcut, hrest, hpayload]
    simp only [List.append_assoc, List.cons_append]

theorem parseBasic?_of_presents {header : String} (h : Presents header user password) :
    parseBasic? header = some (user, password) := by
  obtain ⟨before, gap, after, scheme, a, hblank, hscheme, hcolon, hheader⟩ := h
  simp only [List.forall_mem_append] at hblank
  obtain ⟨⟨hbefore, hgap⟩, hafter⟩ := hblank
  have hletters := not_blank_of_scheme hscheme
  have hpayload : encodePadded a (credentialBytes user password) ≠ [] := payload_ne_nil a
  have hplain : ∀ c ∈ encodePadded a (credentialBytes user password), isBlank c = false :=
    fun c hc => Text.Base64.not_blank_of_mem_encodePadded hc
  have hlast : ∀ c ∈ (encodePadded a (credentialBytes user password)).getLast?, isBlank c = false :=
    fun c hc => hplain c (List.mem_of_getLast? hc)
  refine parseBasic?_eq_some_iff.mpr ⟨scheme, gap ++ encodePadded a (credentialBytes user password), a, ?_, ?_, hscheme,
    hcolon, ?_⟩
  · exact fun hspace => absurd (hletters ' ' hspace) (by decide)
  · -- Neither the scheme begins nor the payload ends with a blank.
    obtain ⟨c, r, hc⟩ := exists_cons_of_scheme hscheme
    rw [hc] at hletters hheader ⊢
    rw [hheader, Text.trimChars_append hbefore hafter (by simp) ?_ ?_]
    · simp only [List.append_assoc, List.cons_append]
    · intro d hd
      cases hd
      exact hletters c List.mem_cons_self
    · have hend := List.getLast?_eq_some_getLast hpayload
      rw [List.getLast?_append, hend, Option.some_or, ← hend]
      exact hlast
  · have hnone : ∀ c ∈ ([] : List Char), isBlank c = true := by simp
    have htrim := Text.trimChars_append hgap hnone hpayload (fun c hc => hplain c (List.mem_of_mem_head? hc)) hlast
    rwa [List.append_nil] at htrim

/-- A header is read as a name and a password exactly if it is written of them. -/
theorem parsed_iff_presents (header user password : String) :
    parseBasic? header = some (user, password) ↔ Presents header user password :=
  ⟨presents_of_parseBasic?, parseBasic?_of_presents⟩

end

/-! ## The usual header -/

def basicHeader (user password : String) : String :=
  "Basic " ++ String.ofList (encodePadded .standard (Text.Utf8.encode (user ++ ":" ++ password)))

theorem parseBasic?_basicHeader {user : String} (h : ':' ∉ user.toList) (password : String) :
    parseBasic? (basicHeader user password) = some (user, password) := by
  refine parseBasic?_of_presents (.intro [] [] [] "Basic" .standard (by simp) (by decide) h ?_)
  simp [basicHeader, credentialBytes, String.toList_append]

end BlobDepot
