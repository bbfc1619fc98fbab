import BlobDepot.Proofs.Characters
import BlobDepot.Proofs.Parts
import BlobDepot.Proofs.Requests

/-!
# Negotiation of media types

A client lists the media types that it accepts, the first of them first, each with parameters behind semicolons. It is
answered as if it had named the first one alone, unless that one has no parameters and is followed by others: the list
is then not told from a media type, and none is found acceptable. `served_as_first_iff`.
-/

namespace BlobDepot.Http

open Text (isBlank trimChars)
open Text.Utf8 (encode letters letters_append)

/-! ## Lists of media types -/

namespace Accept

/-- The characters of a token. An asterisk is one of them, and as a token it stands for any. -/
def isTokenChar (c : Char) : Bool :=
  c = '*' || MediaType.isTokenChar c

structure Token where
  text : String
  nonempty : text ≠ ""
  chars : text.toList.all isTokenChar = true

structure Space where
  bytes : List UInt8
  blank : bytes.all (fun b => b = 32 || b = 9) = true

structure Separator where
  before : Space
  after : Space

def Separator.bytes (mark : UInt8) (x : Separator) : List UInt8 :=
  x.before.bytes ++ mark :: x.after.bytes

def isContent (b : UInt8) : Bool :=
  b = 9 || (32 ≤ b && b ≠ 127)

/-- A byte between quotation marks. Such a mark and a backslash stand behind a backslash only. -/
inductive Quoted where
  | plain (b : UInt8) (h : (isContent b && b ≠ 34 && b ≠ 92) = true)
  | escaped (b : UInt8) (h : isContent b = true)

def Quoted.bytes : Quoted → List UInt8
  | plain b _ => [b]
  | escaped b _ => [92, b]

inductive Argument where
  | token (t : Token)
  | quoted (l : List Quoted)

def Argument.bytes : Argument → List UInt8
  | token t => encode t.text
  | quoted l => 34 :: l.flatMap Quoted.bytes ++ [34]

structure Parameter where
  name : Token
  argument : Option Argument

def Parameter.bytes (p : Parameter) : List UInt8 :=
  encode p.name.text ++ (p.argument.map fun a => 61 :: a.bytes).getD []

structure Range where
  type : Token
  subtype : Token
  parameters : List (Separator × Parameter)

namespace Range

def mediaType (x : Range) : String :=
  x.type.text ++ "/" ++ x.subtype.text

def bytes (x : Range) : List UInt8 :=
  encode x.mediaType ++ x.parameters.flatMap fun p => p.1.bytes 59 ++ p.2.bytes

end Range

structure Listing where
  first : Range
  others : List (Separator × Range)

namespace Listing

def bytes (l : Listing) : List UInt8 :=
  l.first.bytes ++ l.others.flatMap fun x => x.1.bytes 44 ++ x.2.bytes

def header (l : Listing) : ByteArray :=
  ⟨l.bytes.toArray⟩

/-- The first media type ends where the header is cut, and nothing keeps the header from being read. -/
structure Readable (l : Listing) : Prop where
  visible : ∀ b ∈ l.bytes, Request.isVisible b = true
  ended : l.first.parameters ≠ [] ∨ l.others = []

end Listing

/-! ## Characters of media types -/

/-- A character that stands neither around a media type nor before its parameters. -/
structure VisibleNonSeparator (c : Char) : Prop where
  ascii : c.toNat < 128
  visible : Request.isVisible (UInt8.ofNat c.toNat) = true
  semicolon : c ≠ ';'
  blank : isBlank c = false

theorem ascii_of_isTokenChar {c : Char} (h : isTokenChar c = true) : c.toNat < 128 := by
  have marks : "!#$%&'+-.^_`|~".toList.all (fun d => decide (d.toNat < 128)) = true := by decide
  simp only [isTokenChar, MediaType.isTokenChar, Bool.or_eq_true, decide_eq_true_eq, List.contains_iff_mem] at h
  rcases h with rfl | halphanum | hmark
  · decide
  · have hbounds : (decide (c.val ≥ 65 ∧ c.val ≤ 90) || (c.val ≥ 97 && c.val ≤ 122) ||
        (c.val ≥ 48 && c.val ≤ 57)) = true := halphanum
    have hval : c.toNat = c.val.toNat := rfl
    simp [UInt32.le_iff_toNat_le] at hbounds
    omega
  · exact of_decide_eq_true (List.all_eq_true.mp marks c hmark)

theorem visibleNonSeparator_of_isTokenChar {c : Char} (h : isTokenChar c = true) : VisibleNonSeparator c := by
  have key : ∀ n < 128, isTokenChar (Char.ofNat n) = true → Request.isVisible (UInt8.ofNat n) = true ∧
      Char.ofNat n ≠ ';' ∧ isBlank (Char.ofNat n) = false := by decide +kernel
  have hc := key c.toNat (ascii_of_isTokenChar h)
  rw [Char.ofNat_toNat] at hc
  obtain ⟨hvisible, hsemicolon, hblank⟩ := hc h
  exact ⟨ascii_of_isTokenChar h, hvisible, hsemicolon, hblank⟩

theorem Token.visibleNonSeparator (t : Token) : ∀ c ∈ t.text.toList, VisibleNonSeparator c :=
  fun c hc => visibleNonSeparator_of_isTokenChar (List.all_eq_true.mp t.chars c hc)

theorem Range.visibleNonSeparator (x : Range) : ∀ c ∈ x.mediaType.toList, VisibleNonSeparator c := by
  have slash : VisibleNonSeparator '/' := ⟨by decide, by decide, by decide, by decide⟩
  simp only [Range.mediaType, String.toList_append, List.forall_mem_append]
  exact ⟨⟨x.type.visibleNonSeparator, fun c hc => List.mem_singleton.mp hc ▸ slash⟩, x.subtype.visibleNonSeparator⟩

theorem Range.mediaType_ne_nil (x : Range) : x.mediaType.toList ≠ [] := by
  simp [Range.mediaType, String.toList_append]

theorem Space.of_mem {s : Space} {c : Char} (h : c ∈ letters s.bytes) : c = ' ' ∨ c = '\t' := by
  obtain ⟨b, hb, rfl⟩ := List.mem_map.mp h
  have hblank := List.all_eq_true.mp s.blank b hb
  simp only [Bool.or_eq_true, decide_eq_true_eq] at hblank
  rcases hblank with rfl | rfl
  · exact .inl rfl
  · exact .inr rfl

/-- What is left of a media type that is cut off behind white space. -/
theorem Range.trimChars_append (x : Range) (s : Space) :
    trimChars (x.mediaType.toList ++ letters s.bytes) = x.mediaType.toList := by
  have hblank : ∀ c ∈ letters s.bytes, isBlank c = true := by
    intro c hc
    rcases Space.of_mem hc with rfl | rfl <;> decide
  have hnone : ∀ c ∈ ([] : List Char), isBlank c = true := by simp
  exact Text.trimChars_append hnone hblank x.mediaType_ne_nil
    (fun c hc => (x.visibleNonSeparator c (List.mem_of_mem_head? hc)).blank) fun c hc =>
      (x.visibleNonSeparator c (List.mem_of_getLast? hc)).blank

theorem Range.letters_encode (x : Range) : letters (encode x.mediaType) = x.mediaType.toList :=
  Text.Utf8.letters_encode fun c hc => (x.visibleNonSeparator c hc).ascii

/-- A media type and the white space behind it are passed over by a search for a semicolon. -/
theorem Range.takeWhile_letters (x : Range) (s : Space) (l : List UInt8) :
    (letters (encode x.mediaType ++ s.bytes ++ l)).takeWhile (· != ';') =
      x.mediaType.toList ++ letters s.bytes ++ (letters l).takeWhile (· != ';') := by
  rw [letters_append, letters_append, x.letters_encode]
  refine List.takeWhile_append_of_pos fun c hc => bne_iff_ne.mpr ?_
  rcases List.mem_append.mp hc with hc | hc
  · exact (x.visibleNonSeparator c hc).semicolon
  · rcases Space.of_mem hc with rfl | rfl <;> decide

namespace Listing

variable {l : Listing}

theorem takeWhile_of_ended (h : l.first.parameters ≠ [] ∨ l.others = []) :
    ∃ s : Space, (letters l.bytes).takeWhile (· != ';') = l.first.mediaType.toList ++ letters s.bytes := by
  cases hparameters : l.first.parameters with
  | nil =>
    have halone : l.others = [] := h.resolve_left fun hne => hne hparameters
    have hbytes : l.bytes = encode l.first.mediaType ++ [] ++ [] := by
      simp [bytes, Range.bytes, hparameters, halone]
    rw [hbytes, l.first.takeWhile_letters ⟨[], rfl⟩]
    exact ⟨⟨[], rfl⟩, List.append_nil _⟩
  | cons p parameters =>
    obtain ⟨rest, hbytes⟩ : ∃ rest, l.bytes = encode l.first.mediaType ++ p.1.before.bytes ++ 59 :: rest :=
      ⟨_, by simp only [bytes, Range.bytes, hparameters, Separator.bytes, List.flatMap_cons, List.append_assoc,
        List.cons_append]; rfl⟩
    rw [hbytes, l.first.takeWhile_letters]
    exact ⟨p.1.before, List.append_nil _⟩

theorem comma_mem_of_not_ended (h : ¬ (l.first.parameters ≠ [] ∨ l.others = [])) :
    ',' ∈ (letters l.bytes).takeWhile (· != ';') := by
  obtain ⟨hparameters, hothers⟩ := not_or.mp h
  obtain ⟨x, others, hx⟩ := List.exists_cons_of_ne_nil hothers
  obtain ⟨rest, hbytes⟩ : ∃ rest, l.bytes = encode l.first.mediaType ++ x.1.before.bytes ++ 44 :: rest :=
    ⟨_, by simp only [bytes, Range.bytes, not_not.mp hparameters, hx, Separator.bytes, List.flatMap_cons,
      List.flatMap_nil, List.append_nil, List.append_assoc, List.cons_append]; rfl⟩
  rw [hbytes, l.first.takeWhile_letters]
  exact List.mem_append_right _ List.mem_cons_self

end Listing

end Accept

/-! ## Headers that are read -/

section
variable {r : Request} {name : String} {l : List UInt8}

theorem header?_of_visible (h : r.headers.get? name = some ⟨l.toArray⟩) (hl : ∀ b ∈ l, Request.isVisible b = true) :
    r.header? name = some (String.ofList (letters l)) := by
  have ascii : ∀ b ∈ l, b.toNat < 128 := by
    intro b hb
    have hvisible := hl b hb
    simp [Request.isVisible, UInt8.le_iff_toNat_le] at hvisible
    rcases hvisible with rfl | hvisible
    · decide
    · omega
  have hall : l.toArray.all Request.isVisible = true := by simpa using hl
  unfold Request.header?
  rw [h]
  exact (if_pos hall).trans (Text.Utf8.decode?_of_ascii ascii)

theorem header?_of_hidden (h : r.headers.get? name = some ⟨l.toArray⟩) (hl : ¬ ∀ b ∈ l, Request.isVisible b = true) :
    r.header? name = none := by
  have hall : ¬ l.toArray.all Request.isVisible = true := by simpa using hl
  unfold Request.header?
  rw [h]
  exact if_neg hall

theorem toList_accepted {s : String} (h : r.header? "accept" = some s) :
    (accepted r).toList = trimChars (s.toList.takeWhile (· != ';')) := by
  unfold accepted
  rw [h]
  show (Text.trim _).toList = _
  rw [Text.trim, String.toList_ofList, Text.toList_splitFirst?_getD]

end

/-! ## The media type that is taken -/

def Request.accepting (r : Request) (media : String) : Request :=
  { r with headers := r.headers.setText "accept" media }

section
variable {r : Request} {l : Accept.Listing}

theorem accepted_of_readable (h : r.headers.get? "accept" = some l.header) (hl : l.Readable) :
    accepted r = l.first.mediaType := by
  obtain ⟨s, hcut⟩ := Accept.Listing.takeWhile_of_ended hl.ended
  rw [← String.toList_inj, toList_accepted (header?_of_visible h hl.visible), String.toList_ofList, hcut,
    l.first.trimChars_append]

theorem accepted_accepting (r : Request) (x : Accept.Range) : accepted (r.accepting x.mediaType) = x.mediaType := by
  let l : Accept.Listing := ⟨⟨x.type, x.subtype, []⟩, []⟩
  have hbytes : l.bytes = encode x.mediaType := by
    simp [l, Accept.Listing.bytes, Accept.Range.bytes, Accept.Range.mediaType]
  have hvisible : ∀ b ∈ l.bytes, Request.isVisible b = true := by
    rw [hbytes, Text.Utf8.encode_eq, Text.Utf8.ofChars_of_ascii fun c hc => (x.visibleNonSeparator c hc).ascii]
    intro b hb
    obtain ⟨c, hc, rfl⟩ := List.mem_map.mp hb
    exact (x.visibleNonSeparator c hc).visible
  have hheader : (r.accepting x.mediaType).headers.get? "accept" = some l.header := by
    unfold Accept.Listing.header
    rw [hbytes]
    exact Headers.get?_set_self _ _ _
  exact accepted_of_readable hheader ⟨hvisible, .inr rfl⟩

/-- A list that cannot be read is not taken for any media type. -/
theorem accepted_ne_of_not_readable (h : r.headers.get? "accept" = some l.header) (hl : ¬ l.Readable) {media : String}
    (hne : media ≠ "") (hcomma : ',' ∉ media.toList) : accepted r ≠ media := by
  rintro rfl
  by_cases hvisible : ∀ b ∈ l.bytes, Request.isVisible b = true
  · have hended : ¬ (l.first.parameters ≠ [] ∨ l.others = []) := fun hended => hl ⟨hvisible, hended⟩
    rw [toList_accepted (header?_of_visible h hvisible), String.toList_ofList] at hcomma
    exact hcomma (Text.mem_trimChars (Accept.Listing.comma_mem_of_not_ended hended) (by decide))
  · refine hne ?_
    unfold accepted
    rw [header?_of_hidden h hvisible]

end

/-! ## Fetching an object -/

def IsServed (media : String) : Prop :=
  media = metadataType ∨ media = contentType

def notServed : DepotError :=
  .notAcceptable ("expected " ++ metadataType ++ " or " ++ contentType)

namespace Transfer

def locate (d : Depot) (q : ObjectRequest) : HandlerM ObjectRecord := do
  let record ← fromCatalog (d.service.get q)
  if !(← fromVault (ExceptT.lift (Vault.exists? record.oid))) then
    fail (.catalog (.objectNotFound record.oid.hex))
  pure record

def serve (d : Depot) (r : Request) (namespaceName repo oid media : String) : HandlerM Response :=
  let q := objectRequest r namespaceName repo oid
  if media = metadataType then do
    let record ← locate d q
    pure (metadataResponse 200 (represent d.config q record true false).value)
  else if media = contentType then do
    let record ← locate d q
    content r record
  else fail notServed

variable {r : Request} {media : String}

theorem locate_bind (d : Depot) (q : ObjectRequest) (f : ObjectRecord → HandlerM Response) :
    (do
      let record ← fromCatalog (d.service.get q)
      if !(← fromVault (ExceptT.lift (Vault.exists? record.oid))) then
        fail (.catalog (.objectNotFound record.oid.hex))
      f record) = locate d q >>= f := by
  unfold locate
  rw [bind_assoc]
  refine bind_congr fun record => ?_
  rw [bind_assoc]
  refine bind_congr fun found => ?_
  cases found <;> rfl

theorem fetch_eq_serve (d : Depot) (r : Request) (space repo oid : String) :
    fetch d r space repo oid = serve d r space repo oid (accepted r) := by
  have hdiffer : contentType ≠ metadataType := by decide
  unfold fetch serve
  by_cases hmetadata : accepted r = metadataType
  · rw [hmetadata, if_pos rfl, if_neg (by simp), locate_bind]
    simp only [if_true]
  · by_cases hcontent : accepted r = contentType
    · rw [hcontent, if_neg hdiffer, if_pos rfl, if_neg (by simp), locate_bind]
      simp only [if_neg hdiffer]
    · rw [if_neg hmetadata, if_neg hcontent, if_pos ⟨hmetadata, hcontent⟩]
      rfl

/-- Nothing but the credentials is read of the headers. -/
theorem serve_accepting (d : Depot) (r : Request) (space repo oid media : String) :
    serve d (r.accepting media) space repo oid media = serve d r space repo oid media := by
  have hauthorization : (r.accepting media).authorization = r.authorization := by
    unfold Request.authorization Request.header? Request.accepting Headers.setText
    rw [Headers.get?_set_of_ne _ _ (by decide +kernel)]
  unfold serve objectRequest
  rw [hauthorization]
  rfl

theorem serve_of_not_served (d : Depot) (r : Request) (space repo oid : String) (h : ¬ IsServed media) :
    serve d r space repo oid media = fail notServed := by
  obtain ⟨hmetadata, hcontent⟩ := not_or.mp h
  exact (if_neg hmetadata).trans (if_neg hcontent)

end Transfer

/-! ## The status of what is served -/

/-- However the calls are answered, the handler does not find fault with the media type, and its result is one
wanted. -/
def Acceptable {α : Type} (want : α → Prop) (p : HandlerM α) : Prop :=
  ∀ (σ : Type) (k : Handler Depot.interface σ) (s : σ),
    match (p.run.run k s).1 with
    | .ok a => want a
    | .error e => e.response.status ≠ 406

section
variable {α β : Type} {want : α → Prop}

theorem acceptable_pure {a : α} (h : want a) : Acceptable want (pure a : HandlerM α) :=
  fun _ _ _ => h

theorem acceptable_fail {e : DepotError} (h : errorStatus e ≠ 406) : Acceptable want (fail e : HandlerM α) := by
  intro _ _ _
  show (errorResponse e).status ≠ 406
  rwa [status_errorResponse]

theorem acceptable_bind {want : β → Prop} {p : HandlerM α} {f : α → HandlerM β}
    (h : Acceptable (fun a => Acceptable want (f a)) p) : Acceptable want (p >>= f) := by
  intro _ k s
  have hp := h _ k s
  rw [Prog.run_run_bind]
  rcases hrun : p.run.run k s with ⟨e | a, s'⟩
  · rw [hrun] at hp
    exact hp
  · rw [hrun] at hp
    exact hp _ k s'

/-- What fails on the side of a store is passed on as an error of the depot. -/
theorem acceptable_embedded {ε : Type} {p : HandlerM α} {error : ε → DepotError}
    (hrun : ∀ (σ : Type) (k : Handler Depot.interface σ) (s : σ),
      ∃ x : Except ε α, (p.run.run k s).1 = x.mapError fun e => .failed (error e))
    (hstatus : ∀ e, errorStatus (error e) ≠ 406) (h : ∀ a, want a) : Acceptable want p := by
  intro σ k s
  obtain ⟨x, hx⟩ := hrun σ k s
  rw [hx]
  cases x with
  | ok a => exact h a
  | error e =>
    show (errorResponse (error e)).status ≠ 406
    rw [status_errorResponse]
    exact hstatus e

theorem acceptable_fromCatalog {p : CatalogM α} (h : ∀ a, want a) : Acceptable want (fromCatalog p) :=
  acceptable_embedded (fun _ _ _ => ⟨_, congrArg Prod.fst (run_fromCatalog ..)⟩)
    (fun e => by cases e <;> simp [errorStatus, catalogStatus]) h

theorem acceptable_fromVault {p : VaultM α} (h : ∀ a, want a) : Acceptable want (fromVault p) :=
  acceptable_embedded (fun _ _ _ => ⟨_, congrArg Prod.fst (run_fromVault ..)⟩)
    (fun e => by cases e <;> simp [errorStatus, vaultStatus]) h

end

namespace Transfer

theorem acceptable_locate {want : ObjectRecord → Prop} (d : Depot) (q : ObjectRequest) (h : ∀ record, want record) :
    Acceptable want (locate d q) := by
  refine acceptable_bind (acceptable_fromCatalog fun record => ?_)
  refine acceptable_bind (acceptable_fromVault fun found => ?_)
  cases found with
  | true => exact acceptable_pure (h record)
  | false => exact acceptable_fail (by simp [errorStatus, catalogStatus])

theorem acceptable_content (r : Request) (record : ObjectRecord) :
    Acceptable (fun a => a.status = 200) (content r record) := by
  unfold content
  dsimp only
  split
  · exact acceptable_pure rfl
  · exact acceptable_bind (acceptable_fromVault fun _ => acceptable_pure rfl)

theorem acceptable_serve (d : Depot) (r : Request) (space repo oid : String) {media : String} (h : IsServed media) :
    Acceptable (fun a => a.status = 200) (serve d r space repo oid media) := by
  have hdiffer : contentType ≠ metadataType := by decide
  unfold serve
  rcases h with rfl | rfl
  · rw [if_pos rfl]
    exact acceptable_bind (acceptable_locate d _ fun _ => acceptable_pure rfl)
  · rw [if_neg hdiffer, if_pos rfl]
    exact acceptable_bind (acceptable_locate d _ (acceptable_content r))

end Transfer

theorem Acceptable.status_settle {σ : Type} {p : HandlerM Response} (h : Acceptable (fun a => a.status = 200) p)
    (k : Handler Depot.interface σ) (s : σ) : ((settle p).run k s).1.status ≠ 406 := by
  have hp := h _ k s
  rw [run_settle]
  cases hrun : (p.run.run k s).1 with
  | ok a =>
    rw [hrun] at hp
    show a.status ≠ 406
    rw [hp]
    decide
  | error e =>
    rw [hrun] at hp
    exact hp

end BlobDepot.Http

namespace BlobDepot.Depot

open Http Transfer

/-- A client that lists media types is answered as one that names the first of them alone, exactly if the header can be
read as far as that, or the type is not served. One whose header cannot be read is not served at all. -/
theorem served_as_first_iff {l : Accept.Listing} {r : Request} (h : r.headers.get? "accept" = some l.header)
    (d : Depot) (space repo oid : String) {σ : Type} (k : Handler interface σ) (s : σ) :
    fetch d (r.accepting l.first.mediaType) space repo oid = serve d r space repo oid l.first.mediaType ∧
      ((settle (fetch d r space repo oid)).run k s =
          (settle (fetch d (r.accepting l.first.mediaType) space repo oid)).run k s ↔
        l.Readable ∨ ¬ IsServed l.first.mediaType) ∧
      (¬ l.Readable → (settle (fetch d r space repo oid)).run k s = (errorResponse notServed, s)) := by
  have single : fetch d (r.accepting l.first.mediaType) space repo oid =
      serve d r space repo oid l.first.mediaType := by
    rw [fetch_eq_serve, accepted_accepting, serve_accepting]
  have refused : ¬ l.Readable → fetch d r space repo oid = fail notServed := by
    intro hl
    rw [fetch_eq_serve]
    refine serve_of_not_served d r space repo oid fun hserved => ?_
    rcases hserved with hmedia | hmedia
    · exact accepted_ne_of_not_readable h hl (by decide) (by decide +kernel) hmedia
    · exact accepted_ne_of_not_readable h hl (by decide) (by decide +kernel) hmedia
  have answer : ¬ l.Readable → (settle (fetch d r space repo oid)).run k s = (errorResponse notServed, s) := by
    intro hl
    rw [refused hl]
    rfl
  refine ⟨single, ⟨fun hsame => ?_, fun hl => ?_⟩, answer⟩
  · by_contra hneither
    obtain ⟨hl, hserved⟩ := not_or.mp hneither
    have hstatus := (acceptable_serve d r space repo oid (not_not.mp hserved)).status_settle k s
    rw [← single, ← hsame, answer hl] at hstatus
    exact hstatus rfl
  · rw [single]
    by_cases hreadable : l.Readable
    · rw [fetch_eq_serve, accepted_of_readable h hreadable]
    · rw [refused hreadable, serve_of_not_served d r space repo oid (hl.resolve_left hreadable)]

namespace Sample

def preference (parameters : List (Accept.Separator × Accept.Parameter)) : Accept.Listing :=
  ⟨⟨⟨"application", by decide, by decide +kernel⟩, ⟨"vnd.git-lfs+json", by decide, by decide +kernel⟩, parameters⟩,
    [(⟨⟨[], rfl⟩, ⟨[32], rfl⟩⟩, ⟨⟨"application", by decide, by decide +kernel⟩,
      ⟨"vnd.git-lfs", by decide, by decide +kernel⟩, []⟩)]⟩

def quality : Accept.Separator × Accept.Parameter :=
  (⟨⟨[32], rfl⟩, ⟨[], rfl⟩⟩, ⟨⟨"q", by decide, by decide +kernel⟩, some (.token ⟨"1.0", by decide, by decide +kernel⟩)⟩)

def preferring (l : Accept.Listing) : Request :=
  { download with headers := [("accept", l.header)] }

end Sample

open Sample in
theorem served_as_first_with_quality :
    (preferring (preference [quality])).headers.get? "accept" = some (preference [quality]).header ∧
      (preference [quality]).Readable ∧ IsServed (preference [quality]).first.mediaType ∧
      ((settle (fetch depot (preferring (preference [quality])) "a" "b" digits)).run stores uploaded).1.status = 200 ∧
      (settle (fetch depot (preferring (preference [quality])) "a" "b" digits)).run stores uploaded =
        (settle (fetch depot ((preferring (preference [quality])).accepting (preference [quality]).first.mediaType)
          "a" "b" digits)).run stores uploaded := by
  have hlisted : (preferring (preference [quality])).headers.get? "accept" = some (preference [quality]).header := by
    decide +kernel
  have hvisible : (preference [quality]).bytes.all Request.isVisible = true := by decide +kernel
  have hreadable : (preference [quality]).Readable := ⟨List.all_eq_true.mp hvisible, .inl (List.cons_ne_nil _ _)⟩
  have hserved : IsServed (preference [quality]).first.mediaType := .inl (by decide +kernel)
  obtain ⟨-, hsame, -⟩ := served_as_first_iff hlisted depot "a" "b" digits stores uploaded
  exact ⟨hlisted, hreadable, hserved, by decide +kernel, hsame.mpr (.inl hreadable)⟩

open Sample in
/-- A media type without parameters is not told from what follows the comma. -/
theorem unserved_before_comma : ¬ ∀ {l : Accept.Listing} {r : Request}, r.headers.get? "accept" = some l.header →
    ∀ (d : Depot) (space repo oid : String) (s : Stores), (settle (fetch d r space repo oid)).run stores s =
      (settle (fetch d (r.accepting l.first.mediaType) space repo oid)).run stores s := by
  intro h
  have hlisted : (preferring (preference [])).headers.get? "accept" = some (preference []).header := by decide +kernel
  have hsame := h hlisted depot "a" "b" digits uploaded
  have hrefused : ((settle (fetch depot (preferring (preference [])) "a" "b" digits)).run stores uploaded).1.status =
      406 := by decide +kernel
  have hserved : ((settle (fetch depot ((preferring (preference [])).accepting (preference []).first.mediaType)
      "a" "b" digits)).run stores uploaded).1.status = 200 := by decide +kernel
  rw [hsame, hserved] at hrefused
  cases hrefused

end BlobDepot.Depot
