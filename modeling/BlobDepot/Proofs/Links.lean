import BlobDepot.Proofs.Announcements
import BlobDepot.Proofs.Spellings

/-!
# Links

The link to an object is made of the names that the path of a request stands for, and these are not encoded again. So
it leads back to the object exactly if both names stand for themselves in a path: `leads_back_iff`.
-/

namespace BlobDepot

/-! ## What stands for itself -/

namespace Text.Percent

/-- Somewhere two hexadecimal digits follow a percent sign. -/
def Escaped (l : List UInt8) : Prop :=
  ∃ a b, [37, a, b] <:+: l ∧ (Hex.value? a).isSome = true ∧ (Hex.value? b).isSome = true

theorem escaped_cons {c : UInt8} {l : List UInt8} : Escaped (c :: l) ↔
    (∃ a b, [37, a, b] <+: c :: l ∧ (Hex.value? a).isSome = true ∧ (Hex.value? b).isSome = true) ∨ Escaped l := by
  unfold Escaped
  simp only [List.infix_cons_iff, or_and_right, exists_or]

theorem length_decode_le (l : List UInt8) : (decode l).length ≤ l.length := by
  induction l using decode.induct with
  | case1 => simp [decode]
  | case2 a b r high low ha hb ih =>
    simp only [decode, ha, hb, List.length_cons]
    omega
  | case3 a b r hno ih =>
    rw [decode]
    split
    · next high low ha hb => exact absurd hb (hno high low ha)
    · simpa using ih
  | case4 c r hc ih =>
    rw [decode]
    · simpa using ih
    · exact hc

theorem length_decode_lt {l : List UInt8} (h : Escaped l) : (decode l).length < l.length := by
  induction l using decode.induct with
  | case1 =>
    obtain ⟨a, b, hwithin, -⟩ := h
    simp at hwithin
  | case2 a b r high low ha hb ih =>
    have hle := length_decode_le r
    simp only [decode, ha, hb, List.length_cons]
    omega
  | case3 a b r hno ih =>
    rw [decode]
    split
    · next high low ha hb => exact absurd hb (hno high low ha)
    · rcases escaped_cons.mp h with ⟨a', b', hprefix, ha, hb⟩ | h
      · obtain ⟨rfl, rfl⟩ : a' = a ∧ b' = b := by simpa using hprefix
        obtain ⟨high, ha⟩ := Option.isSome_iff_exists.mp ha
        obtain ⟨low, hb⟩ := Option.isSome_iff_exists.mp hb
        exact absurd hb (hno high low ha)
      · simpa using ih h
  | case4 c r hc ih =>
    rw [decode]
    · rcases escaped_cons.mp h with ⟨a, b, ⟨t, ht⟩, -⟩ | h
      · obtain ⟨rfl, rfl⟩ := List.cons.inj ht
        exact absurd rfl (hc a b t rfl)
      · simpa using ih h
    · exact hc

theorem decode_of_not_escaped {l : List UInt8} (h : ¬ Escaped l) : decode l = l := by
  induction l using decode.induct with
  | case1 => rfl
  | case2 a b r high low ha hb ih =>
    have hescaped : Escaped (37 :: a :: b :: r) :=
      escaped_cons.mpr (.inl ⟨a, b, by simp, Option.isSome_of_eq_some hb, Option.isSome_of_eq_some ha⟩)
    exact absurd hescaped h
  | case3 a b r hno ih =>
    rw [decode]
    split
    · next high low ha hb => exact absurd hb (hno high low ha)
    · rw [ih (fun hr => h (escaped_cons.mpr (.inr hr)))]
  | case4 c r hc ih =>
    rw [decode, ih (fun hr => h (escaped_cons.mpr (.inr hr)))]
    exact hc

/-- What is not shortened by decoding has nothing to decode. -/
theorem not_escaped_of_length_le {l : List UInt8} (h : l.length ≤ (decode l).length) : ¬ Escaped l :=
  fun he => absurd (length_decode_lt he) (Nat.not_lt.mpr h)

end Text.Percent

/-! ## Parts of texts -/

namespace Text

def before (sep : Char) (s : String) : String :=
  ((splitFirst? sep s).map (·.1)).getD s

theorem toList_before (sep : Char) (s : String) : (before sep s).toList = s.toList.takeWhile (· != sep) :=
  toList_splitFirst?_getD sep s

theorem toList_before_prefix (sep : Char) (s : String) : (before sep s).toList <+: s.toList := by
  rw [toList_before]
  exact List.takeWhile_prefix _

theorem notMem_before (sep : Char) (s : String) : sep ∉ (before sep s).toList := by
  rw [toList_before]
  intro hsep
  have hne := List.mem_takeWhile_imp (p := (· != sep)) hsep
  exact bne_iff_ne.mp hne rfl

theorem before_eq_self {sep : Char} {s : String} (h : sep ∉ s.toList) : before sep s = s := by
  rw [← String.toList_inj, toList_before, List.takeWhile_eq_self_iff]
  exact fun c hc => bne_iff_ne.mpr fun heq => h (heq ▸ hc)

theorem split_eq_iff {sep : Char} {s : String} {parts : List String} (hne : parts ≠ []) : split sep s = parts ↔
    (∀ p ∈ parts, sep ∉ p.toList) ∧ s.toList = [sep].intercalate (parts.map String.toList) := by
  unfold split
  constructor
  · intro h
    subst h
    refine ⟨fun p hp => ?_, ?_⟩
    · obtain ⟨q, hq, rfl⟩ := List.mem_map.mp hp
      rw [String.toList_ofList]
      exact notMem_of_mem_splitList hq
    · simp only [List.map_map, Function.comp_def, String.toList_ofList, List.map_id']
      rw [splitList_eq_splitOn, List.intercalate_splitOn]
  · intro h
    obtain ⟨hparts, hs⟩ := h
    rw [hs, splitList_intercalate _ (by simpa using hne)]
    · simp
    · simpa using hparts

end Text

namespace Http

/-! ## Paths -/

theorem Request.toList_path_prefix (r : Request) : r.path.toList <+: r.target.toList :=
  (Text.toList_before_prefix '?' r.sent).trans (Text.toList_before_prefix '#' r.target)

theorem Request.path_eq_target {r : Request} (hnumber : '#' ∉ r.target.toList) (hquestion : '?' ∉ r.target.toList) :
    r.path = r.target := by
  have hsent : r.sent = r.target := Text.before_eq_self hnumber
  show Text.before '?' r.sent = _
  rw [hsent, Text.before_eq_self hquestion]

theorem Request.notMem_path (r : Request) : '#' ∉ r.path.toList ∧ '?' ∉ r.path.toList :=
  ⟨fun h => Text.notMem_before '#' r.target ((Text.toList_before_prefix '?' r.sent).subset h),
    Text.notMem_before '?' r.sent⟩

namespace Route

theorem ofSegments?_object_iff {l : List String} {space repo oid : String} :
    ofSegments? l = some (.object space repo oid) ↔ l = [space, repo, "objects", oid] ∧ oid ≠ "batch" := by
  constructor
  · intro h
    unfold ofSegments? at h
    split at h
    all_goals cases h
    next hbatch => exact ⟨rfl, hbatch⟩
  · intro h
    obtain ⟨rfl, hbatch⟩ := h
    unfold ofSegments?
    split <;> simp_all

/-- The path of an object: its names between slashes, the last of them neither empty nor taken. -/
theorem ofPath?_object_iff {path space repo oid : String} : ofPath? path = some (.object space repo oid) ↔
    path.toList = '/' :: (space.toList ++ '/' :: (repo.toList ++ "/objects/".toList ++ oid.toList)) ∧
      ('/' ∉ space.toList ∧ '/' ∉ repo.toList ∧ '/' ∉ oid.toList) ∧ oid ≠ "" ∧ oid ≠ "batch" := by
  have hsplit : Text.split '/' path = ["", space, repo, "objects", oid] ↔
      path.toList = '/' :: (space.toList ++ '/' :: (repo.toList ++ "/objects/".toList ++ oid.toList)) ∧
        ('/' ∉ space.toList ∧ '/' ∉ repo.toList ∧ '/' ∉ oid.toList) := by
    rw [Text.split_eq_iff (by simp)]
    simp [and_comm, List.intercalate_cons_cons, List.intercalate_singleton]
  rw [← and_assoc, ← hsplit]
  unfold ofPath?
  constructor
  · intro h
    split at h
    · next segments hs =>
      split at h
      · cases h
      · next hlast =>
        obtain ⟨rfl, hbatch⟩ := ofSegments?_object_iff.mp h
        simp only [List.getLast?_cons_cons, List.getLast?_singleton, Option.some.injEq] at hlast
        exact ⟨hs, hlast, hbatch⟩
    · cases h
  · intro h
    obtain ⟨hs, hlast, hbatch⟩ := h
    rw [hs]
    simp only [List.getLast?_cons_cons, List.getLast?_singleton, Option.some.injEq, hlast, if_false]
    exact ofSegments?_object_iff.mpr ⟨rfl, hbatch⟩

theorem decoded?_object_iff {raw : Route} {space repo oid : String} : raw.decoded? = some (.object space repo oid) ↔
    ∃ a b c, raw = .object a b c ∧ Text.Percent.decodeSegment? a = some space ∧
      Text.Percent.decodeSegment? b = some repo ∧ Text.Percent.decodeSegment? c = some oid := by
  constructor
  · intro h
    obtain ⟨a, b, c, rfl⟩ := decoded?_object h
    simp only [decoded?, Option.bind_eq_bind, Option.bind_eq_some_iff] at h
    obtain ⟨space', ha, repo', hb, oid', hc, h⟩ := h
    cases h
    exact ⟨a, b, c, rfl, ha, hb, hc⟩
  · intro h
    obtain ⟨a, b, c, rfl, ha, hb, hc⟩ := h
    simp only [decoded?, ha, hb, hc]
    rfl

end Route

/-- Nothing in a name is more than it is when it stands in a path. -/
structure Straight (name : String) : Prop where
  slash : '/' ∉ name.toList
  question : '?' ∉ name.toList
  number : '#' ∉ name.toList
  percent : ¬ Text.Percent.Escaped (Text.Utf8.encode name)

theorem decodeSegment?_of_straight {name : String} (h : Straight name) :
    Text.Percent.decodeSegment? name = some name := by
  unfold Text.Percent.decodeSegment?
  rw [Text.Percent.decode_of_not_escaped h.percent, Text.Utf8.decode?_encode]

/-- The request is one for a route that the names in its path lead to. -/
def Dispatches (r : Request) (route : Route) : Prop :=
  ∃ raw, Route.ofPath? r.path = some raw ∧ raw.decoded? = some route ∧ route.methods.contains r.method = true

theorem length_encode (a b : List Char) :
    (Text.Utf8.ofChars (a ++ b)).length = (Text.Utf8.ofChars a).length + (Text.Utf8.ofChars b).length := by
  rw [Text.Utf8.ofChars_append, List.length_append]

theorem length_le_of_decodeSegment? {segment name : String} (h : Text.Percent.decodeSegment? segment = some name) :
    (Text.Utf8.encode name).length ≤ (Text.Utf8.encode segment).length := by
  rw [Text.Utf8.decode?_eq_some_iff.mp h]
  exact Text.Percent.length_decode_le _

theorem eq_of_decodeSegment? {segment name : String} (h : Text.Percent.decodeSegment? segment = some name)
    (hlength : (Text.Utf8.encode segment).length ≤ (Text.Utf8.encode name).length) :
    segment = name ∧ ¬ Text.Percent.Escaped (Text.Utf8.encode name) := by
  have hdecode := Text.Utf8.decode?_eq_some_iff.mp h
  rw [hdecode] at hlength
  have hescaped := Text.Percent.not_escaped_of_length_le hlength
  rw [Text.Percent.decode_of_not_escaped hescaped] at hdecode
  have hsame : segment = name := by
    have hsegment := Text.Utf8.decode?_encode segment
    rw [← hdecode, Text.Utf8.decode?_encode] at hsegment
    exact (Option.some.inj hsegment).symm
  exact ⟨hsame, hsame ▸ hescaped⟩

theorem straight_of_isSpelling {s : String} (h : Oid.IsSpelling s) : Straight s ∧ s ≠ "" ∧ s ≠ "batch" := by
  obtain ⟨hlength, hdigits⟩ := Oid.isSpelling_iff.mp h
  have hmark : ∀ {c : Char}, c ∉ Text.Hex.digits.toList → c ∉ s.toList := fun hc hs => hc (hdigits _ hs)
  refine ⟨⟨hmark (by decide), hmark (by decide), hmark (by decide), ?_⟩, ?_, ?_⟩
  · intro hescaped
    obtain ⟨a, b, hwithin, -⟩ := hescaped
    exact absurd (h.2 37 (hwithin.subset List.mem_cons_self)) (by decide)
  · rintro rfl
    cases hlength
  · rintro rfl
    cases hlength

section
variable {r : Request} {space repo oid : String}
  (htarget : r.target.toList = '/' :: (space.toList ++ '/' :: (repo.toList ++ "/objects/".toList ++ oid.toList)))
include htarget

theorem straight_of_dispatches (h : Dispatches r (.object space repo oid)) : Straight space ∧ Straight repo := by
  obtain ⟨raw, hpath, hraw, -⟩ := h
  obtain ⟨a, b, c, rfl, ha, hb, hc⟩ := Route.decoded?_object_iff.mp hraw
  obtain ⟨hpath, ⟨hslash, hslash', -⟩, -⟩ := Route.ofPath?_object_iff.mp hpath
  -- The path is no longer than the target, and what it stands for is no longer than the path.
  have hspace := length_le_of_decodeSegment? ha
  have hrepo := length_le_of_decodeSegment? hb
  have hoid := length_le_of_decodeSegment? hc
  obtain ⟨rest, hrest⟩ := r.toList_path_prefix
  have hlength := congrArg (fun l => (Text.Utf8.ofChars l).length) hrest
  rw [hpath, htarget] at hlength
  simp only [Text.Utf8.encode_eq] at hspace hrepo hoid
  simp only [length_encode, Text.Utf8.ofChars_cons, List.length_append] at hlength
  have hnone : rest = [] := Text.Utf8.ofChars_eq_nil (List.eq_nil_of_length_eq_zero (by omega))
  rw [hnone, List.append_nil] at hrest
  obtain ⟨rfl, hspace⟩ := eq_of_decodeSegment? ha (by simp only [Text.Utf8.encode_eq]; omega)
  obtain ⟨rfl, hrepo⟩ := eq_of_decodeSegment? hb (by simp only [Text.Utf8.encode_eq]; omega)
  obtain ⟨hnumber, hquestion⟩ := r.notMem_path
  rw [hpath] at hnumber hquestion
  simp only [List.mem_cons, List.mem_append, not_or] at hnumber hquestion
  exact ⟨⟨hslash, hquestion.2.1, hnumber.2.1, hspace⟩, ⟨hslash', hquestion.2.2.2.1.1, hnumber.2.2.2.1.1, hrepo⟩⟩

theorem notMem_target {c : Char} (hc : c ∉ ('/' :: "/objects/".toList)) (hspace : c ∉ space.toList)
    (hrepo : c ∉ repo.toList) (hoid : c ∉ oid.toList) : c ∉ r.target.toList := by
  rw [htarget]
  simp_all

theorem dispatches_of_straight (hmethod : r.method = "PUT" ∨ r.method = "GET") (hoid : Oid.IsSpelling oid)
    (hspace : Straight space) (hrepo : Straight repo) : Dispatches r (.object space repo oid) := by
  obtain ⟨hstraight, hempty, hbatch⟩ := straight_of_isSpelling hoid
  have hpath : r.path = r.target :=
    Request.path_eq_target (notMem_target htarget (by decide) hspace.number hrepo.number hstraight.number)
      (notMem_target htarget (by decide) hspace.question hrepo.question hstraight.question)
  refine ⟨.object space repo oid, ?_, ?_, ?_⟩
  · rw [hpath, Route.ofPath?_object_iff]
    exact ⟨htarget, ⟨hspace.slash, hrepo.slash, hstraight.slash⟩, hempty, hbatch⟩
  · rw [Route.decoded?_object_iff]
    exact ⟨_, _, _, rfl, decodeSegment?_of_straight hspace, decodeSegment?_of_straight hrepo,
      decodeSegment?_of_straight hstraight⟩
  · rcases hmethod with h | h <;> rw [h] <;> rfl

theorem dispatches_iff (hmethod : r.method = "PUT" ∨ r.method = "GET") (hoid : Oid.IsSpelling oid) :
    Dispatches r (.object space repo oid) ↔ Straight space ∧ Straight repo :=
  ⟨straight_of_dispatches htarget, fun ⟨hspace, hrepo⟩ => dispatches_of_straight htarget hmethod hoid hspace hrepo⟩

end

end Http

namespace Depot

open Http Prog

variable {d : Depot} {r : Request} {space repo : String} {a : Response} {σ : Type}

/-! ## Answers to announcements -/

/-- The objects that a request announces. Of one that cannot be decoded, an empty one or none. -/
def sentObjects (r : Request) (batched : Bool) : Except Rejection (List ObjectRequest) :=
  if batched then (collectBody .empty r.body).map fun b =>
    match Json.decode Batch.decode b.data.toList with
    | .ok sent => sent.objects
    | .error _ => []
  else (sentObject r).map fun q => [q]

def addressed (r : Request) (space repo : String) (q : ObjectRequest) : ObjectRequest :=
  { q with namespaceName := space, repo, authorization := r.authorization }

/-- What is said of an object is about one that was announced with a valid identifier, and offers something to do. -/
structure Requested (r : Request) (space repo : String) (sent : List ObjectRequest) (x : Transfer.Resolved) : Prop where
  announced : ∃ q ∈ sent, x.request = addressed r space repo q
  named : ∃ oid, Oid.parse x.request.oid = .ok oid
  offers : x.download = true ∨ x.upload = true

theorem parsed_of_admission {α : Type} {k : Handler Catalog.interface σ} {s s' : σ} {q : ObjectRequest}
    {f : Oid → CatalogM α} {x : α} (h : (d.service.admission q >>= f).run.run k s = (.ok x, s')) :
    ∃ oid, Oid.parse q.oid = .ok oid := by
  obtain ⟨oid, s₁, hadmission, -⟩ := (run_bind_ok k).mp h
  obtain ⟨admitted, s₂, -, hadmission⟩ := (run_bind_ok k).mp hadmission
  split at hadmission
  · split at hadmission
    · next oid' hparse => exact ⟨oid', hparse⟩
    · cases hadmission
  · cases hadmission

theorem parsed_of_put {k : Handler Catalog.interface σ} {s s' : σ} {q : ObjectRequest} {x : ObjectRecord}
    (h : (d.service.put q).run.run k s = (.ok x, s')) : ∃ oid, Oid.parse q.oid = .ok oid := by
  unfold Service.put at h
  exact parsed_of_admission h

theorem parsed_of_get {k : Handler Catalog.interface σ} {s s' : σ} {q : ObjectRequest} {x : ObjectRecord}
    (h : (d.service.get q).run.run k s = (.ok x, s')) : ∃ oid, Oid.parse q.oid = .ok oid := by
  unfold Service.get at h
  exact parsed_of_admission h

variable {k : Handler interface σ} {s s' : σ}

theorem run_fromCatalog_ok {α : Type} {p : CatalogM α} {x : α}
    (h : (fromCatalog p).run.run k s = (.ok x, s')) : p.run.run k.left s = (.ok x, s') := by
  rw [run_fromCatalog] at h
  rcases hp : p.run.run k.left s with ⟨e | y, s₁⟩
  · rw [hp] at h
    cases h
  · rw [hp] at h
    cases h
    rfl

theorem presented_of_announce (h : (Transfer.announce d r space repo).run.run k s = (.ok a, s')) :
    ∃ sent, sentObjects r false = .ok sent ∧ ∃ x : Transfer.Resolved,
      (∃ status, a = metadataResponse status (shown d x).value) ∧ Requested r space repo sent x := by
  unfold Transfer.announce at h
  unfold sentObjects sentObject
  rw [run_run_bind, run_wholeBody] at h
  cases hb : collectBody .empty r.body with
  | error e =>
    rw [hb] at h
    cases h
  | ok body =>
    rw [hb] at h
    dsimp only [Except.map, Except.mapError] at h
    obtain ⟨record, s₁, hput, h⟩ := (run_bind_ok k).mp h
    have hoid := parsed_of_put (run_fromCatalog_ok hput)
    have hanswer : ∃ status, a = metadataResponse status (shown d ⟨addressed r space repo
        ((Json.decode ObjectRequest.decode body.data.toList).toOption.getD default),
        record, record.existing, true⟩).value := by
      split at h
      · obtain ⟨found, s₂, -, h⟩ := (run_bind_ok k).mp h
        cases h
        exact ⟨_, rfl⟩
      · cases h
        exact ⟨_, rfl⟩
    exact ⟨_, rfl, _, hanswer, ⟨_, List.mem_singleton_self _, rfl⟩, hoid, .inr rfl⟩

theorem requested_of_resolve {k : Handler Catalog.interface σ} {q : ObjectRequest} {x : Transfer.Resolved}
    (h : (Transfer.resolve d q).run.run k s = (.ok (some x), s')) :
    x.request = q ∧ (∃ oid, Oid.parse q.oid = .ok oid) ∧ (x.download = true ∨ x.upload = true) := by
  unfold Transfer.resolve at h
  rw [run_run_bind, run_run_lift] at h
  dsimp only at h
  split at h
  · next record hget =>
    cases h
    exact ⟨rfl, parsed_of_get (Prod.ext hget rfl), .inl rfl⟩
  · cases h
  · rw [run_run_bind, run_run_lift] at h
    dsimp only at h
    split at h
    · next record hput =>
      cases h
      exact ⟨rfl, parsed_of_put (Prod.ext hput rfl), .inr rfl⟩
    · cases h
    · cases h

theorem presented_of_batch (h : (Transfer.batch d r space repo).run.run k s = (.ok a, s')) :
    ∃ sent, sentObjects r true = .ok sent ∧ ∃ l : List Transfer.Resolved,
      a = metadataResponse 200 (batchValue (l.map (shown d))) ∧ ∀ x ∈ l, Requested r space repo sent x := by
  unfold Transfer.batch at h
  unfold sentObjects
  dsimp only at h
  rw [run_run_bind, run_wholeBody] at h
  cases hb : collectBody .empty r.body with
  | error e =>
    rw [hb] at h
    cases h
  | ok body =>
    rw [hb] at h
    dsimp only [Except.map, Except.mapError] at h
    refine ⟨_, rfl, ?_⟩
    dsimp only
    split at h
    · obtain ⟨admitted, s₁, -, h⟩ := (run_bind_ok k).mp h
      cases admitted <;> cases h
    · next sent hdecode =>
      rw [hdecode]
      obtain ⟨found, s₁, hfound, h⟩ := (run_bind_ok k).mp h
      cases h
      obtain ⟨-, each⟩ := run_mapM_ok k.left (R := fun _ _ => True) (fun _ => trivial) (fun _ _ => trivial)
        (fun _ _ => trivial) (run_fromCatalog_ok hfound)
      refine ⟨found.filterMap id, rfl, fun x hx => ?_⟩
      have hx : some x ∈ found := by simpa using hx
      obtain ⟨q, hq, s₂, s₃, -, hresolve, -⟩ := each _ hx
      obtain ⟨hrequest, hoid, hoffers⟩ := requested_of_resolve hresolve
      obtain ⟨q', hq', rfl⟩ := List.mem_map.mp hq
      exact ⟨⟨q', hq', hrequest⟩, hrequest ▸ hoid, hoffers⟩

theorem presented_of_announces {batched : Bool} {fresh : Fresh} (hr : Announces r space repo batched)
    (h : (Http.respond d fresh r).run k s = (a, s')) (ha : a.status < 400) :
    ∃ sent, sentObjects r batched = .ok sent ∧ ∃ l : List Transfer.Resolved, Presents batched a (l.map (shown d)) ∧
      ∀ x ∈ l, Requested r space repo sent x := by
  have hhead : r.method ≠ "HEAD" := by rw [hr.1]; decide
  obtain ⟨b, rfl, hb⟩ := succeeded_of_announces hr h ha
  cases batched with
  | true =>
    obtain ⟨sent, hsent, l, rfl, each⟩ := presented_of_batch hb
    exact ⟨sent, hsent, l, readAll_metadataResponse fresh hhead _ _, each⟩
  | false =>
    obtain ⟨sent, hsent, x, ⟨status, rfl⟩, each⟩ := presented_of_announce hb
    refine ⟨sent, hsent, [x], ⟨_, rfl, readAll_metadataResponse fresh hhead _ _⟩, fun y hy => ?_⟩
    obtain rfl := List.mem_singleton.mp hy
    exact each

/-! ## Following links -/

/-- The link is to a target at the server that answers by the configuration. -/
def Addresses (c : Config) (link : Link) (target : String) : Prop :=
  link.href = c.linkScheme ++ "://" ++ c.host ++ target

theorem get?_links {x : Transfer.Resolved} {name : String} {link : Link} :
    (shown d x).links.get? name = some link ↔ link = linkTo d.config x.request ∧
      (name = "download" ∧ x.download = true ∨ name = "upload" ∧ x.upload = true) := by
  unfold shown represent
  cases x.download <;> cases x.upload <;>
    simp only [SortedMap.ofList, Bool.false_eq_true, if_true, if_false, List.nil_append,
      List.append_nil, List.cons_append, List.foldl_cons, List.foldl_nil, SortedMap.get?_insert,
      SortedMap.get?_empty] <;> grind

theorem exists_link (d : Depot) {x : Transfer.Resolved} (h : x.download = true ∨ x.upload = true) :
    ∃ name, (shown d x).links.get? name = some (linkTo d.config x.request) := by
  rcases h with h | h
  · exact ⟨"download", get?_links.mpr ⟨rfl, .inl ⟨rfl, h⟩⟩⟩
  · exact ⟨"upload", get?_links.mpr ⟨rfl, .inr ⟨rfl, h⟩⟩⟩

theorem addresses_iff {q : ObjectRequest} {target : String} :
    Addresses d.config (linkTo d.config (addressed r space repo q)) target ↔ target.toList =
      '/' :: (space.toList ++ '/' :: (repo.toList ++ "/objects/".toList ++ q.oid.toList)) := by
  unfold Addresses
  rw [String.ext_iff]
  simp only [linkTo, objectLink, addressed, String.toList_append, List.append_assoc, List.append_cancel_left_eq]
  rw [eq_comm]
  simp

/-- Each object in a successful answer is given links, and these lead back to it exactly if the names of the space and
the repository stand for themselves. -/
theorem leads_back_iff {batched : Bool} {fresh : Fresh} (hr : Announces r space repo batched)
    (h : (Http.respond d fresh r).run k s = (a, s')) (ha : a.status < 400) :
    ∃ sent, sentObjects r batched = .ok sent ∧ ∃ l : List Transfer.Resolved, Presents batched a (l.map (shown d)) ∧
      ∀ x ∈ l, ∃ q ∈ sent, (∃ oid, Oid.parse q.oid = .ok oid) ∧ (∃ name link, (shown d x).links.get? name = some link) ∧
        ∀ name link, (shown d x).links.get? name = some link → ∃ target, Addresses d.config link target ∧
          ∀ r' : Request, r'.target = target → r'.method = "PUT" ∨ r'.method = "GET" →
            (Dispatches r' (.object space repo q.oid) ↔ Straight space ∧ Straight repo) := by
  obtain ⟨sent, hsent, l, hpresents, each⟩ := presented_of_announces hr h ha
  refine ⟨sent, hsent, l, hpresents, fun x hx => ?_⟩
  obtain ⟨⟨q, hq, hrequest⟩, hoid, hoffers⟩ := each x hx
  rw [hrequest] at hoid
  obtain ⟨name, hname⟩ := exists_link d hoffers
  refine ⟨q, hq, hoid, ⟨name, _, hname⟩, fun name link hlink => ?_⟩
  obtain ⟨rfl, -⟩ := get?_links.mp hlink
  rw [hrequest]
  refine ⟨"/" ++ space ++ "/" ++ repo ++ "/objects/" ++ q.oid, addresses_iff.mpr (by simp), fun r' ht hmethod => ?_⟩
  exact dispatches_iff (by simp [ht]) hmethod (Oid.parsed_iff_isSpelling.mp hoid)

namespace Sample

theorem straight_a : Straight "a" :=
  ⟨by decide, by decide, by decide, Text.Percent.not_escaped_of_length_le (by decide)⟩

theorem straight_b : Straight "b" :=
  ⟨by decide, by decide, by decide, Text.Percent.not_escaped_of_length_le (by decide)⟩

def questioned : Request :=
  { announcement "3" with target := "/a%3Fb/c/objects" }

theorem oid_of_sent {target : String} {sent : List ObjectRequest} {q : ObjectRequest}
    (h : sentObjects { announcement "3" with target } false = .ok sent) (hq : q ∈ sent) : q.oid = digits := by
  have hsent : (sentObjects (announcement "3") false).toOption.map (·.map (·.oid)) = some [digits] := by
    decide +kernel
  rw [show sentObjects (announcement "3") false = .ok sent from h] at hsent
  have hoids : sent.map (·.oid) = [digits] := Option.some.inj hsent
  have hmem : q.oid ∈ sent.map (·.oid) := List.mem_map_of_mem hq
  rw [hoids] at hmem
  exact List.mem_singleton.mp hmem

end Sample

open Sample in
theorem leads_back_to_announced : Announces (announcement "3") "a" "b" false ∧
    ((respond depot fresh (announcement "3")).run stores unused).1.status = 202 ∧ Straight "a" ∧ Straight "b" ∧
    ∃ x link target, Presents false ((respond depot fresh (announcement "3")).run stores unused).1 [shown depot x] ∧
      (∃ name, (shown depot x).links.get? name = some link) ∧ Addresses depot.config link target ∧
      Dispatches { upload with target } (.object "a" "b" digits) := by
  have hstatus : ((respond depot fresh (announcement "3")).run stores unused).1.status = 202 := by decide +kernel
  obtain ⟨sent, hsent, l, hpresents, each⟩ :=
    leads_back_iff announces_announcement (Prod.eta _).symm (by rw [hstatus]; decide)
  obtain ⟨y, hl, hy⟩ := hpresents
  obtain ⟨x, rfl, rfl⟩ := List.map_eq_singleton_iff.mp hl
  obtain ⟨q, hq, -, ⟨name, link, hlink⟩, back⟩ := each x List.mem_cons_self
  obtain ⟨target, haddress, hdispatches⟩ := back name link hlink
  rw [oid_of_sent hsent hq] at hdispatches
  exact ⟨announces_announcement, hstatus, straight_a, straight_b, x, link, target, ⟨_, rfl, hy⟩, ⟨name, hlink⟩, haddress,
    (hdispatches _ rfl (.inl rfl)).mpr ⟨straight_a, straight_b⟩⟩

open Sample in
/-- By its link the object is looked for where nothing is. -/
theorem leads_astray_behind_question_mark : ¬ ∀ {d : Depot} {fresh : Fresh} {r r' : Request} {s s' : Stores}
    {space repo name : String} {batched : Bool} {a : Response} {l : List Representation} {x : Representation}
    {link : Link}, Announces r space repo batched → space ≠ "" → repo ≠ "" →
    (Http.respond d fresh r).run stores s = (a, s') → a.status < 400 → Presents batched a l → x ∈ l →
    x.links.get? name = some link → Addresses d.config link r'.target → r'.method = "PUT" →
    ∃ text, Dispatches r' (.object space repo text) := by
  intro h
  have hr : Announces questioned "a?b" "c" false := ⟨rfl, .objects "a%3Fb" "c", by decide +kernel, by decide +kernel⟩
  have hstatus : ((respond depot fresh questioned).run stores unused).1.status < 400 := by decide +kernel
  obtain ⟨sent, hsent, l, hpresents, each⟩ := presented_of_announces hr (Prod.eta _).symm hstatus
  obtain ⟨y, hl, hy⟩ := hpresents
  obtain ⟨x, rfl, rfl⟩ := List.map_eq_singleton_iff.mp hl
  obtain ⟨⟨q, hq, hrequest⟩, -, hoffers⟩ := each x List.mem_cons_self
  obtain ⟨name, hlink⟩ := exists_link depot hoffers
  rw [hrequest] at hlink
  let r' : Request := { upload with target := "/a?b/c/objects/" ++ digits }
  have haddress : Addresses depot.config (linkTo depot.config (addressed questioned "a?b" "c" q)) r'.target := by
    rw [addresses_iff, oid_of_sent hsent hq]
    decide +kernel
  have hsends : r'.method = "PUT" := rfl
  obtain ⟨text, raw, hpath, -⟩ := h hr (by decide) (by decide) (Prod.eta _).symm hstatus ⟨_, rfl, hy⟩
    List.mem_cons_self hlink haddress hsends
  have hnone : Route.ofPath? r'.path = none := by decide +kernel
  cases hnone.symm.trans hpath

end Depot

end BlobDepot
