import BlobDepot.Proofs.Sessions

/-!
# Announcements

A client that announces objects, one by one or as a batch, is told about each of them. What it is told is so:
`announcedAs_of_announces`.
-/

namespace BlobDepot.Depot

open Catalog (Memory Op)
open Catalog.Memory (Spreads)
open Http Prog

/-- The request announces objects to a repository, as a batch or one of them alone. -/
def Announces (r : Request) (space repo : String) (batched : Bool) : Prop :=
  r.method = "POST" ∧ ∃ route, Route.ofPath? r.path = some route ∧
    route.decoded? = some (if batched then .batch space repo else .objects space repo)

/-- The response consists of what is said of some objects, or of one of them alone. -/
def Presents (batched : Bool) (a : Response) (l : List Representation) : Prop :=
  if batched then a.body.readAll = .ok (Json.compact (batchValue l)).toUTF8
  else ∃ x, l = [x] ∧ a.body.readAll = .ok (Json.compact x.value).toUTF8

/-- What a request that announces one object sends. A body that cannot be decoded leaves it empty. -/
def sentObject (r : Request) : Except Rejection ObjectRequest :=
  (collectBody .empty r.body).map fun b => (Json.decode ObjectRequest.decode b.data.toList).toOption.getD default

def shown (d : Depot) (x : Transfer.Resolved) : Representation :=
  represent d.config x.request x.record x.download x.upload

variable {d : Depot} {batched : Bool} {m m' m₁ m₂ : Memory} {v v' : Vault.Memory} {r : Request}
  {space repo : String} {q : ObjectRequest} {x : Transfer.Resolved} {a : Response}

/-- What has become of an object that was announced. Bytes can be sent for it exactly if it has been claimed for
the repository, and in a batch that is not done if it was committed before. -/
structure AnnouncedAs (d : Depot) (batched : Bool) (m m' : Memory) (x : Transfer.Resolved) : Prop where
  admitted : d.service.Admits m x.request.authorization
  named : Oid.parse x.request.oid = .ok x.record.oid
  spreads : Spreads m m'
  offered : m.objects.contains x.record.oid = true → x.download = true
  recorded : batched = false → x.download = true → m.objects.contains x.record.oid = true
  joined : x.upload = true → x.request.repo ≠ "" → m'.Refers x.record.oid x.request.repo
  looked : x.upload = false → batched = true ∧ m.Committed x.record.oid

/-- For an object of a batch it is still so after what else the batch claims. -/
theorem AnnouncedAs.widen (h : AnnouncedAs d true m₁ m₂ x) (h₁ : Spreads m m₁) (h₂ : Spreads m₂ m') :
    AnnouncedAs d true m m' x where
  admitted := (Service.admits_congr h₁.users _).mp h.admitted
  named := h.named
  spreads := (h₁.trans h.spreads).trans h₂
  offered hc := by
    obtain ⟨r, hr⟩ := SortedMap.contains_iff.mp hc
    obtain ⟨r₁, hr₁, -⟩ := h₁.records _ r hr
    exact h.offered (SortedMap.contains_iff.mpr ⟨r₁, hr₁⟩)
  recorded hb := by cases hb
  joined hu hr := h₂.refers (h.joined hu hr)
  looked hu := ⟨rfl, (h₁.committed _).mp (h.looked hu).2⟩

theorem announcedAs_of_put (hk : m.Keyed) {record : ObjectRecord}
    (h : (d.service.put q).run.run Memory.handle m = (.ok record, m')) :
    AnnouncedAs d batched m m' ⟨q, record, record.existing, true⟩ ∧
      record.existing = m.objects.contains record.oid := by
  have spreads := Catalog.Memory.spreads_of_adds (adds_servicePut (d := d) q) m
  rw [h] at spreads
  obtain ⟨oid, hadmits, hp, hput⟩ := Service.admitted_ok.mp h
  obtain ⟨rfl, hexisting, hrefers⟩ := Ledger.put_ok hk hput
  exact ⟨⟨hadmits, hp, spreads, hexisting.trans, fun _ => hexisting.symm.trans, fun _ => hrefers,
    fun hu => by cases hu⟩, hexisting⟩

theorem announcedAs_of_get {record : ObjectRecord} (hk : m.Keyed)
    (h : (d.service.get q).run.run Memory.handle m = (.ok record, m')) :
    AnnouncedAs d true m m' ⟨q, record, true, false⟩ := by
  obtain ⟨oid, hadmits, hp, hget⟩ := Service.admitted_ok.mp h
  obtain ⟨r, hr, hc, rfl, rfl⟩ := Ledger.get_ok.mp hget
  obtain rfl : r.oid = oid := (hk oid r hr).1
  exact ⟨hadmits, hp, .refl _, fun _ => rfl, (fun hb => by cases hb), (fun hu => by cases hu),
    fun _ => ⟨rfl, r, hr, hc⟩⟩

theorem run_serviceGet {oid : Oid} {record : ObjectRecord} (hadmits : d.service.Admits m q.authorization)
    (hp : Oid.parse q.oid = .ok oid) (hr : m.objects.get? oid = some record) (hc : record.isCommitted = true) :
    (d.service.get q).run.run Memory.handle m = (.ok record.asExisting, m) := by
  unfold Service.get
  rw [Service.run_admitted hadmits hp, Ledger.get_ok]
  exact ⟨record, hr, hc, rfl, rfl⟩

section
variable {α : Type} {y : α}

theorem fromCatalog_ok {p : CatalogM α} : (fromCatalog p).run.run memories (m, v) = (.ok y, m', v') ↔
    p.run.run Memory.handle m = (.ok y, m') ∧ v' = v := by
  rw [run_fromCatalog, memories, run_sum_left]
  rcases p.run.run Memory.handle m with ⟨e | z, m₁⟩
  · simp [Except.mapError]
  · simp [Except.mapError, and_assoc, eq_comm]

theorem run_exists (oid : Oid) (m : Memory) (v : Vault.Memory) :
    (fromVault (ExceptT.lift (Vault.exists? oid))).run.run memories (m, v) = (.ok (v.blobs.contains oid), m, v) := by
  rw [run_fromVault, memories, run_sum_right, run_run_lift]
  have hrun : (Vault.exists? oid).run Vault.Memory.handle v = (v.blobs.contains oid, v) := by
    unfold Vault.exists? Vault.present SortedMap.contains
    show ((Vault.ask (.size oid) >>= _ : VaultM Bool).run.bind _).run _ v = _
    rw [run_bind, run_run_bind, run_askVault]
    cases hb : v.blobs.get? oid <;> simp [Vault.Memory.handle, hb] <;> rfl
  rw [hrun]
  rfl

end

/-! ## Batches -/

theorem announcedAs_of_resolve (hk : m.Keyed)
    (h : (Transfer.resolve d q).run.run Memory.handle m = (.ok (some x), m')) : x.request = q ∧ AnnouncedAs d true m m' x := by
  -- The look-up changes nothing, so that the claim finds what was there before.
  have hread := d.service.unchanged_get q m
  unfold Transfer.resolve at h
  rw [run_run_bind, run_run_lift] at h
  dsimp only at h
  split at h
  · next record hget =>
    cases h
    exact ⟨rfl, announcedAs_of_get hk (Prod.ext hget rfl)⟩
  · cases h
  · rw [hread, run_run_bind, run_run_lift] at h
    dsimp only at h
    split at h
    · next record hput =>
      cases h
      exact ⟨rfl, (announcedAs_of_put hk (Prod.ext hput rfl)).1⟩
    · cases h
    · cases h

theorem announcedAs_of_mapM (hk : m.Keyed) {l : List ObjectRequest} {found : List (Option Transfer.Resolved)}
    (h : (l.mapM (Transfer.resolve d)).run.run Memory.handle m = (.ok found, m')) :
    Spreads m m' ∧ ∀ x ∈ found.filterMap id, x.request ∈ l ∧ AnnouncedAs d true m m' x := by
  obtain ⟨spreads, each⟩ := run_mapM_ok Memory.handle (R := Spreads) Spreads.refl Spreads.trans
    (fun q m => Catalog.Memory.spreads_of_adds (adds_resolve d q) m) h
  refine ⟨spreads, fun x hx => ?_⟩
  have hx : some x ∈ found := by simpa using hx
  obtain ⟨q, hq, m₁, m₂, hbefore, hresolve, hafter⟩ := each _ hx
  obtain ⟨rfl, became⟩ := announcedAs_of_resolve (hbefore.keyed hk) hresolve
  exact ⟨hq, became.widen hbefore hafter⟩

theorem announcedAs_of_batch (hk : m.Keyed)
    (h : (Transfer.batch d r space repo).run.run memories (m, v) = (.ok a, m', v')) :
    v' = v ∧ Spreads m m' ∧ ∃ l : List Transfer.Resolved, a = metadataResponse 200 (batchValue (l.map (shown d))) ∧
      ∀ x ∈ l, x.request.repo = repo ∧ x.request.authorization = r.authorization ∧ AnnouncedAs d true m m' x := by
  unfold Transfer.batch at h
  dsimp only at h
  rw [run_bind_ok] at h
  obtain ⟨body, s, hbody, h⟩ := h
  rw [run_wholeBody] at hbody
  obtain ⟨-, rfl⟩ := Prod.mk.inj hbody
  split at h
  -- A batch that cannot be decoded is refused, whoever sends it.
  · rw [run_bind_ok] at h
    obtain ⟨b, s, -, h⟩ := h
    cases b <;> cases h
  · rw [run_bind_ok] at h
    obtain ⟨found, s, hfound, h⟩ := h
    cases h
    rw [fromCatalog_ok] at hfound
    obtain ⟨hfound, rfl⟩ := hfound
    obtain ⟨spreads, each⟩ := announcedAs_of_mapM hk hfound
    refine ⟨rfl, spreads, found.filterMap id, rfl, fun x hx => ?_⟩
    obtain ⟨hrequest, became⟩ := each x hx
    obtain ⟨q, -, hq⟩ := List.mem_map.mp hrequest
    exact ⟨by rw [← hq], by rw [← hq], became⟩

/-! ## Single objects -/

theorem announcedAs_of_announce (hk : m.Keyed)
    (h : (Transfer.announce d r space repo).run.run memories (m, v) = (.ok a, m', v')) :
    v' = v ∧ ∃ q x, sentObject r = .ok q ∧
      x.request = { q with namespaceName := space, repo, authorization := r.authorization } ∧
      a = metadataResponse (if m.objects.contains x.record.oid && v.blobs.contains x.record.oid then 200 else 202)
        (shown d x).value ∧ AnnouncedAs d false m m' x := by
  unfold Transfer.announce at h
  unfold sentObject
  rw [run_run_bind, run_wholeBody] at h
  cases hb : collectBody .empty r.body with
  | error e =>
    rw [hb] at h
    cases h
  | ok body =>
    rw [hb] at h
    dsimp only [Except.map, Except.mapError] at h
    rw [run_bind_ok] at h
    obtain ⟨record, ⟨m₁, v₁⟩, hput, h⟩ := h
    rw [fromCatalog_ok] at hput
    obtain ⟨hput, rfl⟩ := hput
    obtain ⟨became, hexisting⟩ : AnnouncedAs d false m m₁ _ ∧ _ := announcedAs_of_put hk hput
    split at h
    · next he =>
      rw [run_bind_ok] at h
      obtain ⟨found, s, hfound, h⟩ := h
      rw [run_exists] at hfound
      cases hfound
      cases h
      refine ⟨rfl, _, _, rfl, rfl, ?_, became⟩
      dsimp only
      rw [← hexisting, he, Bool.true_and]
      rfl
    · next he =>
      cases h
      refine ⟨rfl, _, _, rfl, rfl, ?_, became⟩
      dsimp only
      rw [← hexisting, Bool.eq_false_iff.mpr he, Bool.false_and]
      rfl

/-! ## Requests -/

theorem readAll_metadataResponse (fresh : Fresh) (hr : r.method ≠ "HEAD") (status : Nat) (value : Value) :
    (complete fresh r (metadataResponse status value)).body.readAll = .ok (Json.compact value).toUTF8 := by
  rw [body_complete fresh hr]
  show Except.ok (ByteArray.empty ++ (Json.compact value).toUTF8) = _
  rw [ByteArray.empty_append]

theorem succeeded_of_announces {σ : Type} {k : Handler interface σ} {s s' : σ} {fresh : Fresh}
    (hr : Announces r space repo batched) (h : (Http.respond d fresh r).run k s = (a, s')) (ha : a.status < 400) :
    ∃ b, a = complete fresh r b ∧
      (if batched then Transfer.batch d r space repo else Transfer.announce d r space repo).run.run k s =
        (.ok b, s') := by
  obtain ⟨hpost, route, hp, hroute⟩ := hr
  have hrun : (handle d fresh r (if batched then .batch space repo else .objects space repo)).run.run k s =
      (if batched then Transfer.batch d r space repo else Transfer.announce d r space repo).run.run k s := by
    cases batched <;> rfl
  rw [run_respond_open hp hroute (by cases batched <;> rfl) (by rw [hpost]; cases batched <;> rfl), hrun] at h
  obtain ⟨hb, rfl⟩ := Prod.mk.inj h
  rcases hx : (if batched then Transfer.batch d r space repo else Transfer.announce d r space repo).run.run k s
    with ⟨e | b, s₁⟩
  · rw [hx] at hb
    rw [← hb, status_complete] at ha
    have hfailure : 400 ≤ e.response.status := e.le_status
    exact absurd ha (Nat.not_lt.mpr hfailure)
  · rw [hx] at hb
    exact ⟨b, hb.symm, rfl⟩

/-- A successful answer to an object that is announced alone presents this object, with one of two statuses. -/
theorem announcedAs_of_single {fresh : Fresh} (hk : m.Keyed) (hr : Announces r space repo false)
    (h : (Http.respond d fresh r).run memories (m, v) = (a, m', v')) (ha : a.status < 400) :
    v' = v ∧ ∃ q x, sentObject r = .ok q ∧
      x.request = { q with namespaceName := space, repo, authorization := r.authorization } ∧
      a.status = (if m.objects.contains x.record.oid && v.blobs.contains x.record.oid then 200 else 202) ∧
      Presents false a [shown d x] ∧ AnnouncedAs d false m m' x := by
  obtain ⟨b, rfl, hb⟩ := succeeded_of_announces hr h ha
  rw [if_neg (by simp)] at hb
  obtain ⟨hv, q, x, hq, hrequest, rfl, became⟩ := announcedAs_of_announce hk hb
  have hhead : r.method ≠ "HEAD" := by rw [hr.1]; decide
  exact ⟨hv, q, x, hq, hrequest, status_complete fresh r _, ⟨_, rfl, readAll_metadataResponse fresh hhead _ _⟩, became⟩

/-- Of each object that a successful answer presents, what the client is told is so. -/
theorem announcedAs_of_announces {fresh : Fresh} (hk : m.Keyed) (hr : Announces r space repo batched)
    (h : (Http.respond d fresh r).run memories (m, v) = (a, m', v')) (ha : a.status < 400) :
    v' = v ∧ Spreads m m' ∧ ∃ l : List Transfer.Resolved, Presents batched a (l.map (shown d)) ∧
      ∀ x ∈ l, x.request.repo = repo ∧ x.request.authorization = r.authorization ∧ AnnouncedAs d batched m m' x := by
  cases batched with
  | true =>
    obtain ⟨b, rfl, hb⟩ := succeeded_of_announces hr h ha
    rw [if_pos rfl] at hb
    obtain ⟨hv, spreads, l, rfl, each⟩ := announcedAs_of_batch hk hb
    exact ⟨hv, spreads, l, readAll_metadataResponse fresh (by rw [hr.1]; decide) _ _, each⟩
  | false =>
    obtain ⟨hv, q, x, -, hrequest, -, presents, became⟩ := announcedAs_of_single hk hr h ha
    refine ⟨hv, became.spreads, [x], presents, fun y hy => ?_⟩
    obtain rfl := List.mem_singleton.mp hy
    exact ⟨by rw [hrequest], by rw [hrequest], became⟩

/-! ## Bytes and records -/

variable {s s' : Stores} {oid : Oid}

def Committed (s : Stores) (oid : Oid) : Prop :=
  ∃ record, Ledger.Recorded s.1 oid record ∧ record.isCommitted = true

def HasBytes (s : Stores) (oid : Oid) : Prop :=
  ∃ source, (stores (.inr (.openBlob oid)) s).1 = Except.ok (some source)

theorem committed_iff (h : Holds s m v) : Committed s oid ↔ m.Committed oid := by
  unfold Committed Catalog.Memory.Committed
  simp only [Ledger.recorded_iff h.1]

theorem hasBytes_iff (h : Holds s m v) : HasBytes s oid ↔ v.blobs.contains oid = true := by
  have ha : (stores (.inr (.openBlob oid)) s).1 = Except.ok ((v.blobs.get? oid).map Stream.ofBytes) :=
    (Vault.Store.handle_holds h.2 (.openBlob oid)).1
  unfold HasBytes
  rw [ha, SortedMap.contains_iff]
  constructor
  · intro h
    obtain ⟨source, h⟩ := h
    obtain ⟨b, hb, -⟩ := Option.map_eq_some_iff.mp (Except.ok.inj h)
    exact ⟨b, hb⟩
  · intro h
    obtain ⟨b, hb⟩ := h
    rw [hb]
    exact ⟨_, rfl⟩

/-- From empty stores on, there are bytes of the committed objects and of no others. So an object that is announced
is answered as one that is there exactly if it has been committed. -/
theorem attended_of_served (he : Empty s) (h : Relation.ReflTransGen (Served d) s s') :
    (∀ oid, HasBytes s' oid ↔ Committed s' oid) ∧
      ∀ {fresh : Fresh} {r : Request} {space repo : String} {a : Response}, Announces r space repo false →
        a = ((Http.respond d fresh r).run stores s').1 → a.status < 400 →
        ∃ q oid, sentObject r = .ok q ∧ Oid.parse q.oid = .ok oid ∧
          (a.status = 200 ∧ Committed s' oid ∨ a.status = 202 ∧ ¬ Committed s' oid) := by
  obtain ⟨m, v, hh, hs⟩ := settled_of_served he h
  have attended : ∀ oid, HasBytes s' oid ↔ Committed s' oid := fun oid => by
    rw [hasBytes_iff hh, committed_iff hh, hs.kept]
  refine ⟨attended, fun {fresh r space repo a} hr hanswer ha => ?_⟩
  rcases hrun : (Http.respond d fresh r).run memories (m, v) with ⟨b, m', v'⟩
  rw [(hh.respond d fresh r).1, hrun] at hanswer
  subst hanswer
  obtain ⟨-, q, x, hq, hrequest, hstatus, -, became⟩ := announcedAs_of_single hs.keyed hr hrun ha
  have hp := became.named
  rw [hrequest] at hp
  refine ⟨q, x.record.oid, hq, hp, ?_⟩
  rw [committed_iff hh, hstatus]
  by_cases hc : m.Committed x.record.oid
  · have hcontains : m.objects.contains x.record.oid = true := by
      obtain ⟨record, hrecord, -⟩ := hc
      exact SortedMap.contains_iff.mpr ⟨record, hrecord⟩
    rw [hcontains, (hs.kept _).mpr hc]
    exact .inl ⟨rfl, hc⟩
  · have hblob : v.blobs.contains x.record.oid = false := Bool.eq_false_iff.mpr fun hb => hc ((hs.kept _).mp hb)
    rw [hblob, Bool.and_false]
    exact .inr ⟨rfl, hc⟩

namespace Sample

def object : Oid :=
  (Oid.parse digits).toOption.getD default

theorem parse_digits : Oid.parse digits = .ok object := by decide +kernel

theorem empty_unused : Empty unused := ⟨.inl rfl, .inl rfl⟩

theorem served_announced : Relation.ReflTransGen (Served depot) unused announced :=
  .single ⟨fresh, announcement "3", rfl⟩

theorem served_uploaded : Relation.ReflTransGen (Served depot) unused uploaded :=
  .tail served_announced ⟨fresh, upload, rfl⟩

theorem announces_announcement : Announces (announcement "3") "a" "b" false :=
  ⟨rfl, .objects "a" "b", by decide +kernel, by decide +kernel⟩

theorem announcedAs_of_announcement {target : String} {fresh : Fresh} (hk : m.Keyed)
    (hr : Announces { announcement "3" with target } space repo false)
    (h : (respond d fresh { announcement "3" with target }).run memories (m, v) = (a, m', v')) (ha : a.status < 400) :
    ∃ x, x.record.oid = object ∧ Presents false a [shown d x] ∧ AnnouncedAs d false m m' x := by
  have hsent : (sentObject (announcement "3")).toOption.bind (fun q => (Oid.parse q.oid).toOption) = some object := by
    decide +kernel
  obtain ⟨-, q, x, hq, hrequest, -, presents, became⟩ := announcedAs_of_single hk hr h ha
  have named := became.named
  rw [hrequest] at named
  rw [show sentObject (announcement "3") = .ok q from hq, Except.toOption, Option.bind_some, named] at hsent
  exact ⟨x, Option.some.inj hsent, presents, became⟩

end Sample

open Sample in
theorem attended_after_upload : Empty unused ∧ Relation.ReflTransGen (Served depot) unused uploaded ∧
    (∀ oid, HasBytes uploaded oid ↔ Committed uploaded oid) ∧ Announces (announcement "3") "a" "b" false ∧
    ((respond depot fresh (announcement "3")).run stores uploaded).1.status = 200 ∧
    ∃ q oid, sentObject (announcement "3") = .ok q ∧ Oid.parse q.oid = .ok oid ∧ Committed uploaded oid := by
  have hstatus : ((respond depot fresh (announcement "3")).run stores uploaded).1.status = 200 := by decide +kernel
  obtain ⟨attended, became⟩ := attended_of_served empty_unused served_uploaded
  obtain ⟨q, oid, hq, hp, hc | hc⟩ := became announces_announcement rfl (by rw [hstatus]; decide)
  · exact ⟨empty_unused, served_uploaded, attended, announces_announcement, hstatus, q, oid, hq, hp, hc.2⟩
  · rw [hstatus] at hc
    cases hc.1

end BlobDepot.Depot
