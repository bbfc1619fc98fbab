import BlobDepot.Proofs.Announcements

/-!
# Offers of downloads

A client that announces an object is offered a download of it if there is a record of the object, and the download
succeeds if the record is committed: `offered_of_announces`. Between the two are the objects that have been claimed
and not yet sent.
-/

namespace BlobDepot.Depot

open Catalog (Backing Memory Op)
open Http Prog

def Offers (x : Representation) : Prop :=
  x.links.contains "download" = true

def Known (s : Stores) (oid : Oid) : Prop :=
  ∃ record, Ledger.Recorded s.1 oid record

variable {d : Depot} {s s' s'' : Stores} {m m' : Memory} {v : Vault.Memory} {oid : Oid} {space repo text : String}
  {r : Request} {batched : Bool} {a : Response}

theorem offers_shown (d : Depot) (x : Transfer.Resolved) : Offers (shown d x) ↔ x.download = true := by
  unfold Offers shown represent
  cases x.download <;> cases x.upload <;> simp [SortedMap.ofList, SortedMap.contains_insert]

theorem known_iff (h : Holds s m v) : Known s oid ↔ m.objects.contains oid = true := by
  unfold Known
  simp only [Ledger.recorded_iff h.1, SortedMap.contains_iff]

theorem admits_of_holds {service : Service} {b : Backing} (h : b.Holds m) (h' : b.Holds m') (authorization : String) :
    service.Admits m authorization ↔ service.Admits m' authorization := by
  have hcalls : (service.credentials.authenticate authorization).Calls fun op : Op => op ≠ .close :=
    calls_authenticate (by simp) authorization
  unfold Service.Admits
  rw [← (Backing.run_holds hcalls h).2.1, ← (Backing.run_holds hcalls h').2.1]

/-! ## Downloads -/

theorem run_vaultGet {b : ByteArray} (h : v.blobs.get? oid = some b) :
    (Vault.get oid).run.run Vault.Memory.handle v = (.ok (Stream.ofBytes b), v) := by
  unfold Vault.get
  rw [run_run_bind, run_askVault]
  simp only [Vault.Memory.handle, h]
  rfl

theorem run_content {record : ObjectRecord} {b : ByteArray} (hr : r.method = "GET")
    (hb : v.blobs.get? record.oid = some b) (m : Memory) :
    ∃ a, (Transfer.content r record).run.run memories (m, v) = (.ok a, m, v) ∧ a.status = 200 := by
  have hhead : ¬ r.method = "HEAD" := by rw [hr]; decide
  have hget : (fromVault (Vault.get record.oid)).run.run memories (m, v) = (.ok (Stream.ofBytes b), m, v) := by
    rw [run_fromVault, memories, run_sum_right, run_vaultGet hb]
    rfl
  unfold Transfer.content
  rw [if_neg hhead, run_run_bind, hget]
  exact ⟨_, rfl, rfl⟩

section
variable (hr : r.method = "GET") (ha : accepted r = contentType) (hadmits : d.service.Admits m r.authorization)
  (hp : Oid.parse text = .ok oid) (hk : m.Keyed) (hs : Sound oid m v)
include ha hadmits hp

include hr hk hs in
theorem run_fetch_committed (hc : m.Committed oid) (space repo : String) :
    ∃ a, (Transfer.fetch d r space repo text).run.run memories (m, v) = (.ok a, m, v) ∧ a.status = 200 := by
  obtain ⟨record, hrecord, hcommitted⟩ := hc
  obtain rfl : record.oid = oid := (hk oid record hrecord).1
  obtain ⟨b, hb, -, -⟩ := hs record hrecord hcommitted
  have hbytes : v.blobs.get? record.asExisting.oid = some b := hb
  have hget : (d.service.get (objectRequest r space repo text)).run.run Memory.handle m =
      (.ok record.asExisting, m) := run_serviceGet hadmits hp hrecord hcommitted
  have hexists : v.blobs.contains record.asExisting.oid = true := SortedMap.contains_iff.mpr ⟨b, hbytes⟩
  unfold Transfer.fetch
  rw [ha, if_neg (by simp)]
  dsimp only
  rw [run_run_bind, fromCatalog_ok.mpr ⟨hget, rfl⟩]
  dsimp only
  rw [run_run_bind, run_exists, hexists]
  exact run_content hr hbytes m

theorem run_fetch_uncommitted (hc : ¬ m.Committed oid) (space repo : String) :
    ∃ e s, (Transfer.fetch d r space repo text).run.run memories (m, v) = (.error e, s) := by
  unfold Transfer.fetch
  rw [ha, if_neg (by simp)]
  dsimp only
  rw [run_run_bind, run_fromCatalog, memories, run_sum_left, Service.get,
    Service.run_admitted (q := objectRequest r space repo text) hadmits hp]
  rcases hget : (Ledger.get oid).run.run Memory.handle m with ⟨e | record, m'⟩
  · exact ⟨_, _, rfl⟩
  · obtain ⟨record, hrecord, hcommitted, -⟩ := Ledger.get_ok.mp hget
    exact absurd ⟨record, hrecord, hcommitted⟩ hc

end

/-- A download succeeds for a caller who is admitted exactly if the object is committed. -/
theorem status_of_fetches {fresh : Fresh} (hf : Fetches r text) (hadmits : d.service.Admits m r.authorization)
    (hp : Oid.parse text = .ok oid) (hk : m.Keyed) (hs : Sound oid m v) :
    ((Http.respond d fresh r).run memories (m, v)).1.status = 200 ↔ m.Committed oid := by
  obtain ⟨hr, ha, route, space, repo, hpath, hroute⟩ := hf
  have hput : ¬ r.method = "PUT" := by rw [hr]; decide
  rw [run_respond_open hpath hroute rfl (by rw [hr]; rfl), status_complete]
  simp only [handle, if_neg hput]
  by_cases hc : m.Committed oid
  · obtain ⟨a, hrun, hstatus⟩ := run_fetch_committed hr ha hadmits hp hk hs hc space repo
    rw [hrun]
    exact iff_of_true hstatus hc
  · obtain ⟨e, s, hrun⟩ := run_fetch_uncommitted ha hadmits hp (v := v) hc space repo
    rw [hrun]
    exact iff_of_false e.status_ne hc

/-! ## Offers -/

/-- From empty stores on, whichever calls fail: a client that announces objects is offered a download of those of
which there is a record, and a download that follows succeeds exactly if the record is committed. -/
theorem offered_of_announces (he : Empty s) (h : Relation.ReflTransGen (Answered d) s s') {fresh : Fresh}
    (hr : Announces r space repo batched) (hrun : (Http.respond d fresh r).run stores s' = (a, s''))
    (ha : a.status < 400) :
    ∃ l, Presents batched a l ∧ ∀ x ∈ l, ∃ oid : Oid, x.oid = oid.hex ∧ (Known s' oid → Offers x) ∧
      (batched = false → Offers x → Known s' oid) ∧
      ∀ {fresh' : Fresh} {r' : Request} {text : String}, Fetches r' text → Oid.parse text = .ok oid →
        r'.authorization = r.authorization →
        (((Http.respond d fresh' r').run stores s'').1.status = 200 ↔ Committed s' oid) := by
  have served : Served d s' s'' := ⟨fresh, r, by rw [hrun]⟩
  obtain ⟨m, v, hh, -⟩ := law_of_answered h (he.law default)
  rcases hmem : (Http.respond d fresh r).run memories (m, v) with ⟨b, m', v'⟩
  obtain ⟨hanswer, hh'⟩ := hh.respond d fresh r
  rw [hrun, hmem] at hanswer hh'
  obtain rfl : a = b := hanswer
  obtain ⟨-, spreads, l, presents, each⟩ := announcedAs_of_announces hh.1.keyed hr hmem ha
  refine ⟨l.map (shown d), presents, fun y hy => ?_⟩
  obtain ⟨x, hx, rfl⟩ := List.mem_map.mp hy
  obtain ⟨-, hauthorization, became⟩ := each x hx
  rw [offers_shown]
  refine ⟨x.record.oid, rfl, (fun hknown => became.offered ((known_iff hh).mp hknown)),
    (fun hb hd => (known_iff hh).mpr (became.recorded hb hd)), fun {fresh' r' text} hf hp hsame => ?_⟩
  -- The bytes are those that the law of this object is about.
  obtain ⟨m₁, v₁, hh₁, hs₁⟩ := served.answered.law (law_of_answered h (he.law x.record.oid))
  have hadmits : d.service.Admits m₁ r'.authorization := by
    rw [admits_of_holds hh₁.1 hh'.1, Service.admits_congr spreads.users, hsame, ← hauthorization]
    exact became.admitted
  rw [(hh₁.respond d fresh' r').1, status_of_fetches hf hadmits hp hh₁.1.keyed hs₁, ← committed_iff hh₁,
    committed_iff hh', spreads.committed, committed_iff hh]

open Sample in
theorem offered_after_upload : ∃ a s, (Http.respond depot fresh (announcement "3")).run stores uploaded = (a, s) ∧
    Empty unused ∧ Relation.ReflTransGen (Answered depot) unused uploaded ∧
    Announces (announcement "3") "a" "b" false ∧ a.status < 400 ∧ Fetches download digits ∧
    ∃ l, Presents false a l ∧ ∀ x ∈ l, ∃ oid : Oid, x.oid = oid.hex ∧ (Known uploaded oid ↔ Offers x) ∧
      (Oid.parse digits = .ok oid →
        (((Http.respond depot fresh download).run stores s).1.status = 200 ↔ Committed uploaded oid)) := by
  have answered : Relation.ReflTransGen (Answered depot) unused uploaded :=
    served_uploaded.lift id fun _ _ => Served.answered
  have fetches : Fetches download digits :=
    ⟨rfl, by decide +kernel, .object "a" "b" digits, "a", "b", by decide +kernel, by decide +kernel⟩
  have hstatus : ((Http.respond depot fresh (announcement "3")).run stores uploaded).1.status < 400 := by
    decide +kernel
  obtain ⟨l, presents, each⟩ :=
    offered_of_announces empty_unused answered announces_announcement (Prod.eta _).symm hstatus
  refine ⟨_, _, (Prod.eta _).symm, empty_unused, answered, announces_announcement, hstatus, fetches, l, presents,
    fun x hx => ?_⟩
  obtain ⟨oid, hoid, offered, known, fetched⟩ := each x hx
  exact ⟨oid, hoid, ⟨offered, known rfl⟩, fun hp => fetched fetches hp rfl⟩

/-! ## An offer in vain -/

open Sample in
/-- An object that has been claimed and not been sent is offered for download when it is claimed again. -/
theorem offered_in_vain : ¬ ∀ {d : Depot} {s s' s'' : Stores} {fresh : Fresh} {r r' : Request} {route : Route}
    {space repo text : String} {batched : Bool} {a : Response} {l : List Representation} {x : Representation}
    {oid : Oid}, Empty s → Relation.ReflTransGen (Served d) s s' → Announces r space repo batched →
    (Http.respond d fresh r).run stores s' = (a, s'') → a.status < 400 → Presents batched a l → x ∈ l →
    x.oid = oid.hex → Offers x → r'.method = "GET" → accepted r' = contentType →
    Route.ofPath? r'.path = some route → route.decoded? = some (.object space repo text) → Oid.parse text = .ok oid →
    r'.authorization = r.authorization → ∀ fresh', ((Http.respond d fresh' r').run stores s'').1.status = 200 := by
  intro h
  have hp : Route.ofPath? download.path = some (.object "a" "b" digits) := by decide +kernel
  have hstatus : ((Http.respond depot fresh (announcement "3")).run stores announced).1.status < 400 := by
    decide +kernel
  have hmissing : ((Http.respond depot fresh download).run stores
      ((Http.respond depot fresh (announcement "3")).run stores announced).2).1.status = 404 := by decide +kernel
  have known : ((Http.respond depot fresh (announcement "3")).run memories
      (.empty, .empty)).2.1.objects.contains object = true := by decide +kernel
  obtain ⟨-, hh⟩ : _ ∧ Holds announced _ _ := empty_unused.holds.respond depot fresh (announcement "3")
  have hs := keeps_settled depot fresh (announcement "3") (.empty, .empty) settled_empty
  rcases hmem : (Http.respond depot fresh (announcement "3")).run memories (.empty, .empty) with ⟨b, m, v⟩
  rw [hmem] at known hh hs
  dsimp only at known hh hs
  rcases hrun : (Http.respond depot fresh (announcement "3")).run stores announced with ⟨a, s⟩
  rw [hrun] at hstatus hmissing
  dsimp only at hstatus hmissing
  -- Both announcements name the same object, and the second one finds its record.
  obtain ⟨hanswer, -⟩ := hh.respond depot fresh (announcement "3")
  rcases hagain : (Http.respond depot fresh (announcement "3")).run memories (m, v) with ⟨c, m', v'⟩
  rw [hrun, hagain] at hanswer
  obtain rfl : a = c := hanswer
  obtain ⟨x, hoid, presents, became⟩ := announcedAs_of_announcement hs.keyed announces_announcement hagain hstatus
  have hoffers : Offers (shown depot x) := (offers_shown depot x).mpr (became.offered (hoid ▸ known))
  have hfound := h empty_unused served_announced announces_announcement hrun hstatus presents List.mem_cons_self
    (congrArg Oid.hex hoid) hoffers rfl (by decide +kernel) hp (by decide +kernel) parse_digits (by decide +kernel)
    fresh
  cases hmissing.symm.trans hfound

end BlobDepot.Depot
