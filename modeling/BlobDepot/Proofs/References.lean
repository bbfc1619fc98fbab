import BlobDepot.Proofs.Announcements

/-!
# References to announced objects

The record of an object that has been announced to a repository refers to the repository, and the object stays
while nothing takes it out of the repository: `claimed_of_announces`. A batch that finds the object committed is the
exception.
-/

namespace BlobDepot.Depot

open Catalog (Memory Op)
open Ledger (Claimed Keeping)
open Http Prog

def Removes (oid : Oid) (project : String) (r : Request) : Prop :=
  r.method = "DELETE" ∧ ∃ route text, Route.ofPath? r.path = some route ∧
    route.decoded? = some (.projectObject project text) ∧ Oid.parse text = .ok oid

/-- A request has been answered that does not take the object out of the project, and no call has failed. -/
def ServedBeside (d : Depot) (oid : Oid) (project : String) (s s' : Stores) : Prop :=
  ∃ fresh r, ¬ Removes oid project r ∧ s' = ((Http.respond d fresh r).run stores s).2

variable {d : Depot} {s s' s'' : Stores} {m : Memory} {v : Vault.Memory} {oid : Oid} {project space repo : String}
  {r : Request} {batched : Bool} {a : Response}

/-! ## References stay -/

def Lasting : interface.Op → Prop
  | .inl op => Keeping op
  | .inr _ => True

theorem lasting_of_quiet {op : interface.Op} (h : Quiet op) : Lasting op := by
  cases op with
  | inl op => cases op <;> trivial
  | inr op => trivial

theorem lasting_of_adds {op : interface.Op} (h : Adds op) : Lasting op := by
  cases op with
  | inl op => cases op <;> trivial
  | inr op => trivial

theorem Lasting.refers {op : interface.Op} {s : Memory × Vault.Memory} (h : Lasting op)
    (hr : s.1.Refers oid project) : (memories op s).2.1.Refers oid project := by
  cases op with
  | inl op => exact (Ledger.grows_respond op h s.1).refers hr
  | inr op => exact hr

theorem keeps_of_lasting {α : Type} {p : Prog interface α} (h : p.Calls Lasting) :
    p.Keeps memories fun s => s.1.Refers oid project :=
  h.keeps fun _ _ hop hr => hop.refers hr

/-- Taking the object out of another project, or another object out of this one, leaves the reference. -/
theorem refers_removeFromProject {o : Oid} {name : String} (hne : ¬ (oid = o ∧ project = name))
    (h : m.Refers oid project) :
    ((Ledger.removeFromProject o name).run.run Memory.handle m).2.Refers oid project := by
  have parted : (Ledger.parted m o name).Refers oid project := by
    unfold Ledger.parted
    rw [Catalog.Memory.refers_respond, Catalog.Memory.refers_respond]
    exact ⟨h, hne⟩
  rcases Ledger.removed_or_parted o name m with ⟨hrun, record, hrecord, hempty⟩ | ⟨-, hrun⟩
  · rw [hrun, Catalog.Memory.refers_respond]
    refine ⟨parted, ?_⟩
    -- A record that is deleted refers to no project.
    rintro rfl
    obtain ⟨record', hrecord', hc⟩ := parted
    rw [hrecord] at hrecord'
    cases hrecord'
    rw [SortedMap.isEmpty_iff.mp hempty project] at hc
    cases hc
  · rw [hrun]
    exact parted

theorem keeps_refers (d : Depot) (fresh : Fresh) (h : ¬ Removes oid project r) :
    (Http.respond d fresh r).Keeps memories fun s => s.1.Refers oid project := by
  refine keeps_respond (fun op s hop hr => (lasting_of_quiet hop).refers hr) fun route route' hp hroute hm hq => ?_
  cases route' with
  | objects space repo => exact keeps_of_lasting ((adds_announce d r space repo).mono fun _ => lasting_of_adds)
  | batch space repo => exact keeps_of_lasting ((adds_batch d r space repo).mono fun _ => lasting_of_adds)
  | projects =>
    simp only [handle, if_pos (show r.method = "POST" from not_not.mp hq)]
    exact keeps_of_lasting (calls_addProject (fun _ => trivial) r)
  | object space repo text =>
    simp only [handle, if_pos (show r.method = "PUT" from not_not.mp hq)]
    exact keeps_of_lasting (calls_upload (fun _ => trivial) (fun _ => trivial) (fun _ _ => trivial) (fun _ => rfl)
      (fun _ _ _ => trivial) (fun _ => trivial) d r space repo text)
  | projectObject name text =>
    have hdelete : r.method = "DELETE" := by simpa [Route.methods] using hm
    simp only [handle]
    unfold Management.removeObject
    split
    · exact keeps_done _
    · next o ho =>
      have hne : ¬ (oid = o ∧ project = name) := by
        rintro ⟨rfl, rfl⟩
        exact h ⟨hdelete, route, text, hp, hroute, ho⟩
      refine keeps_run_bind (keeps_fromCatalog fun v m hr => refers_removeFromProject hne hr) fun deleted => ?_
      refine keeps_of_lasting ?_
      dsimp only
      split
      · exact calls_run_bind (calls_fromVault (calls_askVault trivial)) fun _ => calls_done _
      · exact calls_done _
  | _ => exact absurd trivial hq

/-! ## Claims of repositories -/

theorem claimed_iff (hh : Holds s m v) (hs : Settled m v) : Claimed s.1 oid project ↔ m.Refers oid project := by
  unfold Claimed
  rw [← Ledger.refers_iff hh.1, ← Ledger.member_iff hh.1, hs.agrees]
  exact and_self_iff

theorem claimed_of_served {s₁ : Stores} (hh : Holds s m v) (hs : Settled m v) (hc : Claimed s.1 oid project)
    (h : Relation.ReflTransGen (ServedBeside d oid project) s s₁) : Claimed s₁.1 oid project := by
  have held : ∃ m v, Holds s₁ m v ∧ Settled m v ∧ m.Refers oid project := by
    induction h with
    | refl => exact ⟨m, v, hh, hs, (claimed_iff hh hs).mp hc⟩
    | tail _ h ih =>
      obtain ⟨m, v, hh, hs, hr⟩ := ih
      obtain ⟨fresh, r, hremoves, rfl⟩ := h
      exact ⟨_, _, (hh.respond d fresh r).2, keeps_settled d fresh r (m, v) hs,
        keeps_refers d fresh hremoves (m, v) hr⟩
  obtain ⟨m₁, v₁, hh₁, hs₁, hr⟩ := held
  exact (claimed_iff hh₁ hs₁).mpr hr

/-- Each object that a successful answer presents is claimed for the repository, and it stays claimed while nothing
takes it out of the repository; only a batch does not claim an object that has been committed before. -/
theorem claimed_of_announces (he : Empty s) (h : Relation.ReflTransGen (Served d) s s') {fresh : Fresh}
    (hr : Announces r space repo batched) (hrepo : repo ≠ "")
    (hrun : (Http.respond d fresh r).run stores s' = (a, s'')) (ha : a.status < 400) :
    ∃ l, Presents batched a l ∧ ∀ x ∈ l, ∃ oid : Oid, x.oid = oid.hex ∧
      ((batched = true → Committed s' oid → Claimed s'.1 oid repo) → Claimed s''.1 oid repo ∧
        ∀ {s₁ : Stores}, Relation.ReflTransGen (ServedBeside d oid repo) s'' s₁ → Claimed s₁.1 oid repo) := by
  obtain ⟨m, v, hh, hs⟩ := settled_of_served he h
  rcases hmem : (Http.respond d fresh r).run memories (m, v) with ⟨b, m', v'⟩
  obtain ⟨hanswer, hh'⟩ := hh.respond d fresh r
  have hs' := keeps_settled d fresh r (m, v) hs
  rw [hrun, hmem] at hanswer hh'
  rw [hmem] at hs'
  obtain rfl : a = b := hanswer
  obtain ⟨-, spreads, l, presents, each⟩ := announcedAs_of_announces hs.keyed hr hmem ha
  refine ⟨l.map (shown d), presents, fun y hy => ?_⟩
  obtain ⟨x, hx, rfl⟩ := List.mem_map.mp hy
  obtain ⟨hrepo', -, became⟩ := each x hx
  refine ⟨x.record.oid, rfl, fun hbefore => ?_⟩
  have claimed : Claimed s''.1 x.record.oid repo := by
    rw [claimed_iff hh' hs']
    -- What may be sent has been claimed now. What was only looked up has been claimed before.
    cases hu : x.upload with
    | true => exact hrepo' ▸ became.joined hu (hrepo' ▸ hrepo)
    | false =>
      obtain ⟨hbatched, hc⟩ := became.looked hu
      exact spreads.refers ((claimed_iff hh hs).mp (hbefore hbatched ((committed_iff hh).mpr hc)))
  exact ⟨claimed, fun hlater => claimed_of_served hh' hs' claimed hlater⟩

def Sample.elsewhere : Request :=
  { removal with target := "/mgmt/projects/c/objects/" ++ digits }

open Sample in
theorem claimed_after_announcement : ∃ a s, (Http.respond depot fresh (announcement "3")).run stores unused = (a, s) ∧
    Empty unused ∧ Announces (announcement "3") "a" "b" false ∧ "b" ≠ "" ∧ a.status < 400 ∧
    ∃ l, Presents false a l ∧ ∀ x ∈ l, ∃ oid : Oid, x.oid = oid.hex ∧ Claimed s.1 oid "b" ∧
      Claimed ((Http.respond depot fresh elsewhere).run stores s).2.1 oid "b" := by
  have hstatus : ((Http.respond depot fresh (announcement "3")).run stores unused).1.status < 400 := by decide +kernel
  have hpath : Route.ofPath? elsewhere.path = some (.projectObject "c" digits) := by decide +kernel
  have hdecoded : (Route.projectObject "c" digits).decoded? = some (.projectObject "c" digits) := by decide +kernel
  obtain ⟨l, presents, each⟩ :=
    claimed_of_announces empty_unused .refl announces_announcement (by decide) (Prod.eta _).symm hstatus
  refine ⟨_, _, (Prod.eta _).symm, empty_unused, announces_announcement, by decide, hstatus, l, presents,
    fun x hx => ?_⟩
  obtain ⟨oid, hoid, claimed⟩ := each x hx
  obtain ⟨claimed, lasting⟩ := claimed fun hb => by cases hb
  have beside : ¬ Removes oid "b" elsewhere := by
    intro h
    obtain ⟨-, route, text, hp, hroute, -⟩ := h
    rw [hpath] at hp
    cases hp
    rw [hdecoded] at hroute
    exact absurd (Route.projectObject.inj (Option.some.inj hroute)).1 (by decide)
  exact ⟨oid, hoid, claimed, lasting (.single ⟨fresh, elsewhere, beside, rfl⟩)⟩

/-! ## Batches of committed objects -/

def lookedUp (m : Memory) (q : ObjectRequest) : Option Transfer.Resolved := do
  let oid ← (Oid.parse q.oid).toOption
  let record ← m.objects.get? oid
  pure ⟨q, record.asExisting, true, false⟩

theorem run_resolve_committed {q : ObjectRequest} (hadmits : d.service.Admits m q.authorization)
    (hp : Oid.parse q.oid = .ok oid) (hc : m.Committed oid) :
    (Transfer.resolve d q).run.run Memory.handle m = (.ok (lookedUp m q), m) := by
  obtain ⟨record, hrecord, hc⟩ := hc
  have hfound : lookedUp m q = some ⟨q, record.asExisting, true, false⟩ := by
    simp [lookedUp, hp, hrecord, Except.toOption]
  unfold Transfer.resolve
  rw [run_run_bind, run_run_lift, run_serviceGet hadmits hp hrecord hc, hfound]
  rfl

def wanted (r : Request) (space repo : String) (b : Batch) : List ObjectRequest :=
  b.objects.map fun q => { q with namespaceName := space, repo, authorization := r.authorization }

/-- A batch of objects that have been committed changes nothing. -/
theorem run_batch_committed {body : ByteArray} {b : Batch} (hb : collectBody .empty r.body = .ok body)
    (hd : Json.decode Batch.decode body.data.toList = .ok b) (hadmits : d.service.Admits m r.authorization)
    (hall : ∀ q ∈ b.objects, ∃ oid, Oid.parse q.oid = .ok oid ∧ m.Committed oid) (space repo : String) :
    (Transfer.batch d r space repo).run.run memories (m, v) = (.ok (metadataResponse 200 (batchValue
      (((wanted r space repo b).filterMap (lookedUp m)).map (shown d)))), m, v) := by
  have hresolve : ∀ q ∈ wanted r space repo b,
      (Transfer.resolve d q).run.run Memory.handle m = (.ok (lookedUp m q), m) := by
    intro q hq
    obtain ⟨sent, hsent, rfl⟩ := List.mem_map.mp hq
    obtain ⟨oid, hp, hc⟩ := hall sent hsent
    exact run_resolve_committed hadmits hp hc
  have hfound : (fromCatalog ((wanted r space repo b).mapM (Transfer.resolve d))).run.run memories (m, v) =
      (.ok ((wanted r space repo b).map (lookedUp m)), m, v) :=
    fromCatalog_ok.mpr ⟨run_mapM_unchanged _ hresolve, rfl⟩
  have hkept : ((wanted r space repo b).map (lookedUp m)).filterMap id =
      (wanted r space repo b).filterMap (lookedUp m) := by
    rw [List.filterMap_map]
    rfl
  unfold Transfer.batch
  dsimp only
  rw [run_run_bind, run_wholeBody, hb]
  dsimp only [Except.map, Except.mapError]
  rw [hd]
  dsimp only
  rw [run_run_bind]
  unfold wanted at hfound hkept ⊢
  rw [hfound]
  dsimp only
  rw [hkept]
  rfl

theorem answered_of_committed {fresh : Fresh} {body : ByteArray} {b : Batch} (hh : Holds s m v)
    (hr : Announces r space repo true) (hrun : (Http.respond d fresh r).run stores s = (a, s'))
    (hb : collectBody .empty r.body = .ok body) (hd : Json.decode Batch.decode body.data.toList = .ok b)
    (hadmits : d.service.Admits m r.authorization)
    (hall : ∀ q ∈ b.objects, ∃ oid, Oid.parse q.oid = .ok oid ∧ m.Committed oid) :
    a.status = 200 ∧ Presents true a (((wanted r space repo b).filterMap (lookedUp m)).map (shown d)) ∧
      Holds s' m v := by
  obtain ⟨hpost, route, hp, hroute⟩ := hr
  rw [if_pos rfl] at hroute
  have hanswer : (Http.respond d fresh r).run memories (m, v) = (complete fresh r (metadataResponse 200
      (batchValue (((wanted r space repo b).filterMap (lookedUp m)).map (shown d)))), m, v) := by
    rw [run_respond_open hp hroute rfl (by rw [hpost]; rfl)]
    simp only [handle, run_batch_committed hb hd hadmits hall]
  obtain ⟨ha, hh'⟩ := hh.respond d fresh r
  rw [hrun, hanswer] at ha hh'
  dsimp only at ha hh'
  subst ha
  exact ⟨status_complete fresh r _, readAll_metadataResponse fresh (by rw [hpost]; decide) _ _, hh'⟩

def ClaimsAll (asked : Bool → String → Prop) : Prop :=
  ∀ {d : Depot} {s s' s'' : Stores} {fresh : Fresh} {r : Request} {space repo : String} {batched : Bool} {a : Response}
    {l : List Representation} {x : Representation} {oid : Oid}, asked batched repo → Empty s →
    Relation.ReflTransGen (Served d) s s' → Announces r space repo batched →
    (Http.respond d fresh r).run stores s' = (a, s'') → a.status < 400 → Presents batched a l → x ∈ l →
    x.oid = oid.hex → Claimed s''.1 oid repo

namespace Sample

def wish : ByteArray :=
  ("\x7b\"objects\":[\x7b\"oid\":\"" ++ digits ++ "\",\"size\":3\x7d]\x7d").toUTF8

def inquiry : Request :=
  ⟨"POST", "/a/c/objects/batch", [], Stream.ofBytes wish⟩

def nameless : Request :=
  { announcement "3" with target := "/a//objects" }

end Sample

open Sample in
/-- Nothing is claimed for a repository without a name, and a batch does not claim what has been committed. -/
theorem unclaimed_by_batch :
    ¬ ClaimsAll (fun batched _ => batched = false) ∧ ¬ ClaimsAll (fun _ repo => repo ≠ "") := by
  constructor
  · intro h
    have announces : Announces nameless "a" "" false := ⟨rfl, .objects "a" "", by decide +kernel, by decide +kernel⟩
    have hstatus : ((Http.respond depot fresh nameless).run stores unused).1.status < 400 := by decide +kernel
    have apart : ¬ ((Http.respond depot fresh nameless).run memories (.empty, .empty)).2.1.Refers object "" := by
      decide +kernel
    obtain ⟨hanswer, hh⟩ := empty_unused.holds.respond depot fresh nameless
    rcases hmem : (Http.respond depot fresh nameless).run memories (.empty, .empty) with ⟨b, m, v⟩
    rcases hrun : (Http.respond depot fresh nameless).run stores unused with ⟨a, s⟩
    rw [hrun] at hstatus
    rw [hmem] at apart
    rw [hrun, hmem] at hanswer hh
    obtain rfl : a = b := hanswer
    obtain ⟨x, hoid, presents, -⟩ := announcedAs_of_announcement Catalog.Memory.keyed_empty announces hmem hstatus
    have claimed := h rfl empty_unused .refl announces hrun hstatus presents List.mem_cons_self (congrArg Oid.hex hoid)
    exact apart ((Ledger.refers_iff hh.1).mpr claimed.1)
  · intro h
    have announces : Announces inquiry "a" "c" true := ⟨rfl, .batch "a" "c", by decide +kernel, by decide +kernel⟩
    have hb : collectBody .empty inquiry.body = .ok wish := by decide +kernel
    have hd : Json.decode Batch.decode wish.data.toList = .ok ⟨[⟨digits, 3, "", "", ""⟩]⟩ := by decide +kernel
    obtain ⟨m, v, hh, hc, apart⟩ : ∃ m v, Holds uploaded m v ∧ m.Committed object ∧ ¬ m.Refers object "c" :=
      ⟨_, _, ((empty_unused.holds.respond depot fresh (announcement "3")).2.respond depot fresh upload).2,
        by decide +kernel⟩
    rcases hrun : (Http.respond depot fresh inquiry).run stores uploaded with ⟨a, s⟩
    obtain ⟨hstatus, presents, hh'⟩ := answered_of_committed hh announces hrun hb hd rfl fun q hq => by
      obtain rfl := List.mem_singleton.mp hq
      exact ⟨object, parse_digits, hc⟩
    obtain ⟨record, hrecord, -⟩ := hc
    have hfound : (wanted inquiry "a" "c" ⟨[⟨digits, 3, "", "", ""⟩]⟩).filterMap (lookedUp m) =
        [⟨⟨digits, 3, "a", "c", inquiry.authorization⟩, record.asExisting, true, false⟩] := by
      simp [wanted, lookedUp, parse_digits, hrecord, Except.toOption]
    rw [hfound] at presents
    have claimed := h (by decide) empty_unused served_uploaded announces hrun (by rw [hstatus]; decide) presents
      List.mem_cons_self (congrArg Oid.hex (hh.1.keyed object record hrecord).1)
    exact apart ((Ledger.refers_iff hh'.1).mpr claimed.1)

end BlobDepot.Depot
