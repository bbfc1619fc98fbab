import BlobDepot.Proofs.Handlers
import BlobDepot.Proofs.Responses

/-!
# Callers who are rejected

A caller whose credentials are rejected gets an answer that is settled by the request and the configuration,
whatever the stores hold, and leaves the stores as they are: `rejected_alike`.
-/

namespace BlobDepot.Depot

open Catalog (Backing)
open Http Prog

/-- Calls come to what the stores answer, or they fail and do nothing. -/
def Faulty (h : Handler interface Stores) : Prop :=
  ∀ op s, stores.orFailing failure op s (h op s).1 (h op s).2

/-- The credentials of a request are not those that its route asks for. -/
def Rejected (d : Depot) (h : Handler interface Stores) (s : Stores) (r : Request) (route : Route) : Prop :=
  if route.isManaged then d.config.adminEnabled = false ∨ Management.isAdmin d.config r = false
  else ((d.service.credentials.authenticate r.authorization).run h.left s).1 = false

/-! ## What is answered -/

def denial (r : Request) : Route → Except Failure Response
  | .objects _ _ =>
    match collectBody .empty r.body with
    | .ok _ => .error (.failed (.catalog .unauthorized))
    | .error x => .error (.rejected x)
  | .batch _ _ =>
    match collectBody .empty r.body with
    | .ok b =>
      match Json.decode Batch.decode b.data.toList with
      | .ok ⟨[]⟩ => .ok (metadataResponse 200 (batchValue []))
      | _ => .error (.failed (.catalog .unauthorized))
    | .error x => .error (.rejected x)
  | .object _ _ _ =>
    if r.method = "PUT" then .error (.failed (.catalog .unauthorized))
    else if accepted r ≠ metadataType ∧ accepted r ≠ contentType then
      .error (.failed (.notAcceptable ("expected " ++ metadataType ++ " or " ++ contentType)))
    else .error (.failed (.catalog .unauthorized))
  | .health => .ok health
  | _ => .error (.failed (.catalog .unauthorized))

def verdict (c : Config) (r : Request) (route : Route) : Response :=
  match if route.isManaged then Management.refusal? c r else none with
  | some response => response
  | none =>
    if !route.methods.contains r.method then .ofStatus 405
    else
      match route.decoded? with
      | none => Rejection.badSegment.response
      | some route =>
        match denial r route with
        | .ok response => response
        | .error failure => failure.response

/-! ## Looking a user up -/

variable {d : Depot} {h : Handler interface Stores} {s : Stores} {r : Request}

theorem Faulty.readUser (hf : Faulty h) (user : String) (s : Stores) : (h.left (.readUser user) s).2 = s := by
  unfold Handler.left
  rcases hf (.inl (.readUser user)) s with e | ⟨-, e⟩
  · rw [← (Prod.mk.inj e).2]
    show ((Backing.handle (.readUser user) s.1).2, s.2) = s
    rw [Catalog.Backing.handle_readUser]
  · exact e

/-- Whether credentials are accepted or not, asking for them changes nothing. -/
theorem Faulty.run_authenticate (hf : Faulty h) (c : Credentials) (header : String) (s : Stores) :
    ((c.authenticate header).run h.left s).2 = s := by
  have hcalls : (c.authenticate header).Calls fun op : Catalog.Op => ∃ user, op = .readUser user :=
    calls_authenticate (fun user => ⟨user, rfl⟩) header
  refine hcalls.run_unchanged (fun op s' hop => ?_) s
  obtain ⟨user, rfl⟩ := hop
  exact hf.readUser user s'

/-! ## Handlers -/

def Denies (d : Depot) (h : Handler interface Stores) (s : Stores) (authorization : String) : Prop :=
  (d.service.credentials.authenticate authorization).run h.left s = (false, s)

section
variable {q : ObjectRequest} {authorization : String}

theorem run_admission (hd : Denies d h s q.authorization) :
    (d.service.admission q).run.run h.left s = (.error .unauthorized, s) := by
  unfold Service.admission
  rw [run_run_bind, run_run_lift, show _ = _ from hd]
  rfl

theorem run_admitted {α : Type} (hd : Denies d h s q.authorization) (k : Oid → CatalogM α) :
    (d.service.admission q >>= k).run.run h.left s = (.error .unauthorized, s) := by
  rw [run_run_bind, run_admission hd]

theorem run_fromCatalog_admitted {α : Type} (hd : Denies d h s q.authorization) (k : Oid → CatalogM α) :
    (fromCatalog (d.service.admission q >>= k)).run.run h s = (.error (.failed (.catalog .unauthorized)), s) := by
  rw [run_fromCatalog, run_admitted hd]
  rfl

theorem run_resolve (hd : Denies d h s q.authorization) :
    (Transfer.resolve d q).run.run h.left s = (.error .unauthorized, s) := by
  have hget : (d.service.get q).run.run h.left s = (.error .unauthorized, s) := run_admitted hd _
  unfold Transfer.resolve
  rw [run_run_bind, run_run_lift, hget]
  rfl

end

theorem run_announce (hd : Denies d h s r.authorization) (space repo : String) :
    (Transfer.announce d r space repo).run.run h s = (denial r (.objects space repo), s) := by
  unfold Transfer.announce denial
  rw [run_run_bind, run_wholeBody]
  cases collectBody .empty r.body with
  | error x => rfl
  | ok b =>
    dsimp only [Except.map, Except.mapError]
    rw [run_run_bind, Service.put, run_fromCatalog_admitted]
    exact hd

theorem run_batch (hd : Denies d h s r.authorization) (space repo : String) :
    (Transfer.batch d r space repo).run.run h s = (denial r (.batch space repo), s) := by
  unfold Transfer.batch denial
  dsimp only
  rw [run_run_bind, run_wholeBody]
  cases collectBody .empty r.body with
  | error x => rfl
  | ok b =>
    dsimp only [Except.map, Except.mapError]
    cases Json.decode Batch.decode b.data.toList with
    | error e =>
      dsimp only
      rw [run_run_bind, run_fromCatalog, run_run_lift, show _ = _ from hd]
      rfl
    | ok batch =>
      obtain ⟨l⟩ := batch
      dsimp only
      cases l with
      | nil => rfl
      | cons q l =>
        rw [run_run_bind, run_fromCatalog, List.map_cons, List.mapM_cons, run_run_bind, run_resolve]
        · rfl
        · exact hd

theorem run_fetch (hd : Denies d h s r.authorization) (space repo oid : String) :
    (Transfer.fetch d r space repo oid).run.run h s =
      (if accepted r ≠ metadataType ∧ accepted r ≠ contentType then
        .error (.failed (.notAcceptable ("expected " ++ metadataType ++ " or " ++ contentType)))
      else .error (.failed (.catalog .unauthorized)), s) := by
  unfold Transfer.fetch
  dsimp only
  split
  · rfl
  · rw [run_run_bind, Service.get, run_fromCatalog_admitted]
    exact hd

theorem run_upload (hd : Denies d h s r.authorization) (space repo oid : String) :
    (Transfer.upload d r space repo oid).run.run h s = (.error (.failed (.catalog .unauthorized)), s) := by
  unfold Transfer.upload
  dsimp only
  rw [run_run_bind, Service.getPending, run_fromCatalog_admitted]
  exact hd

theorem run_search (hd : Denies d h s r.authorization) (oid : String) :
    (Transfer.search d r oid).run.run h s = (.error (.failed (.catalog .unauthorized)), s) := by
  unfold Transfer.search
  rw [run_run_bind, Service.get, run_fromCatalog_admitted]
  exact hd

theorem run_handle {route : Route} (hd : Denies d h s r.authorization) (hm : route.isManaged = false)
    (fresh : Fresh) : (Http.handle d fresh r route).run.run h s = (denial r route, s) := by
  cases route with
  | health => rfl
  | search oid => exact run_search hd oid
  | objects space repo => exact run_announce hd space repo
  | batch space repo => exact run_batch hd space repo
  | object space repo oid =>
    unfold Http.handle denial
    dsimp only
    by_cases hput : r.method = "PUT"
    · rw [if_pos hput, if_pos hput]
      exact run_upload hd space repo oid
    · rw [if_neg hput, if_neg hput]
      exact run_fetch hd space repo oid
  | _ => cases hm

/-! ## Responses -/

theorem refusal_of_rejected {route : Route} (hm : route.isManaged = true) (hr : Rejected d h s r route) :
    ∃ response, Management.refusal? d.config r = some response := by
  unfold Rejected at hr
  rw [if_pos hm] at hr
  unfold Management.refusal?
  rcases hr with hr | hr
  · rw [hr]
    exact ⟨_, rfl⟩
  · rw [hr]
    split
    · exact ⟨_, rfl⟩
    · exact ⟨_, rfl⟩

theorem run_handleRoute {route : Route} (hf : Faulty h) (hr : Rejected d h s r route) (fresh : Fresh) :
    (handleRoute d fresh r route).run h s = (verdict d.config r route, s) := by
  unfold handleRoute verdict refusal?
  cases hm : route.isManaged with
  | true =>
    obtain ⟨response, hrefusal⟩ := refusal_of_rejected hm hr
    rw [if_pos rfl, hrefusal]
    rfl
  | false =>
    unfold Rejected at hr
    rw [hm, if_neg (by simp)] at hr
    have hd : Denies d h s r.authorization := Prod.ext hr (hf.run_authenticate _ _ s)
    rw [if_neg (by simp)]
    dsimp only
    split
    · rfl
    · cases hroute : route.decoded? with
      | none => rfl
      | some route' =>
        dsimp only
        have answer := run_handle hd ((Route.isManaged_decoded? hroute).trans hm) fresh
        exact (run_settle _ s).trans (congrArg (fun x : Except Failure Response × Stores =>
          (match x.1 with | .ok response => response | .error failure => failure.response, x.2)) answer)

theorem run_respond {route : Route} (hf : Faulty h) (hp : Route.ofPath? r.path = some route)
    (hr : Rejected d h s r route) (fresh : Fresh) : (respond d fresh r).run h s =
      (complete fresh r (withAllowed r route (verdict d.config r route)), s) := by
  unfold respond
  rw [hp]
  show ((handleRoute d fresh r route).bind _).run h s = _
  rw [run_bind, run_handleRoute hf hr]
  rfl

/-! ## Two depots -/

def unidentified (l : Headers) : Headers :=
  l.filter fun e => !Text.sameLetters e.1 "x-request-id"

theorem unidentified_set (l : Headers) (id : ByteArray) :
    unidentified (l.set "x-request-id" id) = unidentified l := by
  have hlast : unidentified [("x-request-id", id)] = [] := by
    simp [unidentified, Text.sameLetters]
  unfold Headers.set
  unfold unidentified at hlast ⊢
  rw [List.filter_append, hlast, List.append_nil, List.filter_filter]
  simp

/-- Responses are the same but for the identifiers of their requests. -/
structure Alike (a a' : Response) : Prop where
  status : a.status = a'.status
  headers : unidentified a.headers = unidentified a'.headers
  body : a.body = a'.body

theorem alike_complete (fresh fresh' : Fresh) (r : Request) (a : Response) :
    Alike (complete fresh r a) (complete fresh' r a) where
  status := rfl
  headers := by
    unfold complete
    rw [unidentified_set, unidentified_set]
  body := rfl

/-- A caller who is rejected by two depots of one configuration gets the same answer from both, and changes
nothing in either of them, whatever they hold and whichever of their calls fail. -/
theorem rejected_alike {d d' : Depot} {h h' : Handler interface Stores} {s s' : Stores} {r : Request}
    {route : Route} (hc : d.config = d'.config) (hf : Faulty h) (hf' : Faulty h')
    (hp : Route.ofPath? r.path = some route) (hr : Rejected d h s r route) (hr' : Rejected d' h' s' r route)
    (fresh fresh' : Fresh) :
    Alike ((respond d fresh r).run h s).1 ((respond d' fresh' r).run h' s').1 ∧
      ((respond d fresh r).run h s).2 = s ∧ ((respond d' fresh' r).run h' s').2 = s' := by
  rw [run_respond hf hp hr, run_respond hf' hp hr', hc]
  exact ⟨alike_complete _ _ _ _, rfl, rfl⟩

namespace Sample

def guarded : Depot :=
  .ofConfig .standard ⟨fun _ password => password, fun password kept => password = kept⟩ "memory" "memory"

def vacant : Stores :=
  (.memory .empty, .memory .empty)

def stocked : Stores :=
  (.memory ⟨SortedMap.empty.insert default ⟨default, 0, .committed, SortedSet.ofList ["p"], false⟩,
    SortedMap.empty.insert "p" (SortedSet.ofList [default]), SortedMap.empty.insert "ada" "pw"⟩,
    .memory ⟨SortedMap.empty.insert default .empty⟩)

def blind : Handler interface Stores
  | .inl (.readUser _), s => (.error (.backend "no users"), s)
  | op, s => stores op s

theorem faulty_blind : Faulty blind := by
  intro op s
  unfold blind
  split
  · exact .inr ⟨⟨_, rfl⟩, rfl⟩
  · exact .inl rfl

def request : Request :=
  ⟨"GET", "/space/repo/objects/" ++ (default : Oid).hex,
    [("authorization", "Basic YWRhOnB3".toUTF8), ("accept", contentType.toUTF8)], []⟩

def route : Route :=
  .object "space" "repo" (default : Oid).hex

def drawn : Fresh :=
  ⟨"1", []⟩

end Sample

open Sample in
theorem rejected_alike_without_users : Faulty stores ∧ Faulty blind ∧ Route.ofPath? request.path = some route ∧
    Rejected guarded stores vacant request route ∧ Rejected guarded blind stocked request route ∧
    ((respond guarded drawn request).run stores vacant).1.status = 401 ∧
    Alike ((respond guarded drawn request).run stores vacant).1 ((respond guarded drawn request).run blind stocked).1 ∧
    ((respond guarded drawn request).run stores vacant).2 = vacant ∧
    ((respond guarded drawn request).run blind stocked).2 = stocked := by
  have hf : Faulty stores := fun op s => .inl rfl
  have hp : Route.ofPath? request.path = some route := by decide +kernel
  have hr : Rejected guarded stores vacant request route := by
    have hauth : ((guarded.service.credentials.authenticate request.authorization).run stores.left vacant).1 =
      false := by decide +kernel
    exact hauth
  have hr' : Rejected guarded blind stocked request route := by
    have hauth : ((guarded.service.credentials.authenticate request.authorization).run blind.left stocked).1 =
      false := by decide +kernel
    exact hauth
  have hstatus : ((respond guarded drawn request).run stores vacant).1.status = 401 := by decide +kernel
  exact ⟨hf, faulty_blind, hp, hr, hr', hstatus, rejected_alike rfl hf faulty_blind hp hr hr' drawn drawn⟩

/-! ## Batches -/

def Challenges (a : Response) : Prop :=
  a.status = 401 ∧ a.headers.get? "lfs-authenticate" = some challenge.toUTF8

theorem challenges_unauthorized : Challenges (errorResponse (.catalog .unauthorized)) :=
  ⟨rfl, Headers.get?_set_self _ _ _⟩

theorem Challenges.complete {a : Response} (h : Challenges a) (fresh : Fresh) (r : Request) :
    Challenges (complete fresh r a) := by
  refine ⟨(status_complete fresh r a).trans h.1, ?_⟩
  rw [get?_complete fresh r a (by decide +kernel) (by decide +kernel)]
  exact h.2

/-- A batch from a caller who is rejected is answered with a challenge, unless it is a batch of no objects: then
nobody asks for the credentials, and it succeeds. -/
theorem challenges_batch_iff {route : Route} {space repo : String} {body : ByteArray} (hf : Faulty h)
    (hm : r.method = "POST") (hp : Route.ofPath? r.path = some route)
    (hroute : route.decoded? = some (.batch space repo)) (hb : collectBody .empty r.body = .ok body)
    (hr : ((d.service.credentials.authenticate r.authorization).run h.left s).1 = false) (fresh : Fresh) :
    (Challenges ((respond d fresh r).run h s).1 ↔ Json.decode Batch.decode body.data.toList ≠ .ok ⟨[]⟩) ∧
      (Json.decode Batch.decode body.data.toList = .ok ⟨[]⟩ → ((respond d fresh r).run h s).1.status = 200) ∧
      ((respond d fresh r).run h s).2 = s := by
  have hopen : route.isManaged = false := (Route.isManaged_decoded? hroute).symm
  have hallowed : route.methods.contains r.method = true := by
    rw [← Route.methods_decoded? hroute, hm]
    rfl
  have hrejected : Rejected d h s r route := by
    unfold Rejected
    rw [hopen, if_neg (by simp)]
    exact hr
  have answer : ((respond d fresh r).run h s) = (complete fresh r (match denial r (.batch space repo) with
      | .ok response => response
      | .error failure => failure.response), s) := by
    rw [run_respond hf hp hrejected]
    unfold withAllowed verdict
    rw [if_pos hallowed]
    simp only [hopen, hallowed, hroute, Bool.not_true, Bool.false_eq_true, if_false]
  -- With no objects there is no admission that could refuse.
  have empty : Json.decode Batch.decode body.data.toList = .ok ⟨[]⟩ →
      ((respond d fresh r).run h s).1.status = 200 := by
    intro he
    rw [answer, status_complete]
    unfold denial
    rw [hb]
    dsimp only
    rw [he]
    rfl
  refine ⟨⟨fun hc he => ?_, fun he => ?_⟩, empty, by rw [answer]⟩
  · have hstatus := empty he
    rw [hc.1] at hstatus
    cases hstatus
  · have refused : denial r (.batch space repo) = .error (.failed (.catalog .unauthorized)) := by
      unfold denial
      rw [hb]
      dsimp only
      split
      · next hd => exact absurd hd he
      · rfl
    rw [answer, refused]
    exact challenges_unauthorized.complete fresh r

namespace Sample

def batch (objects : String) : Request :=
  ⟨"POST", "/space/repo/objects/batch", [], Stream.ofBytes ("\x7b\"objects\":[" ++ objects ++ "]\x7d").toUTF8⟩

def oneObject : Request :=
  batch "\x7b\"oid\":\"0\",\"size\":1\x7d"

def noObjects : Request :=
  batch ""

end Sample

open Sample in
theorem challenges_batch_of_one : ∃ body, Faulty blind ∧ oneObject.method = "POST" ∧
    Route.ofPath? oneObject.path = some (.batch "space" "repo") ∧
    (Route.batch "space" "repo").decoded? = some (.batch "space" "repo") ∧ collectBody .empty oneObject.body = .ok body ∧
    ((guarded.service.credentials.authenticate oneObject.authorization).run blind.left stocked).1 = false ∧
    Challenges ((respond guarded drawn oneObject).run blind stocked).1 ∧
    ((respond guarded drawn oneObject).run blind stocked).2 = stocked := by
  have hp : Route.ofPath? oneObject.path = some (.batch "space" "repo") := by decide +kernel
  have hroute : (Route.batch "space" "repo").decoded? = some (.batch "space" "repo") := by decide +kernel
  have hauth : ((guarded.service.credentials.authenticate oneObject.authorization).run blind.left stocked).1 =
      false := by decide +kernel
  have hb : collectBody .empty oneObject.body =
      .ok "\x7b\"objects\":[\x7b\"oid\":\"0\",\"size\":1\x7d]\x7d".toUTF8 := by decide +kernel
  have hstatus : ((respond guarded drawn oneObject).run blind stocked).1.status = 401 := by decide +kernel
  obtain ⟨challenged, empty, unchanged⟩ :=
    challenges_batch_iff faulty_blind rfl hp hroute hb hauth drawn
  refine ⟨_, faulty_blind, rfl, hp, hroute, hb, hauth, challenged.mpr fun he => ?_, unchanged⟩
  rw [empty he] at hstatus
  cases hstatus

open Sample in
/-- A batch of no objects is not challenged, although nobody is there to be admitted. -/
theorem unchallenged_batch_of_none : ¬ ∀ {d : Depot} {s : Stores} {r : Request} {route : Route} {space repo : String}
    {body : ByteArray}, d.service.credentials.isPublic = false → r.method = "POST" →
    Route.ofPath? r.path = some route → route.decoded? = some (.batch space repo) →
    collectBody .empty r.body = .ok body →
    ((d.service.credentials.authenticate r.authorization).run stores.left s).1 = false →
    ∀ fresh, Challenges ((respond d fresh r).run stores s).1 := by
  intro h
  have hp : Route.ofPath? noObjects.path = some (.batch "space" "repo") := by decide +kernel
  have hroute : (Route.batch "space" "repo").decoded? = some (.batch "space" "repo") := by decide +kernel
  have hauth : ((guarded.service.credentials.authenticate noObjects.authorization).run stores.left vacant).1 =
      false := by decide +kernel
  have hb : collectBody .empty noObjects.body = .ok "\x7b\"objects\":[]\x7d".toUTF8 := by decide +kernel
  have hstatus : ((respond guarded drawn noObjects).run stores vacant).1.status = 200 := by decide +kernel
  have challenged := h rfl rfl hp hroute hb hauth drawn
  rw [challenged.1] at hstatus
  cases hstatus

end BlobDepot.Depot
