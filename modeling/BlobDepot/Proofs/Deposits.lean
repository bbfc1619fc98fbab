import BlobDepot.Proofs.Sessions

/-!
# Uploads that succeed or do nothing

An upload is answered with success if and only if its caller is admitted and its body is what the record of the object
says. Then the bytes are stored and the record is committed, and nothing else changes. In all other cases the stores
are what they were before: `deposited_or_unchanged`.
-/

namespace BlobDepot

open Catalog (Backing Memory Op)
open Prog

/-! ## Commits -/

namespace Ledger

variable {m m' : Memory} {oid : Oid} {record : ObjectRecord}

structure Joined (oid : Oid) (projects : List String) (m m' : Memory) : Prop where
  objects : m'.objects = m.objects
  users : m'.users = m.users
  member : ∀ project o, m'.Member project o ↔
    m.Member project o ∨ (project ∈ projects ∧ project ≠ "") ∧ o = oid
  named : ∀ project, m'.projects.contains project = true ↔
    m.projects.contains project = true ∨ project ∈ projects ∧ project ≠ ""

theorem run_addObjects_joined (oid : Oid) (projects : List String) (m : Memory) :
    ∃ m', (projects.forM (Projects.addObject oid)).run.run Memory.handle m = (.ok (), m') ∧
      Joined oid projects m m' := by
  induction projects generalizing m with
  | nil => exact ⟨m, rfl, rfl, rfl, by simp, by simp⟩
  | cons p l ih =>
    show ∃ m', (Projects.addObject oid p >>= fun _ => l.forM (Projects.addObject oid)).run.run Memory.handle m = _ ∧ _
    rw [run_run_bind]
    by_cases hp : p = ""
    · subst hp
      obtain ⟨m', hrun, h⟩ := ih m
      refine ⟨m', hrun, h.objects, h.users, fun project o => ?_, fun project => ?_⟩
      · rw [h.member]
        grind
      · rw [h.named]
        grind
    · rw [run_addObject hp]
      obtain ⟨m', hrun, h⟩ := ih (m.respond (.addProjectMember p oid)).2
      refine ⟨m', hrun, h.objects, h.users, fun project o => ?_, fun project => ?_⟩
      · rw [h.member, Memory.member_respond]
        grind
      · rw [h.named]
        simp only [Memory.respond, SortedMap.contains_insert]
        grind

/-- The record of an object is committed, the projects to which it refers list the object if it was not committed
before, and nothing else has changed. -/
structure Commits (oid : Oid) (record : ObjectRecord) (m m' : Memory) : Prop where
  objects : ∀ o, m'.objects.get? o = if o = oid then some { record with state := .committed } else m.objects.get? o
  users : m'.users = m.users
  member : ∀ project o, m'.Member project o ↔ m.Member project o ∨
    record.isCommitted = false ∧ (record.projects.contains project = true ∧ project ≠ "") ∧ o = oid
  named : ∀ project, m'.projects.contains project = true ↔ m.projects.contains project = true ∨
    record.isCommitted = false ∧ record.projects.contains project = true ∧ project ≠ ""

theorem commits_of_committed (hr : m.objects.get? oid = some record) (hc : record.isCommitted = true) :
    Commits oid record m m := by
  have hrecord : { record with state := .committed } = record := by
    obtain ⟨o, size, state, projects, existing⟩ := record
    cases state with
    | committed => rfl
    | pending => cases hc
  refine ⟨fun o => ?_, rfl, by simp [hc], by simp [hc]⟩
  rw [hrecord]
  split
  · next ho => rw [ho, hr]
  · rfl

theorem run_commit_commits (hr : m.objects.get? oid = some record) :
    ∃ x m', (commit oid).run.run Memory.handle m = (.ok x, m') ∧ Commits oid record m m' := by
  unfold commit
  rw [run_run_bind, run_require, hr]
  dsimp only
  cases hc : record.isCommitted with
  | true => exact ⟨_, m, rfl, commits_of_committed hr hc⟩
  | false =>
    obtain ⟨m₁, hrun, hj⟩ := run_addObjects_joined oid record.projects.keys m
    have hr₁ : m₁.objects.get? oid = some record := by rw [hj.objects, hr]
    rw [if_neg Bool.false_ne_true, run_run_bind, hrun]
    dsimp only
    rw [run_run_bind, run_ask]
    simp only [Memory.respond, Memory.updateObject, hr₁]
    refine ⟨_, _, rfl, fun o => ?_, hj.users, fun project o => ?_, fun project => ?_⟩
    · rw [SortedMap.get?_insert, hj.objects]
    · show m₁.Member project o ↔ _
      rw [hj.member, SortedMap.mem_keys_iff]
      simp [hc]
    · show m₁.projects.contains project = true ↔ _
      rw [hj.named, SortedMap.mem_keys_iff]
      simp [hc]

end Ledger

namespace Depot

open Http

/-! ## Uploads -/

/-- A request sends the bytes of an object of which there is a record, and its caller is admitted. -/
structure Sends (d : Depot) (m : Memory) (r : Request) (oid : Oid) (record : ObjectRecord) (b : ByteArray) :
    Prop where
  addressed : ∃ route space repo text, Route.ofPath? r.path = some route ∧
    route.decoded? = some (.object space repo text) ∧ Oid.parse text = .ok oid
  admitted : d.service.Admits m r.authorization
  recorded : m.objects.get? oid = some record
  received : r.body.readAll = .ok b
  size : (b.size : Int) = record.size
  content : Oid.ofContent b = oid

section
variable {d : Depot} {s : Stores} {m : Memory} {v : Vault.Memory} {r : Request} {text : String} {oid : Oid}
  {record : ObjectRecord} {b : ByteArray}

theorem run_upload_unverified (h : Holds s m v) (d : Depot) (r : Request) (space repo text : String) :
    (∃ f, (Transfer.upload d r space repo text).run.run stores s = (.error f, s)) ∨
      ∃ oid record b, d.service.Admits m r.authorization ∧ Oid.parse text = .ok oid ∧ m.objects.get? oid = some record ∧
        Vault.verify record.asExisting r.body = .ok b := by
  have hread : (d.service.getPending (objectRequest r space repo text)).run.Calls
      fun op : Op => (∃ oid, op = .readObject oid) ∨ ∃ user, op = .readUser user :=
    calls_serviceGetPending (fun user => .inr ⟨user, rfl⟩) (fun oid => .inl ⟨oid, rfl⟩) _
  have hopen : (d.service.getPending (objectRequest r space repo text)).run.Calls fun op : Op => op ≠ .close :=
    calls_serviceGetPending (by simp) (by simp) _
  have hsame := Catalog.Backing.run_of_calls_read hread s.1
  obtain ⟨-, hanswer, -⟩ := Catalog.Backing.run_holds hopen h.1
  unfold Transfer.upload
  dsimp only
  rw [run_run_bind, run_fromCatalog, stores, run_sum_left, hsame, hanswer]
  rcases hget : (d.service.getPending (objectRequest r space repo text)).run.run Memory.handle m with ⟨e | found, m'⟩
  · exact .inl ⟨_, rfl⟩
  · obtain ⟨oid, hadmits, hp, hpending⟩ := Service.admitted_ok.mp hget
    obtain ⟨record, hr, rfl, -⟩ := Ledger.getPending_ok.mp hpending
    dsimp only [Except.mapError]
    rw [run_run_bind, run_fromVault, run_sum_right, Vault.put_eq]
    cases hv : Vault.verify record.asExisting r.body with
    | error e => exact .inl ⟨_, rfl⟩
    | ok b => exact .inr ⟨oid, record, b, hadmits, hp, hr, hv⟩

theorem run_upload_verified (hadmits : d.service.Admits m r.authorization) (hp : Oid.parse text = .ok oid)
    (hr : m.objects.get? oid = some record) (hoid : record.oid = oid)
    (hv : Vault.verify record.asExisting r.body = .ok b) (space repo : String) (v : Vault.Memory) :
    ∃ m', (Transfer.upload d r space repo text).run.run memories (m, v) =
      (.ok (.ofStatus 200), m', ⟨v.blobs.insert oid b⟩) ∧ Ledger.Commits oid record m m' := by
  have hget : (d.service.getPending (objectRequest r space repo text)).run.run Memory.handle m =
      (.ok record.asExisting, m) :=
    Service.admitted_ok.mpr ⟨oid, hadmits, hp, Ledger.getPending_ok.mpr ⟨record, hr, rfl, rfl⟩⟩
  obtain ⟨x, m', hcommit, hm'⟩ := Ledger.run_commit_commits hr
  have hservice : (d.service.commit (objectRequest r space repo text)).run.run Memory.handle m = (.ok x, m') := by
    unfold Service.commit
    rw [Service.run_admitted (q := objectRequest r space repo text) hadmits hp]
    exact hcommit
  refine ⟨m', ?_, hm'⟩
  unfold Transfer.upload
  dsimp only
  rw [run_run_bind, run_fromCatalog, memories, run_sum_left, hget]
  dsimp only [Except.mapError]
  rw [run_run_bind, run_fromVault, run_sum_right, run_vaultPut, hv]
  dsimp only [Except.mapError]
  rw [run_run_bind, run_fromCatalog, run_sum_left, hservice, show record.asExisting.oid = oid from hoid]
  rfl

/-! ## Requests -/

theorem Sends.verified (hs : Sends d m r oid record b) (hk : m.Keyed) :
    record.oid = oid ∧ Vault.verify record.asExisting r.body = .ok b := by
  have hoid := (hk oid record hs.recorded).1
  exact ⟨hoid, Vault.verify_ok.mpr ⟨hs.received, hs.size, hs.content.trans hoid.symm⟩⟩

theorem Sends.run_respond (hs : Sends d m r oid record b) (hk : m.Keyed) (hm : r.method = "PUT") (fresh : Fresh)
    (v : Vault.Memory) : ∃ a m', (respond d fresh r).run memories (m, v) = (a, m', ⟨v.blobs.insert oid b⟩) ∧
      a.status = 200 ∧ Ledger.Commits oid record m m' := by
  obtain ⟨hoid, hv⟩ := hs.verified hk
  obtain ⟨route, space, repo, text, hpath, hroute, hp⟩ := hs.addressed
  obtain ⟨m', hrun, hm'⟩ := run_upload_verified hs.admitted hp hs.recorded hoid hv space repo v
  have hmethods : (Route.object space repo text).methods.contains r.method = true := by
    rw [hm]
    rfl
  refine ⟨complete fresh r (.ofStatus 200), m', ?_, status_complete fresh r _, hm'⟩
  rw [run_respond_open hpath hroute rfl hmethods]
  simp only [handle, if_pos hm, hrun]

/-- A request that does not send what is on record fails, and leaves the stores as they are. -/
theorem sends_or_unchanged (h : Holds s m v) (hm : r.method = "PUT") {x y z : String}
    (hpath : Route.ofPath? r.path = some (.object x y z)) (fresh : Fresh) :
    (∃ oid record b, Sends d m r oid record b) ∨
      ((respond d fresh r).run stores s).1.status ≠ 200 ∧ ((respond d fresh r).run stores s).2 = s := by
  have hmethods : (Route.object x y z).methods.contains r.method = true := by
    rw [hm]
    rfl
  cases hroute : (Route.object x y z).decoded? with
  | none =>
    right
    have hrun : (respond d fresh r).run stores s =
        (complete fresh r (withAllowed r (.object x y z) Rejection.badSegment.response), s) := by
      unfold respond handleRoute refusal?
      simp only [hpath, hroute, hmethods, Route.isManaged, Bool.not_true, Bool.false_eq_true, if_false]
      rfl
    rw [hrun, withAllowed, if_pos hmethods]
    exact ⟨by rw [status_complete]; decide, rfl⟩
  | some route' =>
    obtain ⟨space, repo, text, rfl⟩ := Route.object_of_decoded? hroute
    rw [run_respond_open hpath hroute rfl hmethods, handle, if_pos hm]
    rcases run_upload_unverified h d r space repo text with ⟨f, hrun⟩ | ⟨oid, record, b, hadmits, hp, hr, hv⟩
    · right
      rw [hrun]
      exact ⟨by rw [status_complete]; exact f.status_ne, rfl⟩
    · left
      obtain ⟨hreceived, hsize, hcontent⟩ := Vault.verify_ok.mp hv
      exact ⟨oid, record, b, ⟨_, space, repo, text, hpath, hroute, hp⟩, hadmits, hr, hreceived, hsize,
        hcontent.trans (h.1.keyed oid record hr).1⟩

/-- An upload is answered with success if and only if it sends what is on record. Then its bytes are stored and its
record is committed, and otherwise the stores are what they were. -/
theorem deposited_or_unchanged (h : Holds s m v) (hm : r.method = "PUT") {x y z : String}
    (hpath : Route.ofPath? r.path = some (.object x y z)) (fresh : Fresh) :
    (((respond d fresh r).run stores s).1.status = 200 ↔ ∃ oid record b, Sends d m r oid record b) ∧
    (∀ oid record b, Sends d m r oid record b → ∃ m',
      Holds ((respond d fresh r).run stores s).2 m' ⟨v.blobs.insert oid b⟩ ∧ Ledger.Commits oid record m m') ∧
    (((respond d fresh r).run stores s).1.status ≠ 200 → ((respond d fresh r).run stores s).2 = s) := by
  obtain ⟨hanswer, hholds⟩ := h.respond d fresh r
  have success : ∀ oid record b, Sends d m r oid record b →
      ((respond d fresh r).run stores s).1.status = 200 ∧ ∃ m',
        Holds ((respond d fresh r).run stores s).2 m' ⟨v.blobs.insert oid b⟩ ∧ Ledger.Commits oid record m m' := by
    intro oid record b hs
    obtain ⟨a, m', hrun, hstatus, hm'⟩ := hs.run_respond h.1.keyed hm fresh v
    rw [hrun] at hanswer hholds
    exact ⟨by rw [hanswer, hstatus], m', hholds, hm'⟩
  have otherwise := sends_or_unchanged (d := d) h hm hpath fresh
  refine ⟨⟨fun hstatus => ?_, fun hs => ?_⟩, fun oid record b hs => (success oid record b hs).2, fun hstatus => ?_⟩
  · exact otherwise.resolve_right fun hfailed => hfailed.1 hstatus
  · obtain ⟨oid, record, b, hs⟩ := hs
    exact (success oid record b hs).1
  · rcases otherwise with ⟨oid, record, b, hs⟩ | ⟨-, hsame⟩
    · exact absurd (success oid record b hs).1 hstatus
    · exact hsame

end

namespace Sample

/-- There are as many bytes as announced, but the last one is another. -/
def corrupted : Request :=
  { upload with body := [.bytes "a".toUTF8, .bytes "bd".toUTF8] }

theorem holds_announced : ∃ m v, Holds announced m v :=
  ⟨_, _, ((⟨.inl rfl, .inl rfl⟩ : Empty unused).holds.respond depot fresh (announcement "3")).2⟩

end Sample

open Sample in
theorem deposited_after_corrupted_upload : ∃ m v, Holds announced m v ∧ upload.method = "PUT" ∧
    Route.ofPath? upload.path = some (.object "a" "b" digits) ∧
    ((respond depot fresh corrupted).run stores announced).2 = announced ∧
    ∃ oid record b, Sends depot m upload oid record b := by
  obtain ⟨m, v, h⟩ := holds_announced
  have hpath : Route.ofPath? upload.path = some (.object "a" "b" digits) := by decide +kernel
  have hfailed : ((respond depot fresh corrupted).run stores announced).1.status ≠ 200 := by decide +kernel
  have hdone : ((respond depot fresh upload).run stores announced).1.status = 200 := by decide +kernel
  exact ⟨m, v, h, rfl, hpath, (deposited_or_unchanged (r := corrupted) h rfl hpath fresh).2.2 hfailed,
    (deposited_or_unchanged (r := upload) h rfl hpath fresh).1.mp hdone⟩

end Depot

end BlobDepot
