import BlobDepot.Proofs.Agreement
import BlobDepot.Proofs.Requests

/-!
# Requests without faults

When requests are answered one after another and no call fails, the records and the projects agree, and the vault
has the bytes of the committed objects and of no others: `settled_of_served`.
-/

namespace BlobDepot

open Catalog (Memory Op)
open Http (Adds Quiet)
open Prog

/-! ## Programs of the catalog -/

namespace Catalog.Memory

variable {m m' m'' : Memory} {oid : Oid} {op : Op} {α : Type}

/-- Objects have been claimed, and they or others have been added to projects. -/
structure Spreads (m m' : Memory) : Prop extends Ledger.Grows m m' where
  keyed : m.Keyed → m'.Keyed
  users : m'.users = m.users
  committed : ∀ oid, m'.Committed oid ↔ m.Committed oid

theorem Spreads.refl (m : Memory) : Spreads m m :=
  ⟨.refl m, id, rfl, fun _ => .rfl⟩

theorem Spreads.trans (h : Spreads m m') (h' : Spreads m' m'') : Spreads m m'' where
  toGrows := h.toGrows.trans h'.toGrows
  keyed hk := h'.keyed (h.keyed hk)
  users := h'.users.trans h.users
  committed oid := (h'.committed oid).trans (h.committed oid)

theorem spreads_respond (h : Adds (.inl op)) (m : Memory) : Spreads m (m.respond op).2 where
  toGrows := by
    have keeping : Ledger.Keeping op := by cases op <;> trivial
    exact Ledger.grows_respond op keeping m
  keyed hk := keyed_respond hk op
  users := by
    cases op with
    | insertObject r => simp only [respond]; split <;> rfl
    | addObjectProject o p => exact users_updateObject _ _ _
    | _ => first | rfl | cases h
  committed oid := by
    rw [committed_respond]
    cases op with
    | insertObject r => simp [ObjectRecord.isCommitted, show r.state = .pending from h, ObjectState.isCommitted]
    | _ => first | exact .rfl | cases h

theorem spreads_of_adds {p : Prog Catalog.interface α} (hp : p.Calls fun op => Adds (.inl op)) (m : Memory) :
    Spreads m (p.run Memory.handle m).2 :=
  hp.run_keeps (Spreads m) (fun _ m' hop h => h.trans (spreads_respond hop m')) (.refl m)

end Catalog.Memory

namespace Service

variable {s : Service} {q : ObjectRequest} {m m' : Memory} {α : Type}

def Admits (s : Service) (m : Memory) (authorization : String) : Prop :=
  ((s.credentials.authenticate authorization).run Memory.handle m).1 = true

theorem run_admission (s : Service) (q : ObjectRequest) (m : Memory) : (s.admission q).run.run Memory.handle m =
    (if ((s.credentials.authenticate q.authorization).run Memory.handle m).1 then
      (Oid.parse q.oid).mapError fun e => .invalidRequest e.message
    else .error .unauthorized, m) := by
  have hcalls : (s.credentials.authenticate q.authorization).Calls
      fun op : Op => (∃ oid, op = .readObject oid) ∨ ∃ user, op = .readUser user :=
    calls_authenticate (fun user => .inr ⟨user, rfl⟩) _
  unfold admission
  rw [run_run_bind, run_run_lift, run_of_calls_read hcalls]
  dsimp only
  split
  · cases Oid.parse q.oid <;> rfl
  · rfl

/-- What succeeds is done for a caller who is admitted, and to an object that is named as it should be. -/
theorem admitted_ok {k : Oid → CatalogM α} {x : α} : (s.admission q >>= k).run.run Memory.handle m = (.ok x, m') ↔
    ∃ oid, s.Admits m q.authorization ∧ Oid.parse q.oid = .ok oid ∧
      (k oid).run.run Memory.handle m = (.ok x, m') := by
  unfold Admits
  rw [run_bind_ok, run_admission]
  cases hb : ((s.credentials.authenticate q.authorization).run Memory.handle m).1 with
  | false => simp
  | true => cases hp : Oid.parse q.oid <;> simp [Except.mapError]

theorem run_admitted {oid : Oid} (ha : s.Admits m q.authorization) (hp : Oid.parse q.oid = .ok oid)
    (k : Oid → CatalogM α) :
    (s.admission q >>= k).run.run Memory.handle m = (k oid).run.run Memory.handle m := by
  unfold Admits at ha
  rw [run_run_bind, run_admission, if_pos ha, hp]
  rfl

theorem admits_congr (h : m.users = m'.users) (authorization : String) :
    s.Admits m authorization ↔ s.Admits m' authorization := by
  have hcalls : (s.credentials.authenticate authorization).Calls fun op : Op => ∃ user, op = .readUser user :=
    calls_authenticate (fun user => ⟨user, rfl⟩) _
  have step : ∀ (op : Op) (m m' : Memory), (∃ user, op = .readUser user) → m.users = m'.users →
      (Memory.handle op m).1 = (Memory.handle op m').1 ∧
        (Memory.handle op m).2.users = (Memory.handle op m').2.users := by
    intro op m m' hop h
    obtain ⟨user, rfl⟩ := hop
    refine ⟨?_, h⟩
    show Except.ok ((m.users.get? user).map _) = Except.ok ((m'.users.get? user).map _)
    rw [h]
  have hauth : ((s.credentials.authenticate authorization).run Memory.handle m).1 =
      ((s.credentials.authenticate authorization).run Memory.handle m').1 :=
    (hcalls.run_related (s := m) (u := m') step h).2.1
  unfold Admits
  rw [hauth]

theorem unchanged_get (s : Service) (q : ObjectRequest) (m : Memory) : ((s.get q).run.run Memory.handle m).2 = m :=
  run_of_calls_read (calls_serviceGet (fun user => .inr ⟨user, rfl⟩) (fun oid => .inl ⟨oid, rfl⟩) q) m

theorem unchanged_getPending (s : Service) (q : ObjectRequest) (m : Memory) :
    ((s.getPending q).run.run Memory.handle m).2 = m :=
  run_of_calls_read (calls_serviceGetPending (fun user => .inr ⟨user, rfl⟩) (fun oid => .inl ⟨oid, rfl⟩) q) m

end Service

namespace Ledger

variable {m m' : Memory} {oid : Oid} {project : String} {r x : ObjectRecord}

theorem get_ok : (get oid).run.run Memory.handle m = (.ok x, m') ↔
    ∃ r, m.objects.get? oid = some r ∧ r.isCommitted = true ∧ x = r.asExisting ∧ m' = m := by
  have hrun : ∀ r, m.objects.get? oid = some r → (get oid).run.run Memory.handle m =
      (if r.isCommitted then .ok r.asExisting else .error (.objectNotFound oid.hex), m) := by
    intro r hr
    unfold get
    rw [run_run_bind, run_require, hr]
    dsimp only
    split <;> rfl
  constructor
  · intro h
    cases hr : m.objects.get? oid with
    | none =>
      unfold get at h
      rw [run_run_bind, run_require, hr] at h
      cases h
    | some r =>
      rw [hrun r hr] at h
      split at h
      · next hc =>
        cases h
        exact ⟨r, rfl, hc, rfl, rfl⟩
      · cases h
  · intro h
    obtain ⟨r, hr, hc, rfl, rfl⟩ := h
    rw [hrun r hr, if_pos hc]

theorem getPending_ok : (getPending oid).run.run Memory.handle m = (.ok x, m') ↔
    ∃ r, m.objects.get? oid = some r ∧ x = r.asExisting ∧ m' = m := by
  unfold getPending
  rw [run_run_bind, run_require]
  cases m.objects.get? oid with
  | none => simp
  | some r =>
    show ((.ok r.asExisting, m) : Except CatalogError ObjectRecord × Memory) = (.ok x, m') ↔ _
    grind

theorem join_ok (hr : m.objects.get? r.oid = some r)
    (h : (join r project).run.run Memory.handle m = (.ok x, m')) :
    x.oid = r.oid ∧ x.existing = true ∧ (project ≠ "" → m'.Refers r.oid project) := by
  unfold join at h
  split at h
  · next hp =>
    rw [run_run_bind, run_addObject hp.1] at h
    dsimp only at h
    rw [run_run_bind, run_ask] at h
    cases h
    exact ⟨rfl, rfl, fun _ =>
      Memory.refers_addObjectProject (m := (m.respond (.addProjectMember project r.oid)).2) hr project⟩
  · next hp =>
    cases h
    refine ⟨rfl, rfl, fun hne => ⟨r, hr, ?_⟩⟩
    cases hc : r.projects.contains project with
    | true => rfl
    | false => exact absurd ⟨hne, by rw [hc]; rfl⟩ hp

/-- A claim says whether the object was there before, and the record refers to the project afterwards. -/
theorem put_ok (hk : m.Keyed) {size : Int} (h : (put oid size project).run.run Memory.handle m = (.ok x, m')) :
    x.oid = oid ∧ x.existing = m.objects.contains oid ∧ (project ≠ "" → m'.Refers oid project) := by
  by_cases hs : size < 0
  · unfold put at h
    rw [if_pos hs] at h
    cases h
  · cases hr : m.objects.get? oid with
    | some r =>
      obtain rfl : r.oid = oid := (hk oid r hr).1
      unfold put at h
      rw [if_neg hs, run_run_bind, run_ask] at h
      simp only [Memory.respond, hr] at h
      rw [SortedMap.contains_iff.mpr ⟨r, hr⟩]
      exact join_ok hr h
    | none =>
      have hnone := SortedMap.contains_eq_false_iff.mpr hr
      rw [run_put_new hr (Int.not_lt.mp hs)] at h
      cases h
      refine ⟨rfl, hnone.symm, fun hp => ?_⟩
      rw [run_addObject hp, Memory.refers_respond]
      exact .inr ⟨hnone, rfl, Memory.contains_pending.mpr ⟨hp, rfl⟩⟩

end Ledger

namespace Depot

open Catalog.Memory (Balanced Proper)
open Http

variable {d : Depot} {s s' : Stores} {m : Memory} {v : Vault.Memory} {oid : Oid}

theorem Holds.respond (h : Holds s m v) (d : Depot) (fresh : Fresh) (r : Request) :
    ((Http.respond d fresh r).run stores s).1 = ((Http.respond d fresh r).run memories (m, v)).1 ∧
      Holds ((Http.respond d fresh r).run stores s).2 ((Http.respond d fresh r).run memories (m, v)).2.1
        ((Http.respond d fresh r).run memories (m, v)).2.2 := by
  have step : ∀ (op : interface.Op) (s : Stores) (u : Memory × Vault.Memory) (f : Phase),
      (custody default).allows op f → Holds s u.1 u.2 → (stores op s).1 = (memories op u).1 ∧
        ∃ f', (custody default).leads op f (stores op s).1 f' ∧
          Holds (stores op s).2 (memories op u).2.1 (memories op u).2.2 := by
    intro op s u f ha hs
    obtain ⟨hx, hs'⟩ := hs.handle (ne_close ha)
    rw [hx]
    exact ⟨rfl, _, ⟨plausible_of_handle hs.1.keyed (.inl rfl), rfl⟩, hs'⟩
  obtain ⟨ha, -, hs⟩ := (follows_respond (o := default) d fresh r).run_related (u := (m, v)) step h
  exact ⟨ha, hs⟩

/-! ## What is settled between requests -/

/-- Records and projects agree, and the vault has the bytes of the committed objects and of no others. -/
structure Settled (m : Memory) (v : Vault.Memory) : Prop extends Balanced m where
  kept : ∀ oid, v.blobs.contains oid = true ↔ m.Committed oid

theorem settled_empty : Settled .empty .empty where
  toBalanced := Catalog.Memory.balanced_empty _
  kept oid := by
    constructor
    · intro h
      cases h
    · intro h
      obtain ⟨r, hr, -⟩ := h
      cases hr

theorem Settled.quiet {op : interface.Op} (h : Settled m v) (hop : Quiet op) :
    Settled (memories op (m, v)).2.1 (memories op (m, v)).2.2 := by
  cases op with
  | inl op =>
    have proper : Proper op := by cases op <;> trivial
    refine ⟨⟨h.toTidy.respond proper, fun project oid => ?_⟩, fun oid => ?_⟩
    · show (m.respond op).2.Member project oid ↔ (m.respond op).2.Refers oid project
      rw [Catalog.Memory.member_respond, Catalog.Memory.refers_respond]
      cases op <;> first | exact h.agrees project oid | cases hop
    · show v.blobs.contains oid = true ↔ (m.respond op).2.Committed oid
      rw [Catalog.Memory.committed_respond]
      cases op <;> first | exact h.kept oid | cases hop
  | inr op =>
    cases op with
    | openBlob o => exact h
    | size o => exact h
    | write o source length => cases hop
    | delete o => cases hop

section
variable {α : Type}

theorem keeps_quiet {p : Prog interface α} (hp : p.Calls Quiet) :
    p.Keeps memories fun s => Settled s.1 s.2 :=
  hp.keeps fun _ _ hop h => h.quiet hop

theorem keeps_fromCatalog {p : CatalogM α} {inv : Memory × Vault.Memory → Prop}
    (hp : ∀ v, p.run.Keeps Memory.handle fun m => inv (m, v)) : (fromCatalog p).run.Keeps memories inv := by
  intro s h
  rw [run_fromCatalog, memories, run_sum_left]
  exact hp s.2 s.1 h

end

/-! ## Announcements -/

theorem keeps_servicePut (d : Depot) (q : ObjectRequest) (v : Vault.Memory) :
    (d.service.put q).run.Keeps Memory.handle fun m => Settled m v := by
  intro m h
  refine ⟨Service.balanced_admitted h.toBalanced q fun oid => Ledger.balanced_put h.toBalanced oid _ _, fun oid => ?_⟩
  rw [(Catalog.Memory.spreads_of_adds (adds_servicePut q) m).committed]
  exact h.kept oid

theorem keeps_resolve (d : Depot) (q : ObjectRequest) (v : Vault.Memory) :
    (Transfer.resolve d q).run.Keeps Memory.handle fun m => Settled m v := by
  have hget : (d.service.get q).run.Keeps Memory.handle fun m => Settled m v := by
    intro m h
    rw [Service.unchanged_get]
    exact h
  unfold Transfer.resolve
  refine keeps_run_bind (keeps_run_lift hget) fun x => ?_
  split
  · exact keeps_done _
  · exact keeps_done _
  · refine keeps_run_bind (keeps_run_lift (keeps_servicePut d q v)) fun y => ?_
    split <;> exact keeps_done _

theorem keeps_announce (d : Depot) (r : Request) (space repo : String) :
    (Transfer.announce d r space repo).run.Keeps memories fun s => Settled s.1 s.2 := by
  unfold Transfer.announce
  refine keeps_run_bind (keeps_quiet (calls_wholeBody r)) fun _ => ?_
  refine keeps_run_bind (keeps_fromCatalog (keeps_servicePut d _)) fun record => ?_
  refine keeps_quiet ?_
  dsimp only
  split
  · exact calls_run_bind (calls_exists trivial) fun _ => calls_done _
  · exact calls_done _

theorem keeps_batch (d : Depot) (r : Request) (space repo : String) :
    (Transfer.batch d r space repo).run.Keeps memories fun s => Settled s.1 s.2 := by
  unfold Transfer.batch
  refine keeps_run_bind (keeps_quiet (calls_wholeBody r)) fun body => ?_
  split
  · refine keeps_quiet (calls_run_bind (calls_fromCatalog
      (calls_run_lift (calls_authenticate (fun _ => trivial) _))) fun b => ?_)
    split <;> exact calls_done _
  · refine keeps_run_bind (keeps_fromCatalog fun v => ?_) fun _ => keeps_done _
    exact keeps_run_mapM (fun q => keeps_resolve d q v) _

theorem keeps_addProject (r : Request) :
    (Management.addProject r).run.Keeps memories fun s => Settled s.1 s.2 := by
  have created : ∀ name v, (Projects.create name).run.Keeps Memory.handle fun m => Settled m v := by
    intro name v m h
    have committed : ∀ (op : Op) (m' : Memory), (∃ name, op = .createProject name) →
        (∀ oid, m'.Committed oid ↔ m.Committed oid) →
        ∀ oid, (Memory.handle op m').2.Committed oid ↔ m.Committed oid := by
      intro op m' hop hm oid
      obtain ⟨name, rfl⟩ := hop
      show (m'.respond (.createProject name)).2.Committed oid ↔ _
      rw [Catalog.Memory.committed_respond]
      exact hm oid
    have hcalls : (Projects.create name).run.Calls fun op : Op => ∃ name, op = .createProject name :=
      calls_create ⟨name, rfl⟩
    refine ⟨Ledger.balanced_create h.toBalanced name, fun oid => (h.kept oid).trans ?_⟩
    exact (hcalls.run_keeps (fun m' : Memory => ∀ oid, m'.Committed oid ↔ m.Committed oid) committed
      (fun _ => .rfl) oid).symm
  unfold Management.addProject
  refine keeps_run_bind (keeps_quiet (calls_jsonBody _ r)) fun name => ?_
  exact keeps_run_bind (keeps_fromCatalog (created name)) fun _ => keeps_done _

/-! ## Uploads -/

theorem run_askVault (op : Vault.Op) (v : Vault.Memory) :
    (Vault.ask op).run.run Vault.Memory.handle v = Vault.Memory.handle op v := rfl

theorem run_vaultPut (limit : Nat) (r : ObjectRecord) (body : Stream) (v : Vault.Memory) :
    (Vault.put limit r body).run.run Vault.Memory.handle v = match Vault.verify r body with
      | .ok b => (.ok (), ⟨v.blobs.insert r.oid b⟩)
      | .error e => (.error e, v) := by
  rw [Vault.put_eq]
  cases Vault.verify r body with
  | error e => rfl
  | ok b =>
    have hwrite : Vault.Memory.handle (.write r.oid (Stream.ofBytes b) b.size) v =
        (.ok (), ⟨v.blobs.insert r.oid b⟩) := by
      simp only [Vault.Memory.handle, Vault.Memory.readExactly_ofBytes]
    have hsize : Vault.Memory.handle (.size r.oid) ⟨v.blobs.insert r.oid b⟩ =
        (.ok (some b.size), ⟨v.blobs.insert r.oid b⟩) := by
      simp only [Vault.Memory.handle, SortedMap.get?_insert_self]
      rfl
    dsimp only
    rw [run_run_bind, run_askVault, hwrite]
    dsimp only
    rw [run_run_bind, run_askVault, hsize]
    dsimp only
    rw [if_neg (by simp)]
    rfl

/-- Bytes that have been stored are those of an object that is committed next. -/
theorem settled_upload {r : ObjectRecord} (h : Settled m v) (hr : m.objects.get? oid = some r) (b : ByteArray) :
    Settled ((Ledger.commit oid).run.run Memory.handle m).2 ⟨v.blobs.insert oid b⟩ := by
  refine ⟨Ledger.balanced_commit h.toBalanced oid, fun o => ?_⟩
  rw [SortedMap.contains_insert, h.kept o, Ledger.run_commit h.toBalanced hr]
  have hcontains := SortedMap.contains_iff.mpr ⟨r, hr⟩
  split
  · next hc => exact ⟨fun ho => ho.elim (fun e => e ▸ ⟨r, hr, hc⟩) id, .inr⟩
  · rw [Catalog.Memory.committed_respond]
    by_cases ho : o = oid
    · subst ho
      simp [hcontains]
    · simp [ho]

theorem keeps_upload (d : Depot) (r : Request) (space repo text : String) :
    (Transfer.upload d r space repo text).run.Keeps memories fun s => Settled s.1 s.2 := by
  intro s h
  obtain ⟨m, v⟩ := s
  have hread := d.service.unchanged_getPending (objectRequest r space repo text) m
  unfold Transfer.upload
  dsimp only
  rw [run_run_bind, run_fromCatalog, memories, run_sum_left]
  rcases hget : (d.service.getPending (objectRequest r space repo text)).run.run Memory.handle m with ⟨e | record, m'⟩
  · rw [hget] at hread
    subst hread
    exact h
  · obtain ⟨oid, hadmits, hp, hget⟩ := Service.admitted_ok.mp hget
    obtain ⟨x, hx, rfl, e⟩ := Ledger.getPending_ok.mp hget
    subst m'
    obtain rfl : x.oid = oid := (h.keyed oid x hx).1
    dsimp only [Except.mapError]
    rw [run_run_bind, run_fromVault, run_sum_right, run_vaultPut]
    cases Vault.verify x.asExisting r.body with
    | error e => exact h
    | ok b =>
      have settled := settled_upload h hx b
      dsimp only [Except.mapError]
      -- The caller is still admitted, and the record is still there.
      rw [run_run_bind, run_fromCatalog, run_sum_left, Service.commit, Service.run_admitted hadmits hp]
      rcases hcommit : (Ledger.commit x.oid).run.run Memory.handle m with ⟨e | y, m'⟩
      · rw [hcommit] at settled
        exact settled
      · rw [hcommit] at settled
        exact settled

/-! ## Removals -/

theorem keeps_removeObject (name text : String) :
    (Management.removeObject name text).run.Keeps memories fun s => Settled s.1 s.2 := by
  unfold Management.removeObject
  split
  · exact keeps_done _
  · next oid hp =>
    intro s h
    obtain ⟨m, v⟩ := s
    have committed : ∀ o, (Ledger.parted m oid name).Committed o ↔ m.Committed o := by
      intro o
      unfold Ledger.parted
      rw [Catalog.Memory.committed_respond, Catalog.Memory.committed_respond]
    have balanced := Ledger.balanced_remove h.toBalanced oid name
    rw [run_run_bind, run_fromCatalog, memories, run_sum_left]
    rcases Ledger.removed_or_parted oid name m with ⟨hrun, -⟩ | ⟨hdeleted, hrun⟩
    · rw [hrun] at balanced ⊢
      refine ⟨balanced, fun o => ?_⟩
      -- The bytes go with the record.
      show (v.blobs.erase oid).contains o = true ↔
        ((Ledger.parted m oid name).respond (.deleteObject oid)).2.Committed o
      rw [SortedMap.contains_erase, Catalog.Memory.committed_respond, committed, h.kept]
      exact and_comm
    · have parted : Settled ((Ledger.removeFromProject oid name).run.run Memory.handle m).2 v :=
        ⟨balanced, fun o => by rw [hrun, committed, h.kept]⟩
      rcases hx : (Ledger.removeFromProject oid name).run.run Memory.handle m with ⟨e | deleted, m'⟩
      · rw [hx] at parted
        exact parted
      · rw [hx] at parted hdeleted
        cases deleted with
        | true => exact absurd rfl hdeleted
        | false => exact parted

/-! ## Requests -/

theorem run_respond_open {σ : Type} {h : Handler interface σ} {r : Request} {route route' : Route} {s : σ}
    (hp : Route.ofPath? r.path = some route) (hroute : route.decoded? = some route')
    (hopen : route'.isManaged = false) (hm : route'.methods.contains r.method = true) (fresh : Fresh) :
    (Http.respond d fresh r).run h s =
      (complete fresh r (match ((handle d fresh r route').run.run h s).1 with
        | .ok response => response
        | .error failure => failure.response), ((handle d fresh r route').run.run h s).2) := by
  rw [Route.isManaged_decoded? hroute] at hopen
  rw [Route.methods_decoded? hroute] at hm
  unfold Http.respond handleRoute refusal?
  simp only [hp, hroute, hopen, hm, Bool.not_true, Bool.false_eq_true, if_false]
  show ((settle _).bind fun response => done (complete fresh r (withAllowed r route response))).run h s = _
  rw [run_bind, run_settle]
  unfold withAllowed
  rw [if_pos hm]
  rfl

theorem keeps_respond {inv : Memory × Vault.Memory → Prop} {fresh : Fresh} {r : Request}
    (quiet : ∀ op s, Quiet op → inv s → inv (memories op s).2)
    (handled : ∀ route route', Route.ofPath? r.path = some route → route.decoded? = some route' →
      route'.methods.contains r.method = true → ¬ IsQuiet r route' →
      (handle d fresh r route').run.Keeps memories inv) :
    (Http.respond d fresh r).Keeps memories inv := by
  unfold Http.respond
  split
  · exact keeps_done _
  · next route hpath =>
    refine keeps_map ?_
    unfold handleRoute
    split
    · exact keeps_done _
    · split
      · exact keeps_done _
      · next hm =>
        split
        · exact keeps_done _
        · next route' hroute =>
          have hm : route'.methods.contains r.method = true := by
            rw [Route.methods_decoded? hroute]
            simpa using hm
          refine keeps_map ?_
          by_cases hq : IsQuiet r route'
          · exact (quiet_handle d fresh hq).keeps quiet
          · exact handled route route' hpath hroute hm hq

theorem keeps_settled (d : Depot) (fresh : Fresh) (r : Request) :
    (Http.respond d fresh r).Keeps memories fun s => Settled s.1 s.2 := by
  refine keeps_respond (fun op s hop h => h.quiet hop) fun route route' _ _ _ hq => ?_
  cases route' with
  | objects space repo => exact keeps_announce d r space repo
  | batch space repo => exact keeps_batch d r space repo
  | projectObject name text => exact keeps_removeObject name text
  | projects =>
    simp only [handle, if_pos (show r.method = "POST" from not_not.mp hq)]
    exact keeps_addProject r
  | object space repo text =>
    simp only [handle, if_pos (show r.method = "PUT" from not_not.mp hq)]
    exact keeps_upload d r space repo text
  | _ => exact absurd trivial hq

/-- A request has been answered, and none of its calls has failed. -/
def Served (d : Depot) (s s' : Stores) : Prop :=
  ∃ fresh r, s' = ((Http.respond d fresh r).run stores s).2

theorem Served.answered (h : Served d s s') : Answered d s s' := by
  obtain ⟨fresh, r, rfl⟩ := h
  exact ⟨fresh, r, _, outcome_run (fun _ _ => .inl rfl) _ s⟩

theorem settled_of_served (he : Empty s) (h : Relation.ReflTransGen (Served d) s s') :
    ∃ m v, Holds s' m v ∧ Settled m v := by
  induction h with
  | refl => exact ⟨_, _, he.holds, settled_empty⟩
  | tail _ h ih =>
    obtain ⟨m, v, hh, hs⟩ := ih
    obtain ⟨fresh, r, rfl⟩ := h
    exact ⟨_, _, (hh.respond d fresh r).2, keeps_settled d fresh r (m, v) hs⟩

end Depot

end BlobDepot
