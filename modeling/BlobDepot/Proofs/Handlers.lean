import BlobDepot.Http.Server
import BlobDepot.Proofs.Custody
import BlobDepot.Proofs.Uploads

/-!
# What requests call

Most requests leave the bytes and the record of every object alone, whatever becomes of them. An upload and
a removal do so for all objects but one, which they have in custody.
-/

namespace BlobDepot

open Depot (Mild)
open Prog

variable {o : Oid}

/-! ## Programs of the catalog -/

section
variable {ops : Catalog.Op → Prop}

theorem calls_ask {op : Catalog.Op} (h : ops op) : (Catalog.ask op).run.Calls ops :=
  calls_perform h

theorem calls_askVault {ops : Vault.Op → Prop} {op : Vault.Op} (h : ops op) :
    (Vault.ask op).run.Calls ops :=
  calls_perform h

theorem calls_addObject {oid : Oid} {project : String} (h : ops (.addProjectMember project oid)) :
    (Projects.addObject oid project).run.Calls ops := by
  unfold Projects.addObject
  split
  · exact calls_done _
  · exact calls_ask h

theorem calls_join {r : ObjectRecord} {project : String} (h : ops (.addProjectMember project r.oid))
    (h' : ops (.addObjectProject r.oid project)) : (Ledger.join r project).run.Calls ops := by
  unfold Ledger.join
  split
  · refine calls_run_bind (calls_addObject h) fun _ => ?_
    exact calls_run_bind (calls_ask h') fun _ => calls_done _
  · exact calls_done _

theorem calls_require {oid : Oid} (h : ops (.readObject oid)) : (Ledger.require oid).run.Calls ops := by
  unfold Ledger.require
  refine calls_run_bind (calls_ask h) fun x => ?_
  cases x <;> exact calls_done _

theorem calls_put {oid : Oid} {size : Int} {project : String} (hr : ∀ o, ops (.readObject o))
    (hm : ∀ o p, ops (.addProjectMember p o)) (hp : ∀ o p, ops (.addObjectProject o p))
    (hi : ops (.insertObject (.pending oid size project))) :
    (Ledger.put oid size project).run.Calls ops := by
  have joined : ∀ r, (Ledger.join r project).run.Calls ops := fun r => calls_join (hm _ _) (hp _ _)
  unfold Ledger.put
  split
  · exact calls_done _
  · refine calls_run_bind (calls_ask (hr oid)) fun x => ?_
    cases x with
    | some r => exact joined r
    | none =>
      refine calls_run_bind (calls_addObject (hm _ _)) fun _ => ?_
      refine calls_run_bind (calls_ask hi) fun b => ?_
      split
      · exact calls_done _
      · refine calls_run_bind (calls_ask (hr oid)) fun x => ?_
        cases x with
        | some r => exact joined r
        | none => exact calls_done _

theorem calls_commit {oid : Oid} (hr : ops (.readObject oid)) (hm : ∀ p, ops (.addProjectMember p oid))
    (hs : ops (.setObjectState oid .committed)) : (Ledger.commit oid).run.Calls ops := by
  unfold Ledger.commit
  refine calls_run_bind (calls_require hr) fun r => ?_
  split
  · exact calls_done _
  · refine calls_run_bind (calls_run_forM (fun p => calls_addObject (hm p)) _) fun _ => ?_
    refine calls_run_bind (calls_ask hs) fun b => ?_
    split <;> exact calls_done _

theorem calls_get {oid : Oid} (h : ops (.readObject oid)) : (Ledger.get oid).run.Calls ops := by
  unfold Ledger.get
  refine calls_run_bind (calls_require h) fun r => ?_
  split <;> exact calls_done _

theorem calls_referencing {oid : Oid} (h : ops .listProjects) :
    (Projects.referencing oid).run.Calls ops := by
  unfold Projects.referencing
  exact calls_run_bind (calls_ask h) fun _ => calls_done _

def Ledger.conclude (oid : Oid) (project : String) (wasMember hadReference : Bool) :
    Option ObjectRecord → CatalogM Bool
  | none => if wasMember then pure false else throw (.objectNotFound oid.hex)
  | some record => do
    if !wasMember && !hadReference then
      throw (.invalidRequest ("object " ++ oid.hex ++ " is not part of project " ++ project))
    else if !record.projects.isEmpty then
      pure false
    else if !(← Projects.referencing oid).isEmpty then
      pure false
    else Catalog.ask (.deleteObject oid)

theorem Ledger.removeFromProject_eq (oid : Oid) (project : String) :
    removeFromProject oid project =
      Projects.removeObject oid project >>= fun wasMember =>
        Catalog.ask (.removeObjectProject oid project) >>= fun hadReference =>
          Catalog.ask (.readObject oid) >>= conclude oid project wasMember hadReference := by
  unfold removeFromProject
  refine bind_congr fun wasMember => bind_congr fun hadReference => bind_congr fun found => ?_
  cases found <;> rfl

theorem calls_conclude {oid : Oid} {project : String} {wasMember hadReference : Bool}
    {found : Option ObjectRecord} (hl : ops .listProjects) (hd : ops (.deleteObject oid)) :
    (Ledger.conclude oid project wasMember hadReference found).run.Calls ops := by
  unfold Ledger.conclude
  cases found with
  | none => dsimp only; split <;> exact calls_done _
  | some r =>
    dsimp only
    split
    · exact calls_done _
    · split
      · exact calls_done _
      · refine calls_run_bind (calls_referencing hl) fun l => ?_
        split
        · exact calls_done _
        · exact calls_ask hd

theorem calls_removeFromProject {oid : Oid} {project : String} (hm : ops (.removeProjectMember project oid))
    (hr : ops (.removeObjectProject oid project)) (h : ops (.readObject oid)) (hl : ops .listProjects)
    (hd : ops (.deleteObject oid)) : (Ledger.removeFromProject oid project).run.Calls ops := by
  rw [Ledger.removeFromProject_eq]
  refine calls_run_bind (calls_ask hm) fun wasMember => ?_
  refine calls_run_bind (calls_ask hr) fun hadReference => ?_
  exact calls_run_bind (calls_ask h) fun found => calls_conclude hl hd

theorem calls_create {name : String} (h : ops (.createProject name)) : (Projects.create name).run.Calls ops := by
  unfold Projects.create
  split
  · exact calls_done _
  · exact calls_ask h

theorem calls_authenticate {c : Credentials} (h : ∀ user, ops (.readUser user)) (header : String) :
    (c.authenticate header).Calls ops := by
  unfold Credentials.authenticate
  split
  · exact calls_done _
  · split
    · unfold Credentials.verifyLocal
      refine calls_bind (fun x => ?_) (calls_ask (h _))
      split <;> exact calls_done _
    · exact calls_done _
  · split <;> exact calls_done _

theorem calls_requireLocal (c : Credentials) (operation : String) :
    (c.requireLocal operation).run.Calls ops := by
  unfold Credentials.requireLocal
  split <;> exact calls_done _

theorem calls_listUsers (c : Credentials) (h : ops .listUsernames) : c.listUsers.run.Calls ops :=
  calls_run_bind (calls_requireLocal _ _) fun _ => calls_ask h

theorem calls_deleteUser (c : Credentials) {user : String} (h : ops (.deleteUser user)) :
    (c.deleteUser user).run.Calls ops :=
  calls_run_bind (calls_requireLocal _ _) fun _ => calls_ask h

theorem calls_addUser (c : Credentials) {user : String} (hr : ops (.readUser user))
    (hi : ∀ hash, ops (.insertUser ⟨user, hash⟩)) (salt : List UInt8) (password : String) :
    (c.addUser salt user password).run.Calls ops := by
  unfold Credentials.addUser
  refine calls_run_bind (calls_requireLocal _ _) fun _ => ?_
  dsimp only
  split
  · exact calls_done _
  · split
    · exact calls_done _
    · refine calls_run_bind (calls_ask hr) fun x => ?_
      cases x
      · exact calls_ask (hi _)
      · exact calls_done _

theorem calls_admission {s : Service} (h : ∀ user, ops (.readUser user)) (q : ObjectRequest) :
    (s.admission q).run.Calls ops := by
  unfold Service.admission
  refine calls_run_bind (calls_run_lift (calls_authenticate h _)) fun b => ?_
  split
  · split <;> exact calls_done _
  · exact calls_done _

theorem calls_serviceGet {s : Service} (h : ∀ user, ops (.readUser user)) (h' : ∀ oid, ops (.readObject oid))
    (q : ObjectRequest) : (s.get q).run.Calls ops := by
  unfold Service.get
  exact calls_run_bind (calls_admission h q) fun oid => calls_get (h' oid)

theorem calls_serviceGetPending {s : Service} (h : ∀ user, ops (.readUser user))
    (h' : ∀ oid, ops (.readObject oid)) (q : ObjectRequest) : (s.getPending q).run.Calls ops := by
  unfold Service.getPending Ledger.getPending
  refine calls_run_bind (calls_admission h q) fun oid => ?_
  exact calls_run_bind (calls_require (h' oid)) fun _ => calls_done _

end

/-! ## Handlers that leave an object alone -/

namespace Http

section
variable {α : Type} {ops : Depot.interface.Op → Prop}

theorem calls_fromCatalog {p : CatalogM α} (h : p.run.Calls fun op => ops (.inl op)) :
    (fromCatalog p).run.Calls ops :=
  calls_left (calls_map h)

theorem calls_fromVault {p : VaultM α} (h : p.run.Calls fun op => ops (.inr op)) :
    (fromVault p).run.Calls ops :=
  calls_right (calls_map h)

theorem calls_exists {oid : Oid} (h : ops (.inr (.size oid))) :
    (fromVault (ExceptT.lift (Vault.exists? oid))).run.Calls ops := by
  refine calls_fromVault (calls_run_lift ?_)
  unfold Vault.exists? Vault.present
  refine calls_bind (fun x => ?_) (calls_run_bind (calls_askVault h) fun _ => calls_done _)
  split <;> exact calls_done _

theorem calls_wholeBody (r : Request) : (wholeBody r).run.Calls ops := by
  unfold wholeBody
  split <;> exact calls_done _

theorem calls_jsonBody (decode : Decoder α) (r : Request) : (jsonBody decode r).run.Calls ops := by
  unfold jsonBody
  split
  · exact calls_done _
  · refine calls_run_bind (calls_wholeBody r) fun _ => ?_
    split <;> exact calls_done _

end

section
variable {α σ : Type} {h : Handler Depot.interface σ}

theorem run_fromCatalog (p : CatalogM α) (s : σ) : (fromCatalog p).run.run h s =
    ((p.run.run h.left s).1.mapError fun e => .failed (.catalog e), (p.run.run h.left s).2) := by
  unfold fromCatalog
  show (left _).run h s = _
  rw [run_left, run_map]

theorem run_fromVault (p : VaultM α) (s : σ) : (fromVault p).run.run h s =
    ((p.run.run h.right s).1.mapError fun e => .failed (.vault e), (p.run.run h.right s).2) := by
  unfold fromVault
  show (right _).run h s = _
  rw [run_right, run_map]

theorem run_wholeBody (r : Request) (s : σ) : (wholeBody r).run.run h s =
    ((collectBody .empty r.body).map (·.data.toList) |>.mapError .rejected, s) := by
  unfold wholeBody
  cases collectBody .empty r.body <;> rfl

theorem run_settle (p : HandlerM Response) (s : σ) : (settle p).run h s =
    (match (p.run.run h s).1 with
      | .ok response => response
      | .error failure => failure.response, (p.run.run h s).2) := by
  unfold settle
  show (p.run.bind _).run h s = _
  rw [run_bind]
  rfl

end

/-! ## Kinds of handlers -/

/-- Calls that leave objects, projects and bytes as they are. -/
def Quiet : Depot.interface.Op → Prop
  | .inl (.insertObject _) | .inl (.setObjectState _ _) | .inl (.addObjectProject _ _)
  | .inl (.removeObjectProject _ _) | .inl (.deleteObject _) | .inl (.createProject _)
  | .inl (.addProjectMember _ _) | .inl (.removeProjectMember _ _) | .inl .close | .inr (.write _ _ _)
  | .inr (.delete _) => False
  | _ => True

/-- Calls that look up users and objects, claim objects or add them to projects. -/
def Adds : Depot.interface.Op → Prop
  | .inl (.insertObject r) => r.state = .pending
  | .inl (.readObject _) | .inl (.readUser _) | .inl (.addObjectProject _ _) | .inl (.addProjectMember _ _)
  | .inr (.size _) => True
  | _ => False

theorem Quiet.mild {op : Depot.interface.Op} (h : Quiet op) : Mild o op := by
  cases op with
  | inl op => cases op <;> trivial
  | inr op => cases op <;> trivial

theorem Adds.mild {op : Depot.interface.Op} (h : Adds op) : Mild o op := by
  cases op with
  | inl op => cases op <;> first | exact h | trivial
  | inr op => cases op <;> trivial

theorem adds_servicePut {d : Depot} (q : ObjectRequest) :
    (d.service.put q).run.Calls fun op => Adds (.inl op) := by
  unfold Service.put
  refine calls_run_bind (calls_admission (fun _ => trivial) q) fun oid => ?_
  exact calls_put (fun _ => trivial) (fun _ _ => trivial) (fun _ _ => trivial) rfl

theorem adds_announce (d : Depot) (r : Request) (space repo : String) :
    (Transfer.announce d r space repo).run.Calls Adds := by
  unfold Transfer.announce
  refine calls_run_bind (calls_wholeBody r) fun _ => ?_
  refine calls_run_bind (calls_fromCatalog (adds_servicePut _)) fun record => ?_
  dsimp only
  split
  · exact calls_run_bind (calls_exists trivial) fun _ => calls_done _
  · exact calls_done _

theorem adds_resolve (d : Depot) (q : ObjectRequest) :
    (Transfer.resolve d q).run.Calls fun op => Adds (.inl op) := by
  unfold Transfer.resolve
  refine calls_run_bind (calls_run_lift (calls_serviceGet (fun _ => trivial) (fun _ => trivial) q)) fun x => ?_
  split
  · exact calls_done _
  · exact calls_done _
  · refine calls_run_bind (calls_run_lift (adds_servicePut q)) fun y => ?_
    split <;> exact calls_done _

theorem adds_batch (d : Depot) (r : Request) (space repo : String) :
    (Transfer.batch d r space repo).run.Calls Adds := by
  unfold Transfer.batch
  refine calls_run_bind (calls_wholeBody r) fun body => ?_
  split
  · refine calls_run_bind (calls_fromCatalog
      (calls_run_lift (calls_authenticate (fun _ => trivial) _))) fun b => ?_
    split <;> exact calls_done _
  · refine calls_run_bind (calls_fromCatalog (calls_run_mapM (adds_resolve d) _)) fun _ => calls_done _

theorem quiet_content (r : Request) (record : ObjectRecord) :
    (Transfer.content r record).run.Calls Quiet := by
  unfold Transfer.content
  dsimp only
  split
  · exact calls_done _
  · refine calls_run_bind (calls_fromVault ?_) fun _ => calls_done _
    unfold Vault.get
    refine calls_run_bind (calls_askVault trivial) fun x => ?_
    cases x <;> exact calls_done _

theorem quiet_fetch (d : Depot) (r : Request) (space repo oid : String) :
    (Transfer.fetch d r space repo oid).run.Calls Quiet := by
  unfold Transfer.fetch
  dsimp only
  split
  · exact calls_done _
  · refine calls_run_bind (calls_fromCatalog (calls_serviceGet (fun _ => trivial) (fun _ => trivial) _)) fun record => ?_
    refine calls_run_bind (calls_exists trivial) fun b => ?_
    split
    · exact calls_done _
    · split
      · exact calls_done _
      · exact quiet_content r record

theorem quiet_search (d : Depot) (r : Request) (oid : String) :
    (Transfer.search d r oid).run.Calls Quiet := by
  unfold Transfer.search
  exact calls_run_bind (calls_fromCatalog (calls_serviceGet (fun _ => trivial) (fun _ => trivial) _)) fun _ => calls_done _

theorem quiet_summary (d : Depot) : (Management.summary d).run.Calls Quiet := by
  unfold Management.summary
  refine calls_run_bind (calls_fromCatalog (calls_ask trivial)) fun _ => ?_
  refine calls_run_bind (calls_fromCatalog (calls_ask trivial)) fun _ => ?_
  split <;> exact calls_done _

theorem quiet_objects (r : Request) : (Management.objects r).run.Calls Quiet := by
  unfold Management.objects
  split
  · exact calls_done _
  · exact calls_run_bind (calls_fromCatalog (calls_ask trivial)) fun _ => calls_done _

theorem quiet_projects : Management.projects.run.Calls Quiet := by
  unfold Management.projects
  exact calls_run_bind (calls_fromCatalog (calls_ask trivial)) fun _ => calls_done _

theorem quiet_project (name : String) : (Management.project name).run.Calls Quiet := by
  unfold Management.project
  refine calls_run_bind (calls_fromCatalog ?_) fun _ => calls_done _
  unfold Projects.find
  refine calls_run_bind (calls_ask trivial) fun x => ?_
  cases x <;> exact calls_done _

theorem calls_addProject {ops : Depot.interface.Op → Prop} (h : ∀ name, ops (.inl (.createProject name)))
    (r : Request) : (Management.addProject r).run.Calls ops := by
  unfold Management.addProject
  refine calls_run_bind (calls_jsonBody _ r) fun name => ?_
  exact calls_run_bind (calls_fromCatalog (calls_create (h name))) fun _ => calls_done _

theorem quiet_users (d : Depot) : (Management.users d).run.Calls Quiet := by
  unfold Management.users
  exact calls_run_bind (calls_fromCatalog (calls_listUsers _ trivial)) fun _ => calls_done _

theorem quiet_addUser (d : Depot) (salt : List UInt8) (r : Request) :
    (Management.addUser d salt r).run.Calls Quiet := by
  unfold Management.addUser
  refine calls_run_bind (calls_jsonBody _ r) fun x => ?_
  exact calls_run_bind (calls_fromCatalog (calls_addUser _ trivial (fun _ => trivial) _ _)) fun _ => calls_done _

theorem quiet_deleteUser (d : Depot) (name : String) :
    (Management.deleteUser d name).run.Calls Quiet := by
  unfold Management.deleteUser
  exact calls_run_bind (calls_fromCatalog (calls_deleteUser _ trivial)) fun _ => calls_done _

/-- The request neither announces nor sends nor removes objects, nor does it add a project. -/
def IsQuiet (r : Request) : Route → Prop
  | .objects _ _ | .batch _ _ | .projectObject _ _ => False
  | .projects => r.method ≠ "POST"
  | .object _ _ _ => r.method ≠ "PUT"
  | _ => True

theorem quiet_handle (d : Depot) (fresh : Fresh) {r : Request} {route : Route} (h : IsQuiet r route) :
    (handle d fresh r route).run.Calls Quiet := by
  cases route with
  | health => exact calls_done _
  | search text => exact quiet_search d r text
  | summary => exact quiet_summary d
  | allObjects => exact quiet_objects r
  | projects =>
    simp only [handle, if_neg (show ¬ r.method = "POST" from h)]
    exact quiet_projects
  | project name => exact quiet_project name
  | users =>
    simp only [handle]
    split
    · exact quiet_addUser d fresh.salt r
    · exact quiet_users d
  | user name => exact quiet_deleteUser d name
  | object space repo text =>
    simp only [handle, if_neg (show ¬ r.method = "PUT" from h)]
    exact quiet_fetch d r space repo text
  | projectObject _ _ => cases h
  | objects _ _ => cases h
  | batch _ _ => cases h

end Http

namespace Depot

/-! ## Staying in a phase -/

theorem Mild.stays {op : interface.Op} {f : Phase} (h : Mild o op) (hs : f ≠ .seeking)
    (x : interface.Answer op) :
    f.advance o op x = f := by
  cases op with
  | inl op =>
    obtain e | y := (x : Except CatalogError op.Result)
    · cases op <;> rfl
    · cases op with
      | readObject o' =>
        cases y with
        | none => rfl
        | some r => exact if_neg fun e => hs e.2
      | deleteObject o' =>
        cases y with
        | false => rfl
        | true => exact if_neg h
      | _ => rfl
  | inr op =>
    cases op with
    | write o' source length => exact advance_write_of_ne h x
    | delete o' => exact if_neg h
    | openBlob o' => rfl
    | size o' => rfl

theorem Mild.follows {op : interface.Op} {f : Phase} (h : Mild o op) (hs : f ≠ .seeking)
    (hc : f ≠ .clearing) :
    (custody o).allows op f ∧ ∀ x f', (custody o).leads op f x f' → f' = f :=
  ⟨.mild h hc, fun x _ hl => hl.2.trans (h.stays hs x)⟩

theorem readUser_follows {f : Phase} (hc : f ≠ .clearing) (op : interface.Op)
    (h : ∃ user, op = .inl (.readUser user)) :
    (custody o).allows op f ∧ ∀ x f', (custody o).leads op f x f' → f' = f := by
  obtain ⟨user, rfl⟩ := h
  exact ⟨.mild trivial hc, fun x f' hl => hl.2⟩

/-! ## Admission -/

theorem follows_admission {φ : Type} {d : Discipline Catalog.interface φ}
    {want : Except CatalogError Oid → φ → Prop}
    {f : φ} (s : Service) (q : ObjectRequest)
    (h : ∀ op, (∃ user, op = .readUser user) → d.allows op f ∧ ∀ x f', d.leads op f x f' → f' = f)
    (hok : ∀ oid, Oid.parse q.oid = .ok oid → want (.ok oid) f) (he : ∀ e, want (.error e) f) :
    (s.admission q).run.Follows d want f := by
  unfold Service.admission
  refine follows_calls_bind h (calls_run_lift (calls_authenticate (fun user => ⟨user, rfl⟩) _))
    (fun b => ?_) he
  split
  · split
    · next oid hp => exact follows_done.mpr (hok oid hp)
    · exact follows_done.mpr (he _)
  · exact follows_done.mpr (he _)

theorem follows_ask {φ : Type} {d : Discipline Catalog.interface φ} (op : Catalog.Op)
    {want : Except CatalogError op.Result → φ → Prop} {f : φ} :
    (Catalog.ask op).run.Follows d want f ↔ d.allows op f ∧ ∀ x f', d.leads op f x f' → want x f' :=
  follows_perform

/-! ## Uploads -/

theorem follows_askVault {φ : Type} {d : Discipline Vault.interface φ} (op : Vault.Op)
    {want : Except VaultError op.Result → φ → Prop} {f : φ} :
    (Vault.ask op).run.Follows d want f ↔ d.allows op f ∧ ∀ x f', d.leads op f x f' → want x f' :=
  follows_perform

theorem calls_vaultPut {ops : Vault.Op → Prop} {r : ObjectRecord} {limit : Nat} (body : Stream)
    (hw : ∀ source length, ops (.write r.oid source length)) (hs : ops (.size r.oid)) :
    (Vault.put limit r body).run.Calls ops := by
  rw [Vault.put_eq]
  split
  · refine calls_run_bind (calls_askVault (hw _ _)) fun _ => ?_
    refine calls_run_bind (calls_askVault hs) fun n => ?_
    split <;> exact calls_done _
  · exact calls_done _

theorem calls_upload {ops : interface.Op → Prop} (hu : ∀ user, ops (.inl (.readUser user)))
    (hr : ∀ oid, ops (.inl (.readObject oid))) (hm : ∀ p oid, ops (.inl (.addProjectMember p oid)))
    (hs : ∀ oid, ops (.inl (.setObjectState oid .committed)))
    (hw : ∀ oid source length, ops (.inr (.write oid source length))) (hz : ∀ oid, ops (.inr (.size oid)))
    (d : Depot) (r : Http.Request) (space repo text : String) :
    (Http.Transfer.upload d r space repo text).run.Calls ops := by
  unfold Http.Transfer.upload
  refine calls_run_bind (Http.calls_fromCatalog (calls_serviceGetPending hu hr _)) fun record => ?_
  refine calls_run_bind (Http.calls_fromVault (calls_vaultPut r.body (hw _) (hz _))) fun _ => ?_
  refine calls_run_bind (Http.calls_fromCatalog ?_) fun _ => calls_done _
  unfold Service.commit
  exact calls_run_bind (calls_admission hu _) fun oid => calls_commit (hr oid) (fun p => hm p oid) (hs oid)

theorem follows_put {r : ObjectRecord} {limit : Nat} (body : Stream) (hr : r.oid = o) :
    (Vault.put limit r body).run.Follows (custody o).right (fun
      | .ok _, f => f = .stored r.size
      | .error _, f => f.Uploading) (.found r.size) := by
  rw [Vault.put_eq]
  cases hv : Vault.verify r body with
  | error e => exact follows_done.mpr trivial
  | ok b =>
    obtain ⟨-, hsize, hb⟩ := Vault.verify_ok.mp hv
    rw [hr] at hb
    dsimp only
    rw [hr, ← hsize, follows_run_bind]
    refine (follows_askVault (.write o (Stream.ofBytes b) b.size)).mpr ⟨.write hb, fun x f' hl => ?_⟩
    obtain ⟨-, rfl⟩ := hl
    cases x with
    | error e => trivial
    | ok u =>
      have hf : Phase.advance o (.found b.size) (.inr (.write o (Stream.ofBytes b) b.size)) (Except.ok u) =
          .stored b.size := if_pos rfl
      rw [hf]
      dsimp only
      rw [follows_run_bind]
      refine (follows_askVault (.size o)).mpr ⟨.mild trivial (by simp), fun x f' hl => ?_⟩
      obtain ⟨-, rfl⟩ := hl
      cases x with
      | error e => trivial
      | ok n =>
        dsimp only
        split
        · exact follows_done.mpr trivial
        · exact follows_done.mpr rfl

theorem follows_fromCatalog {φ α : Type} {d : Discipline interface φ}
    {want : Except Http.Failure α → φ → Prop} {f : φ}
    {p : CatalogM α} (h : p.run.Follows d.left
      (fun x => want (x.mapError fun e => .failed (.catalog e))) f) :
    (Http.fromCatalog p).run.Follows d want f :=
  Follows.left (follows_map.mpr h)

theorem follows_fromVault {φ α : Type} {d : Discipline interface φ}
    {want : Except Http.Failure α → φ → Prop} {f : φ}
    {p : VaultM α} (h : p.run.Follows d.right (fun x => want (x.mapError fun e => .failed (.vault e))) f) :
    (Http.fromVault p).run.Follows d want f :=
  Follows.right (follows_map.mpr h)

section
variable {d : Depot} {q : ObjectRequest}

theorem follows_getPending (hq : Oid.parse q.oid = .ok o) :
    (d.service.getPending q).run.Follows (custody o).left (fun
      | .ok r, f => r.oid = o ∧ f = .found r.size
      | .error _, f => f.Uploading) .seeking := by
  unfold Service.getPending
  rw [follows_run_bind]
  refine follows_admission _ _ (fun op h => readUser_follows (by simp) _ ?_) (fun oid hp => ?_)
    fun e => trivial
  · obtain ⟨user, rfl⟩ := h; exact ⟨user, rfl⟩
  · obtain rfl : o = oid := by rw [hq] at hp; exact Except.ok.inj hp
    dsimp only
    unfold Ledger.getPending Ledger.require
    rw [follows_run_bind, follows_run_bind]
    refine (follows_ask (.readObject o)).mpr ⟨.mild trivial (by simp), fun x f' hl => ?_⟩
    obtain ⟨hx, rfl⟩ := hl
    obtain e | _ | r := x
    · trivial
    · exact follows_done.mpr trivial
    · exact follows_done.mpr (follows_done.mpr ⟨hx, if_pos ⟨rfl, rfl⟩⟩)

theorem follows_commit {size : Int} (hq : Oid.parse q.oid = .ok o) :
    (d.service.commit q).run.Follows (custody o).left (fun _ f => f.Uploading) (.stored size) := by
  have mild : ∀ op, Mild o (.inl op) → (custody o).left.allows op (.stored size) ∧
      ∀ x f', (custody o).left.leads op (.stored size) x f' → f' = .stored size :=
    fun op h => h.follows (by simp) (by simp)
  unfold Service.commit
  rw [follows_run_bind]
  refine follows_admission _ _ (fun op h => readUser_follows (by simp) _ ?_) (fun oid hp => ?_)
    fun e => trivial
  · obtain ⟨user, rfl⟩ := h; exact ⟨user, rfl⟩
  · obtain rfl : o = oid := by rw [hq] at hp; exact Except.ok.inj hp
    dsimp only
    unfold Ledger.commit
    refine follows_calls_bind mild (calls_require trivial) (fun r => ?_) fun e => trivial
    split
    · exact follows_done.mpr trivial
    · refine follows_calls_bind mild (calls_run_forM (fun p => calls_addObject trivial) _)
        (fun u => ?_) fun e => trivial
      rw [follows_run_bind]
      refine (follows_ask (.setObjectState o .committed)).mpr ⟨.commit, fun x f' hl => ?_⟩
      obtain ⟨-, rfl⟩ := hl
      cases x with
      | error e => trivial
      | ok b => cases b <;> exact follows_done.mpr trivial

end

theorem follows_upload (d : Depot) (r : Http.Request) (space repo : String) {text : String}
    (hp : Oid.parse text = .ok o) :
    (Http.Transfer.upload d r space repo text).run.Follows (custody o) (fun _ f => f.Uploading)
      .seeking := by
  unfold Http.Transfer.upload
  dsimp only
  rw [follows_run_bind]
  refine follows_fromCatalog ((follows_getPending hp).mono fun x f h => ?_)
  cases x with
  | error e => exact h
  | ok record =>
    obtain ⟨hr, rfl⟩ := h
    dsimp only [Except.mapError]
    rw [follows_run_bind]
    refine follows_fromVault ((follows_put r.body hr).mono fun x f h => ?_)
    cases x with
    | error e => exact h
    | ok u =>
      obtain rfl : f = .stored record.size := h
      dsimp only [Except.mapError]
      rw [follows_run_bind]
      refine follows_fromCatalog ((follows_commit hp).mono fun x f h => ?_)
      cases x with
      | error e => exact h
      | ok record => exact follows_done.mpr h

theorem mild_away (op : interface.Op) (h : Mild o op) :
    (custody o).allows op .away ∧ ∀ x f', (custody o).leads op .away x f' → f' = .away :=
  h.follows (by simp) (by simp)

theorem follows_getPending_of_ne (d : Depot) {q : ObjectRequest} (hq : Oid.parse q.oid ≠ .ok o) :
    (d.service.getPending q).run.Follows (custody o).left
      (fun x f => f = .away ∧ ∀ r, x = .ok r → r.oid ≠ o) .away := by
  have failed : ∀ {e : CatalogError} (r : ObjectRecord), Except.error e = .ok r → r.oid ≠ o := by
    intro e r h; cases h
  unfold Service.getPending
  rw [follows_run_bind]
  refine follows_admission _ _ (fun op h => readUser_follows (by simp) _ ?_) (fun oid hp => ?_)
    fun e => ⟨rfl, failed⟩
  · obtain ⟨user, rfl⟩ := h; exact ⟨user, rfl⟩
  · dsimp only
    unfold Ledger.getPending Ledger.require
    rw [follows_run_bind, follows_run_bind]
    refine (follows_ask (.readObject oid)).mpr ⟨.mild trivial (by simp), fun x f' hl => ?_⟩
    obtain ⟨hx, rfl⟩ := hl
    have mild : Mild o (.inl (.readObject oid)) := trivial
    rw [mild.stays (by simp) x]
    obtain e | _ | r := x
    · exact ⟨rfl, failed⟩
    · exact follows_done.mpr ⟨rfl, failed⟩
    · refine follows_done.mpr (follows_done.mpr ⟨rfl, fun r' h => ?_⟩)
      cases h
      intro e
      refine hq ?_
      rw [hp, ← e]
      exact congrArg Except.ok (show r.oid = oid from hx).symm

theorem follows_commit_of_ne (d : Depot) {q : ObjectRequest} (hq : Oid.parse q.oid ≠ .ok o) :
    (d.service.commit q).run.Follows (custody o).left (fun _ f => f = .away) .away := by
  unfold Service.commit
  rw [follows_run_bind]
  refine follows_admission _ _ (fun op h => readUser_follows (by simp) _ ?_) (fun oid hp => ?_) fun e => rfl
  · obtain ⟨user, rfl⟩ := h; exact ⟨user, rfl⟩
  · have hne : oid ≠ o := by intro e; exact hq (e ▸ hp)
    have hc : (Ledger.commit oid).run.Calls fun op => Mild o (.inl op) :=
      calls_commit trivial (fun _ => trivial) hne
    exact hc.follows (fun op f h e => by subst e; exact mild_away _ h) rfl

theorem follows_upload_of_ne (d : Depot) (r : Http.Request) (space repo : String) {text : String}
    (hp : Oid.parse text ≠ .ok o) :
    (Http.Transfer.upload d r space repo text).run.Follows (custody o) (fun _ f => f = .away) .away := by
  unfold Http.Transfer.upload
  dsimp only
  rw [follows_run_bind]
  refine follows_fromCatalog ((follows_getPending_of_ne d hp).mono fun x f h => ?_)
  obtain ⟨rfl, hr⟩ := h
  cases x with
  | error e => rfl
  | ok record =>
    dsimp only [Except.mapError]
    refine follows_calls_bind mild_away (Http.calls_fromVault (calls_vaultPut r.body (fun _ _ => hr record rfl) trivial))
      (fun u => ?_) fun e => rfl
    rw [follows_run_bind]
    refine follows_fromCatalog ((follows_commit_of_ne d hp).mono fun x f h => ?_)
    cases x with
    | error e => exact h
    | ok record => exact follows_done.mpr h

/-! ## Removals -/

theorem follows_removeFromProject (project : String) :
    (Ledger.removeFromProject o project).run.Follows (custody o).left
      (fun x f => f = if x = .ok true then .clearing else .away) .away := by
  have mild : ∀ op, Mild o (.inl op) → (custody o).left.allows op .away ∧
      ∀ x f', (custody o).left.leads op .away x f' → f' = .away := fun op h => mild_away _ h
  unfold Ledger.removeFromProject
  refine follows_calls_bind mild (calls_ask trivial) (fun wasMember => ?_) fun e => rfl
  refine follows_calls_bind mild (calls_ask trivial) (fun hadReference => ?_) fun e => rfl
  refine follows_calls_bind mild (calls_ask trivial) (fun found => ?_) fun e => rfl
  cases found with
  | none => dsimp only; split <;> exact follows_done.mpr rfl
  | some r =>
    dsimp only
    split
    · exact follows_done.mpr rfl
    · split
      · exact follows_done.mpr rfl
      · refine follows_calls_bind mild (calls_referencing trivial) (fun l => ?_) fun e => rfl
        split
        · exact follows_done.mpr rfl
        · refine (follows_ask (.deleteObject o)).mpr ⟨.delete, fun x f' hl => ?_⟩
          obtain ⟨-, rfl⟩ := hl
          obtain e | _ | _ := x
          · rfl
          · rfl
          · exact if_pos rfl

theorem follows_removeObject (name text : String) :
    (Http.Management.removeObject name text).run.Follows (custody o) (fun _ f => f = .away) .away := by
  unfold Http.Management.removeObject
  split
  · exact follows_done.mpr rfl
  · next oid hp =>
    by_cases ho : oid = o
    · subst ho
      rw [follows_run_bind]
      refine follows_fromCatalog ((follows_removeFromProject name).mono fun x f h => ?_)
      subst h
      obtain e | _ | _ := x
      · rfl
      · exact follows_done.mpr rfl
      · dsimp only [Except.mapError]
        rw [if_pos rfl, if_pos rfl, follows_run_bind]
        refine follows_fromVault ((follows_askVault (.delete oid)).mpr ⟨.discard, fun x f' hl => ?_⟩)
        obtain ⟨-, rfl⟩ := hl
        have : Phase.advance oid .clearing (.inr (.delete oid)) x = .away := if_pos rfl
        rw [this]
        cases x with
        | error e => rfl
        | ok b => exact follows_done.mpr rfl
    · have hc : (Http.fromCatalog (Ledger.removeFromProject oid name)).run.Calls (Mild o) :=
        Http.calls_fromCatalog (calls_removeFromProject trivial trivial trivial trivial ho)
      refine follows_calls_bind mild_away hc (fun deleted => ?_) fun e => rfl
      dsimp only
      split
      · exact follows_calls_bind mild_away (Http.calls_fromVault (calls_askVault ho))
          (fun _ => follows_done.mpr rfl)
          fun e => rfl
      · exact follows_done.mpr rfl

/-! ## Requests -/

def Uploads (oid : Oid) (r : Http.Request) : Prop :=
  r.method = "PUT" ∧ ∃ route space repo text, Http.Route.ofPath? r.path = some route ∧
    route.decoded? = some (.object space repo text) ∧ Oid.parse text = .ok oid

open Classical in
noncomputable def entry (oid : Oid) (r : Http.Request) : Phase :=
  if Uploads oid r then .seeking else .away

theorem entry_uploading {r : Http.Request} (h : (entry o r).Uploading) : Uploads o r := by
  unfold entry at h
  split at h
  · next hu => exact hu
  · cases h

theorem entry_ne_clearing (r : Http.Request) : entry o r ≠ .clearing := by
  unfold entry
  split <;> simp

theorem entry_knows (r : Http.Request) (m : Catalog.Memory) (v : Vault.Memory) :
    (entry o r).Knows o m v := by
  unfold entry
  split <;> trivial

theorem follows_of_mild {α : Type} {p : Prog interface α} (h : p.Calls (Mild o)) :
    p.Follows (custody o) (fun _ f => f ≠ .clearing) .away := by
  have stays : ∀ op f, Mild o op → f = .away → (custody o).allows op f ∧
      ∀ x f', (custody o).leads op f x f' → f' = .away := by
    intro op f hm e
    subst e
    exact mild_away op hm
  refine (h.follows stays rfl).mono fun _ f e => ?_
  rw [e]; simp

section
variable {r : Http.Request} {route route' : Http.Route}

theorem uploads_iff (hpath : Http.Route.ofPath? r.path = some route) (hroute : route.decoded? = some route') :
    Uploads o r ↔ r.method = "PUT" ∧ ∃ space repo text, route' = .object space repo text ∧
      Oid.parse text = .ok o := by
  constructor
  · intro h
    obtain ⟨hput, route₁, space, repo, text, hpath₁, hroute₁, ho⟩ := h
    rw [hpath] at hpath₁
    cases hpath₁
    exact ⟨hput, space, repo, text, Option.some.inj (hroute.symm.trans hroute₁), ho⟩
  · intro h
    obtain ⟨hput, space, repo, text, rfl, ho⟩ := h
    exact ⟨hput, route, space, repo, text, hpath, hroute, ho⟩

theorem follows_handle (d : Depot) (fresh : Http.Fresh) (hpath : Http.Route.ofPath? r.path = some route)
    (hroute : route.decoded? = some route') :
    (Http.handle d fresh r route').run.Follows (custody o) (fun _ f => f ≠ .clearing) (entry o r) := by
  by_cases hu : Uploads o r
  · obtain ⟨hput, space, repo, text, rfl, hp⟩ := (uploads_iff hpath hroute).mp hu
    simp only [Http.handle, if_pos hput]
    rw [show entry o r = .seeking from if_pos hu]
    refine (follows_upload d r space repo hp).mono fun _ f hf e => ?_
    rw [e] at hf; cases hf
  · rw [show entry o r = .away from if_neg hu]
    by_cases hquiet : Http.IsQuiet r route'
    · exact follows_of_mild ((Http.quiet_handle d fresh hquiet).mono fun _ => Http.Quiet.mild)
    · cases route' with
      | object space repo text =>
        have hput : r.method = "PUT" := not_not.mp hquiet
        have hp : Oid.parse text ≠ .ok o := by
          intro hp
          exact hu ((uploads_iff hpath hroute).mpr ⟨hput, space, repo, text, rfl, hp⟩)
        simp only [Http.handle, if_pos hput]
        exact (follows_upload_of_ne d r space repo hp).mono fun _ f e => by rw [e]; simp
      | projectObject name text =>
        exact (follows_removeObject name text).mono fun _ f e => by rw [e]; simp
      | projects =>
        have hpost : r.method = "POST" := not_not.mp hquiet
        simp only [Http.handle, if_pos hpost]
        exact follows_of_mild (Http.calls_addProject (fun _ => trivial) r)
      | objects space repo =>
        exact follows_of_mild ((Http.adds_announce d r space repo).mono fun _ => Http.Adds.mild)
      | batch space repo =>
        exact follows_of_mild ((Http.adds_batch d r space repo).mono fun _ => Http.Adds.mild)
      | _ => exact absurd trivial hquiet

end

theorem follows_respond (d : Depot) (fresh : Http.Fresh) (r : Http.Request) :
    (Http.respond d fresh r).Follows (custody o) (fun _ f => f ≠ .clearing) (entry o r) := by
  unfold Http.respond
  split
  · exact follows_done.mpr (entry_ne_clearing r)
  · next route hpath =>
    refine follows_map.mpr ?_
    unfold Http.handleRoute
    split
    · exact follows_done.mpr (entry_ne_clearing r)
    · split
      · exact follows_done.mpr (entry_ne_clearing r)
      · split
        · exact follows_done.mpr (entry_ne_clearing r)
        · next route' hroute => exact follows_map.mpr (follows_handle d fresh hpath hroute)

end Depot

end BlobDepot
