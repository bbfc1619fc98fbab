import BlobDepot.Proofs.Handlers
import BlobDepot.Proofs.Responses

/-!
# Requests one after another

Whatever requests are answered, and whichever of their calls fail, a committed object has its verified bytes,
and a download that succeeds brings them.
-/

namespace BlobDepot.Depot

open Http Prog

structure Empty (s : Stores) : Prop where
  catalog : s.1 = .memory .empty ∨ s.1 = .relational .empty
  vault : s.2 = .memory .empty ∨ ∃ root t l, s.2 = .filed root t ∧ t.resolve root = .ok l ∧
    t.node? l = some .directory ∧ ∀ x, x ≠ [] → t.node? (l ++ x) = none

/-- A request has been answered. Any of its calls may have failed and have done nothing. -/
def Answered (d : Depot) (s s' : Stores) : Prop :=
  ∃ fresh r a, (respond d fresh r).Outcome (stores.orFailing failure) s a s'

/-- Every committed object has its bytes, as many as its record says. -/
def Verified (s : Stores) : Prop :=
  ∃ records : List ObjectRecord, (stores (.inl .listObjects) s).1 = Except.ok records ∧
    ∀ r ∈ records, r.isCommitted = true → ∃ b : ByteArray,
      (stores (.inr (.openBlob r.oid)) s).1 = Except.ok (some (Stream.ofBytes b)) ∧
        Oid.ofContent b = r.oid ∧ (b.size : Int) = r.size

def Fetches (r : Request) (text : String) : Prop :=
  r.method = "GET" ∧ accepted r = contentType ∧ ∃ route space repo,
    Route.ofPath? r.path = some route ∧ route.decoded? = some (.object space repo text)

/-! ## The law -/

/-- The law of one object, whatever the stores are made of. -/
def Law (oid : Oid) (s : Stores) : Prop :=
  ∃ m v, Holds s m v ∧ Sound oid m v

variable {d : Depot} {s s' : Stores} {oid : Oid}

theorem Empty.holds (h : Empty s) : Holds s .empty .empty := by
  obtain ⟨b, w⟩ := s
  obtain ⟨hc, hv⟩ := h
  constructor
  · rcases hc with hc | hc
    · rw [show b = _ from hc]; exact .memory Catalog.Memory.keyed_empty
    · rw [show b = _ from hc]; exact .relational Catalog.Memory.keyed_empty Catalog.Database.holds_empty
  · rcases hv with hv | ⟨root, t, l, hv, hr, hb, he⟩
    · rw [show w = _ from hv]; exact .memory _
    · rw [show w = _ from hv]; exact .filed (Vault.Filed.holdsAt_empty hr hb he)

theorem Empty.law (h : Empty s) (oid : Oid) : Law oid s :=
  ⟨.empty, .empty, h.holds, fun r hr => by cases hr⟩

/-- The law of each object is what the stores answer. -/
theorem verified_of_law (h : ∀ oid, Law oid s) : Verified s := by
  have listed : ∀ {m v}, Holds s m v → (stores (.inl .listObjects) s).1 = Except.ok m.objects.values := by
    intro m v hs
    have hop : Catalog.Op.listObjects ≠ .close := by simp
    exact (Catalog.Backing.handle_holds hs.1 hop).1
  obtain ⟨m, v, hs, -⟩ := h default
  refine ⟨m.objects.values, listed hs, fun r hr hc => ?_⟩
  -- The memories of the law of this object list the same records.
  obtain ⟨m', v', hs', hl⟩ := h r.oid
  have hv : m'.objects.values = m.objects.values := Except.ok.inj ((listed hs').symm.trans (listed hs))
  rw [← hv] at hr
  obtain ⟨o, ho⟩ := SortedMap.mem_values_iff.mp hr
  obtain ⟨hoid, -⟩ := hs'.1.keyed o r ho
  rw [← hoid] at ho
  obtain ⟨b, hb, hcontent, hsize⟩ := hl r ho hc
  refine ⟨b, ?_, hcontent, hsize⟩
  refine (Vault.Store.handle_holds hs'.2 (.openBlob r.oid)).1.trans ?_
  show Except.ok ((v'.blobs.get? r.oid).map Stream.ofBytes) = _
  rw [hb]; rfl

/-- The law of an object holds, and what has been found out by a phase is so. -/
def LawInPhase (oid : Oid) (s : Stores) (f : Phase) : Prop :=
  ∃ m v, Holds s m v ∧ Sound oid m v ∧ f.Knows oid m v

theorem LawInPhase.step {op : interface.Op} {f : Phase} {x : interface.Answer op} (h : LawInPhase oid s f)
    (ha : (custody oid).allows op f) (ht : stores.orFailing failure op s x s') :
    ∃ f', (custody oid).leads op f x f' ∧ LawInPhase oid s' f' := by
  obtain ⟨m, v, hs, hl, hf⟩ := h
  obtain ⟨m', v', ht, hs'⟩ := hs.step (ne_close ha) ht
  obtain ⟨hl', hf'⟩ := ha.keeps hl hf ht
  exact ⟨_, ⟨plausible_of_handle hs.1.keyed ht, rfl⟩, m', v', hs', hl', hf'⟩

theorem Answered.law (h : Answered d s s') (hs : Law oid s) : Law oid s' := by
  obtain ⟨fresh, r, a, ho⟩ := h
  obtain ⟨m, v, hh, hl⟩ := hs
  have hg : LawInPhase oid s (entry oid r) := ⟨m, v, hh, hl, entry_knows r m v⟩
  obtain ⟨f, -, m', v', hh', hl', -⟩ := Follows.outcome (LawInPhase oid) ho LawInPhase.step
    (follows_respond d fresh r) hg
  exact ⟨m', v', hh', hl'⟩

theorem law_of_answered (h : Relation.ReflTransGen (Answered d) s s') (hs : Law oid s) : Law oid s' := by
  induction h with
  | refl => exact hs
  | tail _ h ih => exact h.law ih

/-! ## Downloads -/

def Looks : interface.Op → Prop
  | .inl (.readUser _) | .inl (.readObject _) | .inr (.size _) | .inr (.openBlob _) => True
  | _ => False

def looking (m : Catalog.Memory) (v : Vault.Memory) : Discipline interface Unit where
  allows op _ := Looks op
  leads op _ x _ := failure op x ∨ (memories op (m, v)).1 = x

theorem Looks.unchanged {op : interface.Op} (h : Looks op) (m : Catalog.Memory) (v : Vault.Memory) :
    (memories op (m, v)).2 = (m, v) := by
  cases op with
  | inl op =>
    cases op with
    | readUser _ => rfl
    | readObject _ => rfl
    | _ => cases h
  | inr op =>
    cases op with
    | size _ => rfl
    | openBlob _ => rfl
    | _ => cases h

theorem looking_step {m : Catalog.Memory} {v : Vault.Memory} {op : interface.Op} {f : Unit}
    {x : interface.Answer op}
    (h : Holds s m v) (ha : (looking m v).allows op f) (ht : stores.orFailing failure op s x s') :
    ∃ f', (looking m v).leads op f x f' ∧ Holds s' m v := by
  have hop : op ≠ .inl .close := by
    intro e
    subst e
    cases ha
  obtain ⟨m', v', ht, hs'⟩ := h.step hop ht
  rcases ht with ht | ⟨hx, e⟩
  · have hu := Looks.unchanged ha m v
    rw [ht] at hu
    obtain ⟨rfl, rfl⟩ := Prod.mk.inj hu
    exact ⟨(), .inr (by rw [ht]), hs'⟩
  · obtain ⟨rfl, rfl⟩ := Prod.mk.inj e
    exact ⟨(), .inl hx, hs'⟩

/-- A response of success brings the bytes of the object that a text names, and their number. -/
def Delivers (text : String) (a : Response) : Prop :=
  a.status = 200 → ∃ b : ByteArray, a.body.readAll = .ok b ∧ Oid.parse text = .ok (Oid.ofContent b) ∧
    a.headers.get? "content-length" = some (Text.decimal b.size).toUTF8

section
variable {text : String} {a : Response} {m : Catalog.Memory} {v : Vault.Memory} {r : Request}

theorem delivers_failure (e : Failure) : Delivers text e.response :=
  fun h => absurd h e.status_ne

theorem Delivers.withHeader {name : String} (value : String) (h : Delivers text a)
    (hn : Text.sameLetters name "content-length" = false) : Delivers text (a.withHeader name value) := by
  intro hs
  obtain ⟨b, hb, ho, hl⟩ := h hs
  exact ⟨b, hb, ho, (Headers.get?_set_of_ne _ _ hn).trans hl⟩

theorem Delivers.withAllowed (h : Delivers text a) (route : Route) :
    Delivers text (withAllowed r route a) := by
  unfold Http.withAllowed
  split
  · exact h
  · exact h.withHeader _ (by decide +kernel)

theorem Delivers.complete (h : Delivers text a) (hr : r.method = "GET") (fresh : Fresh) :
    Delivers text (complete fresh r a) := by
  have hlength : a.withLength.status = a.status := by unfold Response.withLength; split <;> rfl
  intro hs
  obtain ⟨b, hb, ho, hl⟩ := h (hlength.symm.trans hs)
  have hw : a.withLength = a := by
    refine Response.withLength_of_contains ?_
    unfold Headers.contains
    rw [hl]; rfl
  have hm : ¬ r.method = "HEAD" := by rw [hr]; decide
  unfold Http.complete
  rw [hw]
  dsimp only
  rw [if_neg hm]
  exact ⟨b, hb, ho, (Headers.get?_set_of_ne _ _ (by decide +kernel)).trans hl⟩

/-- A committed record is found only where the bytes are. -/
theorem follows_get {q : ObjectRequest} (hk : m.Keyed)
    (hs : ∀ oid, Oid.parse q.oid = .ok oid → Sound oid m v) :
    (d.service.get q).run.Follows (looking m v).left (fun x _ => ∀ r, x = .ok r →
      Oid.parse q.oid = .ok r.oid ∧ Kept v r.oid r.size) () := by
  have failed : ∀ {e : CatalogError} (r : ObjectRecord), Except.error e = .ok r →
      Oid.parse q.oid = .ok r.oid ∧ Kept v r.oid r.size := by
    intro e r h; cases h
  unfold Service.get
  rw [follows_run_bind]
  refine follows_admission _ _ (fun op h => ?_) (fun oid hp => ?_) fun e => failed
  · obtain ⟨user, rfl⟩ := h
    exact ⟨trivial, fun _ _ _ => rfl⟩
  · dsimp only
    unfold Ledger.get Ledger.require
    rw [follows_run_bind, follows_run_bind]
    refine (follows_ask (.readObject oid)).mpr ⟨trivial, fun x f' hl => ?_⟩
    obtain e | _ | r := x
    · exact failed
    · exact follows_done.mpr failed
    · dsimp only
      rcases hl with ⟨e, he⟩ | hl
      · cases he
      obtain hr : m.objects.get? oid = some r := Except.ok.inj hl
      obtain rfl : r.oid = oid := (hk oid r hr).1
      refine follows_done.mpr ?_
      dsimp only
      split
      · next hc =>
        refine follows_done.mpr fun r' h => ?_
        cases h
        exact ⟨hp, hs _ hp r hr hc⟩
      · exact follows_done.mpr failed

theorem looks_stays (op : interface.Op) (h : Looks op) :
    (looking m v).allows op () ∧ ∀ x f', (looking m v).leads op () x f' → f' = () :=
  ⟨h, fun _ _ _ => rfl⟩

theorem follows_content {record : ObjectRecord} (hr : r.method = "GET")
    (ho : Oid.parse text = .ok record.oid)
    (hk : Kept v record.oid record.size) :
    (Transfer.content r record).run.Follows (looking m v)
      (fun x _ => Delivers text (match x with | .ok a => a | .error e => e.response)) () := by
  have hm : ¬ r.method = "HEAD" := by rw [hr]; decide
  obtain ⟨b, hb, hcontent, hsize⟩ := hk
  unfold Transfer.content Vault.get
  rw [if_neg hm, follows_run_bind]
  apply follows_fromVault
  rw [follows_run_bind]
  refine (follows_askVault (.openBlob record.oid)).mpr ⟨trivial, fun x f' hl => ?_⟩
  rcases hl with ⟨e, rfl⟩ | rfl
  · exact delivers_failure _
  · have hx : (memories (.inr (.openBlob record.oid)) (m, v)).1 = Except.ok (some (Stream.ofBytes b)) := by
      show Except.ok ((v.blobs.get? record.oid).map Stream.ofBytes) = _
      rw [hb]; rfl
    rw [hx]
    apply follows_done.mpr
    apply follows_done.mpr
    intro _
    refine ⟨b, ?_, ?_, ?_⟩
    · show Except.ok (ByteArray.empty ++ b) = _
      rw [ByteArray.empty_append]
    · rw [ho, hcontent]
    · rw [← hsize]
      exact Headers.get?_set_self _ _ _

theorem follows_fetch (hk : m.Keyed) (hs : ∀ oid, Oid.parse text = .ok oid → Sound oid m v)
    (hr : r.method = "GET")
    (ha : accepted r = contentType) (space repo : String) :
    (Transfer.fetch d r space repo text).run.Follows (looking m v)
      (fun x _ => Delivers text (match x with | .ok a => a | .error e => e.response)) () := by
  unfold Transfer.fetch
  rw [ha, if_neg (by simp)]
  dsimp only
  rw [follows_run_bind]
  refine follows_fromCatalog ((follows_get hk hs).mono fun x _ h => ?_)
  cases x with
  | error e => exact delivers_failure _
  | ok record =>
    obtain ⟨ho, hkept⟩ := h record rfl
    refine follows_calls_bind looks_stays (calls_exists trivial) (fun b => ?_) fun e => delivers_failure e
    split
    · exact follows_done.mpr (delivers_failure _)
    · exact follows_content hr ho hkept

theorem follows_download (fresh : Fresh) (hk : m.Keyed)
    (hs : ∀ oid, Oid.parse text = .ok oid → Sound oid m v)
    (hf : Fetches r text) : (respond d fresh r).Follows (looking m v) (fun a _ => Delivers text a) () := by
  obtain ⟨hr, ha, route, space, repo, hpath, hroute⟩ := hf
  obtain ⟨x, y, z, rfl⟩ := Route.decoded?_object hroute
  have hm : (Route.object x y z).methods.contains r.method = true := by rw [hr]; rfl
  have hput : ¬ r.method = "PUT" := by rw [hr]; decide
  unfold respond handleRoute refusal?
  simp only [hpath, hroute, hm, Route.isManaged, Bool.not_true, Bool.false_eq_true, if_false]
  apply follows_map.mpr
  apply follows_map.mpr
  simp only [handle, if_neg hput]
  refine (follows_fetch hk hs hr ha space repo).mono fun x _ h => ?_
  cases x with
  | ok a => exact (h.withAllowed _).complete hr fresh
  | error e => exact (h.withAllowed _).complete hr fresh

end

/-- From empty stores on, committed objects have their verified bytes, and downloads bring them. -/
theorem verified_of_answered (he : Empty s) (h : Relation.ReflTransGen (Answered d) s s') :
    Verified s' ∧ ∀ {fresh : Fresh} {r : Request} {text : String} {a : Response} {s'' : Stores}, Fetches r text →
      (respond d fresh r).Outcome (stores.orFailing failure) s' a s'' → Delivers text a := by
  have law : ∀ oid, Law oid s' := fun oid => law_of_answered h (he.law oid)
  refine ⟨verified_of_law law, fun {fresh r text a s''} hf ho => ?_⟩
  have held : ∃ m v, Holds s' m v ∧ ∀ oid, Oid.parse text = .ok oid → Sound oid m v := by
    cases hp : Oid.parse text with
    | ok oid =>
      obtain ⟨m, v, hh, hl⟩ := law oid
      exact ⟨m, v, hh, fun o e => Except.ok.inj e ▸ hl⟩
    | error e =>
      obtain ⟨m, v, hh, -⟩ := law default
      exact ⟨m, v, hh, fun o e => by cases e⟩
  obtain ⟨m, v, hh, hl⟩ := held
  obtain ⟨-, hd, -⟩ := Follows.outcome (fun s _ => Holds s m v) ho looking_step
    (follows_download fresh hh.1.keyed hl hf) hh
  exact hd

/-! ## An object of three bytes -/

namespace Sample

def depot : Depot :=
  .ofConfig { Config.standard with isPublic := true, adminPass := "pw" }
    Password.Hasher.standard.scheme "memory" "memory"

def fresh : Fresh :=
  ⟨"1", []⟩

def digits : String :=
  "ba7816bf8f01cfea414140de5dae2223b00361a396177a9cb410ff61f20015ad"

def announcement (size : String) : Request :=
  ⟨"POST", "/a/b/objects", [],
    Stream.ofBytes ("\x7b\"oid\":\"" ++ digits ++ "\",\"size\":" ++ size ++ "\x7d").toUTF8⟩

def upload : Request :=
  ⟨"PUT", "/a/b/objects/" ++ digits, [], [.bytes "a".toUTF8, .bytes "bc".toUTF8]⟩

def download : Request :=
  ⟨"GET", "/a/b/objects/" ++ digits, [("accept", contentType.toUTF8)], []⟩

def removal : Request :=
  ⟨"DELETE", "/mgmt/projects/b/objects/" ++ digits, [("authorization", "Basic YWRtaW46cHc=".toUTF8)], []⟩

def unused : Stores :=
  (.memory .empty, .memory .empty)

def announced : Stores :=
  ((respond depot fresh (announcement "3")).run stores unused).2

def uploaded : Stores :=
  ((respond depot fresh upload).run stores announced).2

end Sample

open Sample in
theorem verified_after_upload : Empty unused ∧ Verified uploaded ∧ Fetches download digits ∧
    ((respond depot fresh download).run stores uploaded).1.status = 200 ∧
    Delivers digits ((respond depot fresh download).run stores uploaded).1 := by
  have answers : ∀ r s, (respond depot fresh r).Outcome (stores.orFailing failure) s
      ((respond depot fresh r).run stores s).1 ((respond depot fresh r).run stores s).2 :=
    fun r s => outcome_run (fun _ _ => .inl rfl) _ s
  have empty : Empty unused := ⟨.inl rfl, .inl rfl⟩
  have fetches : Fetches download digits :=
    ⟨rfl, by decide +kernel, .object "a" "b" digits, "a", "b", by decide +kernel, by decide +kernel⟩
  have two : Relation.ReflTransGen (Answered depot) unused uploaded :=
    .tail (.single ⟨fresh, announcement "3", _, answers _ _⟩) ⟨fresh, upload, _, answers _ _⟩
  obtain ⟨verified, delivers⟩ := verified_of_answered empty two
  exact ⟨empty, verified, fetches, by decide +kernel, delivers fetches (answers _ _)⟩

end BlobDepot.Depot
