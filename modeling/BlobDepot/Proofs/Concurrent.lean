import BlobDepot.Proofs.Requests

/-!
# Requests side by side

The calls of requests may be interleaved in any way. A committed object still has its verified bytes, as long as
no upload of it meets a removal that has deleted its record and not yet its bytes. Where the two meet, a record
may be committed that never declared these bytes.
-/

namespace BlobDepot.Depot

open Http Prog

def requests (d : Depot) : Jobs interface where
  Job := Fresh × Request
  Result _ := Response
  program j := respond d j.1 j.2

variable {d : Depot} {oid : Oid}

def Uploading (oid : Oid) (t : Task (requests d)) : Prop :=
  Uploads oid t.job.2 ∧ ¬ t.IsDone

/-- The next call deletes the bytes of the object. -/
def Discarding (oid : Oid) (t : Task (requests d)) : Prop :=
  ∃ next, t.rest = .call (.inr (.delete oid)) next

/-- No object is uploaded and discarded at once. -/
def Apart (p : Pool (requests d) Stores) : Prop :=
  ∀ oid, ∀ t ∈ p.tasks, ∀ u ∈ p.tasks, Uploading oid t → ¬ Discarding oid u

/-! ## The law -/

/-- A task that has the bytes to delete is about to do so. -/
theorem discarding_of_clearing {t : Task (requests d)}
    (hf : t.rest.Follows (custody oid) (fun _ f => f ≠ .clearing) .clearing) : Discarding oid t := by
  obtain ⟨j, rest⟩ := t
  cases rest with
  | done a => exact absurd rfl (follows_done.mp hf)
  | call op next =>
    have ha : Permitted oid op .clearing := (follows_call.mp hf).1
    cases ha with
    | mild _ hc => exact absurd rfl hc
    | discard => exact ⟨next, rfl⟩

theorem Phase.uploading_of_advance {f : Phase} {op : interface.Op} {x : interface.Answer op}
    (h : (f.advance oid op x).Uploading) : f.Uploading := by
  unfold Phase.advance at h
  split at h
  · split at h
    · next hf => rw [hf.2]; trivial
    · exact h
  · split at h
    · cases h
    · exact h
  · split at h
    · trivial
    · exact h
  · split at h
    · cases h
    · exact h
  · exact h

def Attuned (oid : Oid) (p : Pool (requests d) Stores) (phase : Nat → Phase) : Prop :=
  ∃ m v, Holds p.state m v ∧ Sound oid m v ∧ ∀ (i : Nat) (t : Task (requests d)), p.tasks[i]? = some t →
    ((phase i).Uploading → Uploads oid t.job.2) ∧ (¬ t.IsDone → (phase i).Knows oid m v)

theorem Attuned.start {p : Pool (requests d) Stores} {phase : Nat → Phase} (h : Attuned oid p phase)
    (j : Fresh × Request) : Attuned oid (p.start j) (Pool.shift phase p.tasks.length (entry oid j.2)) := by
  obtain ⟨m, v, hh, hl, ht⟩ := h
  refine ⟨m, v, hh, hl, fun i t hi => ?_⟩
  rcases Pool.getElem?_start hi with ⟨rfl, rfl⟩ | ⟨hne, hi⟩
  · rw [Pool.shift_self]
    exact ⟨entry_uploading, fun _ => entry_knows j.2 m v⟩
  · rw [Pool.shift_of_ne _ _ hne]
    exact ht i t hi

theorem Attuned.call {p : Pool (requests d) Stores} {phase : Nat → Phase} {k : Nat} {j : Fresh × Request}
    {op : interface.Op} {next : interface.Answer op → Prog interface Response}
    {x : interface.Answer op} {s : Stores}
    (h : Attuned oid p phase)
    (hd : Pool.Disciplined (custody oid) (fun _ _ f => f ≠ .clearing) p phase) (hp : Apart p)
    (hk : p.tasks[k]? = some ⟨j, .call op next⟩) (ha : Permitted oid op (phase k))
    (hc : stores.orFailing failure op p.state x s) (hq : Apart (p.proceed k ⟨j, next x⟩ s)) :
    ∃ f, (custody oid).leads op (phase k) x f ∧
      (Pool.Disciplined (custody oid) (fun _ _ f => f ≠ .clearing) (p.proceed k ⟨j, next x⟩ s)
        (Pool.shift phase k f) →
        Attuned oid (p.proceed k ⟨j, next x⟩ s) (Pool.shift phase k f)) := by
  obtain ⟨m, v, hh, hl, ht⟩ := h
  obtain ⟨hup, hknows⟩ := ht k _ hk
  obtain ⟨m', v', hm, hh'⟩ := hh.step (ne_close ha) hc
  obtain ⟨hl', hf'⟩ := ha.keeps hl (hknows Task.not_isDone_call) hm
  refine ⟨_, ⟨plausible_of_handle hh.1.keyed hm, rfl⟩, fun hd' => ⟨m', v', hh', hl', fun i t hi => ?_⟩⟩
  rcases Pool.getElem?_proceed hi with ⟨rfl, rfl⟩ | ⟨hne, hi'⟩
  · rw [Pool.shift_self]
    exact ⟨fun hu => hup (Phase.uploading_of_advance hu), fun _ => hf'⟩
  · rw [Pool.shift_of_ne _ _ hne]
    -- An upload that the call could disturb meets a discarding, before the call or after it.
    obtain ⟨hupi, hknowsi⟩ := ht i t hi'
    refine ⟨hupi, fun hrun => ha.spares (hknows Task.not_isDone_call) (hknowsi hrun) hm
      (fun hu => ⟨?_, ?_⟩) ?_⟩
    · intro he
      have hclear := hd k _ hk
      rw [he] at hclear
      exact hp oid t (List.mem_of_getElem? hi') _ (List.mem_of_getElem? hk) ⟨hupi hu, hrun⟩
        (discarding_of_clearing hclear)
    · intro he
      have hk' := Pool.getElem?_proceed_self ⟨j, next x⟩ s hk
      have hclear := hd' k _ hk'
      rw [Pool.shift_self, he] at hclear
      exact hq oid t (List.mem_of_getElem? hi) _ (List.mem_of_getElem? hk') ⟨hupi hu, hrun⟩
        (discarding_of_clearing hclear)
    · intro he hu
      have hclear := hd i t hi'
      rw [he] at hclear
      exact hp oid _ (List.mem_of_getElem? hk) t (List.mem_of_getElem? hi')
        ⟨hup hu, Task.not_isDone_call⟩ (discarding_of_clearing hclear)

theorem follows_program (j : (requests d).Job) :
    ((requests d).program j).Follows (custody oid) (fun _ f => f ≠ .clearing) (entry oid j.2) := by
  have h := follows_respond (o := oid) d j.1 j.2
  dsimp only [requests]
  exact h

/-- From empty stores on, committed objects have their verified bytes at every moment, as long as no upload
meets a discarding of its object. -/
theorem verified_of_apart {s : Stores} (he : Empty s) {q : Pool (requests d) Stores}
    (h : Pool.Reaches (stores.orFailing failure) Apart (.idle _ s) q) : Verified q.state := by
  refine verified_of_law fun oid => ?_
  have apart : Apart (.idle (requests d) s) := by
    intro oid t ht
    cases ht
  have attuned : Attuned oid (.idle (requests d) s) fun _ => .away := by
    obtain ⟨m, v, hh, hl⟩ := he.law oid
    exact ⟨m, v, hh, hl, fun i t hi => by cases hi⟩
  obtain ⟨-, phase, -, m, v, hh, hl, -⟩ :=
    Pool.Reaches.invariant (Attuned oid) follows_program (fun j hg => hg.start j)
    (fun hg hd hp hk ha hc hq => hg.call hd hp hk ha hc hq) h apart _ (Pool.disciplined_idle _ _ s _)
      attuned
  exact ⟨m, v, hh, hl⟩

/-! ## Two uploads of one object -/

def calm (p : Pool (requests d) Stores) : Bool :=
  p.tasks.all fun t =>
    match t.rest with
    | .call (.inr (.delete _)) _ => false
    | _ => true

theorem apart_of_calm {p : Pool (requests d) Stores} (h : calm p = true) : Apart p := by
  intro oid t _ u hu _ hd
  obtain ⟨next, hnext⟩ := hd
  have hc := List.all_eq_true.mp h u hu
  rw [hnext] at hc
  cases hc

namespace Sample

def sharing : List ((Fresh × Request) ⊕ Nat) :=
  [.inl (fresh, announcement "3"), .inr 0, .inr 0, .inr 0,
    .inl (fresh, upload), .inr 1, .inl (fresh, upload), .inr 2, .inr 1, .inr 2, .inr 1, .inr 2,
    .inr 1, .inr 2, .inr 1, .inr 2, .inr 1, .inr 2]

end Sample

open Sample in
theorem verified_after_sharing : Empty unused ∧ ∃ q : Pool (requests depot) Stores,
    Pool.Reaches (stores.orFailing failure) Apart (.idle _ unused) q ∧ q.AtRest ∧ q.tasks.length = 3 ∧
    Verified q.state := by
  have empty : Empty unused := ⟨.inl rfl, .inl rfl⟩
  obtain ⟨q, hq, hrest⟩ := Option.map_eq_some_iff.mp (show
    ((Pool.idle (requests depot) unused).drive? stores calm sharing).map
      (fun q => decide (q.AtRest ∧ q.tasks.length = 3)) = some true by decide +kernel)
  obtain ⟨hrest, hthree⟩ := of_decide_eq_true hrest
  have reached : Pool.Reaches (stores.orFailing failure) Apart (.idle _ unused) q :=
    Pool.reaches_drive (fun _ _ => .inl rfl) (fun _ h => apart_of_calm h) hq
  exact ⟨empty, q, reached, hrest, hthree, verified_of_apart empty reached⟩

/-! ## An upload and a removal of one object -/

def moves (r : Request) : Bool :=
  match Route.ofPath? r.path with
  | some (.objects _ _) | some (.batch _ _) => r.method == "POST"
  | some (.object _ _ _) => r.method == "PUT"
  | some (.projectObject _ _) => r.method == "DELETE"
  | _ => false

/-- The bytes of some committed object are not as many as its record says. -/
def misstated (s : Stores) : Bool :=
  match (stores (.inl .listObjects) s).1 with
  | Except.ok records => records.any fun r => r.isCommitted &&
      match (stores (.inr (.openBlob r.oid)) s).1 with
      | Except.ok (some body) => body.length != r.size
      | _ => false
  | Except.error _ => false

theorem not_verified_of_misstated {s : Stores} (h : misstated s = true) : ¬ Verified s := by
  intro hv
  obtain ⟨records, hrecords, hb⟩ := hv
  unfold misstated at h
  rw [hrecords] at h
  obtain ⟨r, hr, h⟩ := List.any_eq_true.mp h
  obtain ⟨hc, h⟩ := Bool.and_eq_true_iff.mp h
  obtain ⟨b, hopen, -, hsize⟩ := hb r hr hc
  rw [hopen] at h
  have : (Stream.ofBytes b).length = b.size := rfl
  simp [this, hsize] at h

namespace Sample

/-- Between the first call of an upload and its second, the object is removed and announced with another size. -/
def crossing : List ((Fresh × Request) ⊕ Nat) :=
  [.inl (fresh, announcement "3"), .inr 0, .inr 0, .inr 0,
    .inl (fresh, upload), .inr 1,
    .inl (fresh, removal), .inr 2, .inr 2, .inr 2, .inr 2, .inr 2, .inr 2,
    .inl (fresh, announcement "4"), .inr 3, .inr 3, .inr 3,
    .inr 1, .inr 1, .inr 1, .inr 1, .inr 1]

end Sample

open Sample in
theorem unverified_at_rest : ¬ ∀ {d : Depot} {s : Stores} {q : Pool (requests d) Stores}, Empty s →
    Pool.Reaches stores.exactly (fun _ => True) (.idle _ s) q → (∀ t ∈ q.tasks, moves t.job.2 = true) →
    q.AtRest → Verified q.state := by
  intro h
  obtain ⟨q, hq, hend⟩ := Option.map_eq_some_iff.mp (show
    ((Pool.idle (requests depot) unused).drive? stores (fun _ => true) crossing).map
      (fun q => decide (q.AtRest) && q.tasks.all (fun t => moves t.job.2) && misstated q.state) =
        some true by
        decide +kernel)
  obtain ⟨hend, hwrong⟩ := Bool.and_eq_true_iff.mp hend
  obtain ⟨hrest, hmoves⟩ := Bool.and_eq_true_iff.mp hend
  have reached : Pool.Reaches stores.exactly (fun _ => True) (.idle _ unused) q :=
    Pool.reaches_drive (fun _ _ => rfl) (fun _ _ => trivial) hq
  refine not_verified_of_misstated hwrong (h ⟨.inl rfl, .inl rfl⟩ reached ?_ (of_decide_eq_true hrest))
  exact List.all_eq_true.mp hmoves

end BlobDepot.Depot
