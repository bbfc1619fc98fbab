import BlobDepot.Depot
import BlobDepot.Proofs.Changes
import BlobDepot.Proofs.Disciplines
import BlobDepot.Proofs.Transactions
import BlobDepot.Proofs.Vaults

/-!
# Who has an object in custody

A request goes through phases with respect to one object: it uploads its bytes, or it discards them, or it
leaves them alone. In each phase only some calls are made, and something is known of the stores. So the
record of an object is committed only while the vault has its bytes.
-/

namespace BlobDepot.Depot

open Catalog (Backing)

abbrev Stores :=
  Backing × Vault.Store

def stores : Handler interface Stores :=
  Handler.sum Backing.handle Vault.Store.handle

def failure : (op : interface.Op) → interface.Answer op → Prop
  | .inl op, x => Catalog.failure op x
  | .inr _, x => ∃ e, x = Except.error e

/-! ## What is kept -/

def Kept (v : Vault.Memory) (oid : Oid) (size : Int) : Prop :=
  ∃ b : ByteArray, v.blobs.get? oid = some b ∧ Oid.ofContent b = oid ∧ (b.size : Int) = size

/-- If the object is committed, its bytes are kept. -/
def Sound (oid : Oid) (m : Catalog.Memory) (v : Vault.Memory) : Prop :=
  ∀ r, m.objects.get? oid = some r → r.isCommitted = true → Kept v oid r.size

/-! ## Phases -/

inductive Phase where
  | away
  | seeking
  /-- The record has been found, and the size that it declares. -/
  | found (size : Int)
  | stored (size : Int)
  /-- The record has been deleted, and the bytes are next. -/
  | clearing
  deriving DecidableEq

namespace Phase

def Uploading : Phase → Prop
  | away | clearing => False
  | seeking | found _ | stored _ => True

def Knows (oid : Oid) (m : Catalog.Memory) (v : Vault.Memory) : Phase → Prop
  | away | seeking => True
  | found size => ∃ r, m.objects.get? oid = some r ∧ r.size = size
  | stored size => (∃ r, m.objects.get? oid = some r ∧ r.size = size) ∧ Kept v oid size
  | clearing => ∀ r, m.objects.get? oid = some r → r.isCommitted = false

def advance (oid : Oid) (f : Phase) : (op : interface.Op) → interface.Answer op → Phase
  | .inl (.readObject o), (Except.ok (some r)) => if o = oid ∧ f = seeking then found r.size else f
  | .inl (.deleteObject o), (Except.ok true) => if o = oid then clearing else f
  | .inr (.write o _ _), (Except.ok ()) =>
    match f with
    | found size => if o = oid then stored size else f
    | _ => f
  | .inr (.delete o), _ => if o = oid then away else f
  | _, _ => f

end Phase

/-- Calls that do not touch the bytes of an object, nor delete or commit its record. -/
def Mild (oid : Oid) : interface.Op → Prop
  | .inl (.insertObject r) => r.state = .pending
  | .inl (.setObjectState o _) => o ≠ oid
  | .inl (.deleteObject o) => o ≠ oid
  | .inl .close => False
  | .inr (.write o _ _) => o ≠ oid
  | .inr (.delete o) => o ≠ oid
  | _ => True

inductive Permitted (oid : Oid) : interface.Op → Phase → Prop
  | mild {op : interface.Op} {f : Phase} : Mild oid op → f ≠ .clearing → Permitted oid op f
  | delete : Permitted oid (.inl (.deleteObject oid)) .away
  | write {b : ByteArray} : Oid.ofContent b = oid →
    Permitted oid (.inr (.write oid (Stream.ofBytes b) b.size)) (.found b.size)
  | commit {size : Int} : Permitted oid (.inl (.setObjectState oid .committed)) (.stored size)
  | discard : Permitted oid (.inr (.delete oid)) .clearing

/-- A record that is read is one of the object that was asked for. -/
def Plausible : (op : interface.Op) → interface.Answer op → Prop
  | .inl op, x => Catalog.Plausible op x
  | .inr _, _ => True

def custody (oid : Oid) : Discipline interface Phase where
  allows := Permitted oid
  leads op f x f' := Plausible op x ∧ f' = f.advance oid op x

/-! ## Memories in place of stores -/

def Holds (s : Stores) (m : Catalog.Memory) (v : Vault.Memory) : Prop :=
  s.1.Holds m ∧ s.2.Holds v

def memories : Handler interface (Catalog.Memory × Vault.Memory) :=
  Handler.sum Catalog.Memory.handle Vault.Memory.handle

variable {oid : Oid} {op : interface.Op} {x : interface.Answer op} {s s' : Stores}
  {m m' : Catalog.Memory} {v v' : Vault.Memory} {f g : Phase}

theorem Holds.handle (h : Holds s m v) (hop : op ≠ .inl .close) :
    (stores op s).1 = (memories op (m, v)).1 ∧
      Holds (stores op s).2 (memories op (m, v)).2.1 (memories op (m, v)).2.2 := by
  cases op with
  | inl op =>
    have hc : op ≠ .close := by intro e; exact hop (by rw [e])
    obtain ⟨ha, hs⟩ := Backing.handle_holds h.1 hc
    exact ⟨ha, hs, h.2⟩
  | inr op =>
    obtain ⟨ha, hs⟩ := Vault.Store.handle_holds h.2 op
    exact ⟨ha, h.1, hs⟩

theorem Holds.step (h : Holds s m v) (hop : op ≠ .inl .close) (ht : stores.orFailing failure op s x s') :
    ∃ m' v', memories.orFailing failure op (m, v) x (m', v') ∧ Holds s' m' v' := by
  obtain ⟨ha, hs⟩ := h.handle hop
  obtain ⟨u, ht, hs⟩ := Handler.orFailing_related (fun s (u : Catalog.Memory × Vault.Memory) => Holds s u.1 u.2)
    h ha hs ht
  exact ⟨u.1, u.2, ht, hs⟩

theorem ne_close (h : Permitted oid op f) : op ≠ .inl .close := by
  intro e
  subst e
  cases h with
  | mild h _ => exact h

/-! ## Calls that leave an object alone -/

/-- The record of an object keeps its size and is not committed, and the bytes stay. -/
structure Undisturbed (oid : Oid) (m : Catalog.Memory) (v : Vault.Memory) (m' : Catalog.Memory)
    (v' : Vault.Memory) :
    Prop where
  record : ∀ r, m.objects.get? oid = some r →
    ∃ r', m'.objects.get? oid = some r' ∧ r'.size = r.size ∧ r'.isCommitted = r.isCommitted
  fresh : m.objects.get? oid = none → ∀ r, m'.objects.get? oid = some r → r.isCommitted = false
  blob : v'.blobs.get? oid = v.blobs.get? oid

theorem Undisturbed.refl (oid : Oid) (m : Catalog.Memory) (v : Vault.Memory) : Undisturbed oid m v m v where
  record r h := ⟨r, h, rfl, rfl⟩
  fresh hn r h := by rw [hn] at h; cases h
  blob := rfl

theorem Mild.undisturbed (h : Mild oid op) (ht : memories.orFailing failure op (m, v) x (m', v')) :
    Undisturbed oid m v m' v' := by
  rcases ht with ht | ⟨-, e⟩
  · cases op with
    | inl op =>
      obtain ⟨-, e⟩ := Prod.mk.inj ht
      obtain ⟨rfl, rfl⟩ : (m.respond op).2 = m' ∧ v = v' := Prod.mk.inj e
      refine ⟨fun r hr => ?_, fun hn r hr => ?_, rfl⟩
      · have hd : op ≠ .deleteObject oid := by intro e; subst e; exact h rfl
        obtain ⟨r', hr', hs⟩ := Catalog.Memory.successor op hr hd
        refine ⟨r', hr', hs.size, ?_⟩
        rcases hs.state with hst | rfl
        · unfold ObjectRecord.isCommitted; rw [hst]
        · exact absurd rfl h
      · obtain ⟨r', rfl, -, rfl⟩ := Catalog.Memory.origin hn hr
        show ObjectState.isCommitted r'.state = false
        rw [show r'.state = .pending from h]; rfl
    | inr op =>
      obtain ⟨-, e⟩ := Prod.mk.inj ht
      obtain ⟨rfl, rfl⟩ : m = m' ∧ (Vault.Memory.handle op v).2 = v' := Prod.mk.inj e
      refine ⟨fun r hr => ⟨r, hr, rfl, rfl⟩, (fun hn r hr => by rw [hn] at hr; cases hr), ?_⟩
      cases op with
      | openBlob o => rfl
      | size o => rfl
      | write o source length =>
        simp only [Vault.Memory.handle]
        cases Vault.Memory.readExactly source length with
        | error e => rfl
        | ok b => exact SortedMap.get?_insert_of_ne _ _ (fun e => h e.symm)
      | delete o =>
        show (v.blobs.erase o).get? oid = _
        rw [SortedMap.get?_erase, if_neg fun e => h e.symm]
  · obtain ⟨rfl, rfl⟩ := Prod.mk.inj e
    exact .refl _ _ _

theorem Undisturbed.kept (h : Undisturbed oid m v m' v') {size : Int} (hk : Kept v oid size) :
    Kept v' oid size := by
  unfold Kept at hk ⊢
  rw [h.blob]; exact hk

theorem Undisturbed.sound (h : Undisturbed oid m v m' v') (hs : Sound oid m v) : Sound oid m' v' := by
  intro r' hr' hc
  cases hr : m.objects.get? oid with
  | none =>
    rw [h.fresh hr r' hr'] at hc; cases hc
  | some r =>
    obtain ⟨r'', hr'', hsize, hcom⟩ := h.record r hr
    rw [hr'] at hr''
    cases hr''
    rw [hsize]
    exact h.kept (hs r hr (hcom ▸ hc))

theorem Undisturbed.knows (h : Undisturbed oid m v m' v') (hf : f.Knows oid m v) : f.Knows oid m' v' := by
  have found : ∀ {size : Int}, (∃ r, m.objects.get? oid = some r ∧ r.size = size) →
      ∃ r, m'.objects.get? oid = some r ∧ r.size = size := by
    intro size hr
    obtain ⟨r, hr, hsize⟩ := hr
    obtain ⟨r', hr', hsize', -⟩ := h.record r hr
    exact ⟨r', hr', hsize'.trans hsize⟩
  cases f with
  | away => trivial
  | seeking => trivial
  | found size => exact found hf
  | stored size => exact ⟨found hf.1, h.kept hf.2⟩
  | clearing =>
    intro r' hr'
    cases hr : m.objects.get? oid with
    | none => exact h.fresh hr r' hr'
    | some r =>
      obtain ⟨r'', hr'', -, hcom⟩ := h.record r hr
      rw [hr'] at hr''
      cases hr''
      rw [hcom]; exact hf r hr

/-! ## Calls in custody -/

/-- A call that fails changes neither the stores nor, but for a discarding, the phase. -/
theorem failing (oid : Oid) (f : Phase) (hx : failure op x) :
    f.advance oid op x = f ∨ f.advance oid op x = .away := by
  cases op with
  | inl op =>
    obtain ⟨e, rfl⟩ := hx
    cases op <;> exact .inl rfl
  | inr op =>
    obtain ⟨e, rfl⟩ := hx
    cases op with
    | delete o =>
      show (if o = oid then Phase.away else f) = f ∨ (if o = oid then Phase.away else f) = .away
      split
      · exact .inr rfl
      · exact .inl rfl
    | openBlob o => exact .inl rfl
    | write o source length => exact .inl rfl
    | size o => exact .inl rfl

theorem plausible_of_handle (hk : m.Keyed) (ht : memories.orFailing failure op (m, v) x (m', v')) :
    Plausible op x := by
  cases op with
  | inl op =>
    have hc : Handler.orFailing Catalog.failure Catalog.Memory.handle op m x m' := by
      rcases ht with ht | ⟨hx, e⟩
      · obtain ⟨hx, e⟩ := Prod.mk.inj ht
        exact .inl (Prod.ext hx (Prod.mk.inj e).1)
      · exact .inr ⟨hx, (Prod.mk.inj e).1⟩
    exact Catalog.plausible_of_handle hk hc
  | inr op => trivial

theorem advance_write_of_ne {o : Oid} {source : Stream} {length : Nat} (h : o ≠ oid)
    (x : Except VaultError Unit) :
    f.advance oid (.inr (.write o source length)) x = f := by
  cases x with
  | error e => rfl
  | ok u =>
    show (match f with
      | .found size => if o = oid then Phase.stored size else f
      | _ => f) = f
    split
    · exact if_neg h
    · rfl

theorem Mild.advance (h : Mild oid op) (ht : memories.orFailing failure op (m, v) x (m', v')) :
    f.advance oid op x = f ∨
      ∃ r, m'.objects.get? oid = some r ∧ f = .seeking ∧ f.advance oid op x = .found r.size := by
  rcases ht with ht | ⟨hx, -⟩
  · cases op with
    | inl op =>
      obtain ⟨rfl, e⟩ := Prod.mk.inj ht
      obtain ⟨rfl, rfl⟩ : (m.respond op).2 = m' ∧ v = v' := Prod.mk.inj e
      cases op with
      | readObject o =>
        show Phase.advance oid f (.inl (.readObject o)) (Except.ok (m.objects.get? o)) = f ∨
          ∃ r, m.objects.get? oid = some r ∧ f = .seeking ∧
            Phase.advance oid f (.inl (.readObject o)) (Except.ok (m.objects.get? o)) = .found r.size
        cases ho : m.objects.get? o with
        | none => exact .inl rfl
        | some r =>
          show (if o = oid ∧ f = .seeking then Phase.found r.size else f) = f ∨
            ∃ r', m.objects.get? oid = some r' ∧
            f = .seeking ∧ (if o = oid ∧ f = .seeking then Phase.found r.size else f) = .found r'.size
          by_cases hf : o = oid ∧ f = .seeking
          · rw [if_pos hf]
            exact .inr ⟨r, hf.1 ▸ ho, hf.2, rfl⟩
          · rw [if_neg hf]
            exact .inl rfl
      | deleteObject o =>
        left
        show Phase.advance oid f (.inl (.deleteObject o)) (Except.ok (m.objects.contains o)) = f
        cases m.objects.contains o with
        | false => rfl
        | true => exact if_neg h
      | _ => exact .inl rfl
    | inr op =>
      left
      cases op with
      | write o source length => exact advance_write_of_ne h x
      | delete o => exact if_neg h
      | openBlob o => rfl
      | size o => rfl
  · rcases failing oid f hx with h' | h'
    · exact .inl h'
    · cases op with
      | inl op =>
        obtain ⟨e, rfl⟩ := hx
        cases op <;> exact .inl rfl
      | inr op =>
        cases op with
        | delete o => exact .inl (if_neg h)
        | _ =>
          obtain ⟨e, rfl⟩ := hx
          exact .inl rfl

theorem memories_write (b : ByteArray) :
    memories (.inr (.write oid (Stream.ofBytes b) b.size)) (m, v) =
      (.ok (), m, ⟨v.blobs.insert oid b⟩) := by
  show ((Vault.Memory.handle (.write oid (Stream.ofBytes b) b.size) v).1,
    m, (Vault.Memory.handle (.write oid (Stream.ofBytes b) b.size) v).2) = _
  simp only [Vault.Memory.handle, Vault.Memory.readExactly_ofBytes]
  rfl

theorem kept_insert {b : ByteArray} (h : Oid.ofContent b = oid) : Kept ⟨v.blobs.insert oid b⟩ oid b.size :=
  ⟨b, SortedMap.get?_insert_self _ _ _, h, rfl⟩

theorem found_commit {size : Int} (h : ∃ r, m.objects.get? oid = some r ∧ r.size = size) :
    ∃ r, (m.respond (.setObjectState oid .committed)).2.objects.get? oid = some r ∧ r.size = size := by
  obtain ⟨r, hr, hsize⟩ := h
  obtain ⟨r', hr', hs⟩ := Catalog.Memory.successor (.setObjectState oid .committed) hr (by simp)
  exact ⟨r', hr', hs.size.trans hsize⟩

namespace Phase.Knows

theorem failing (h : f.Knows oid m v) (hx : failure op x) : (f.advance oid op x).Knows oid m v := by
  rcases Depot.failing oid f hx with e | e
  · rw [e]; exact h
  · rw [e]; trivial

theorem delete (h : f.Knows oid m v) (hu : ∀ r, m.objects.get? oid = some r → ¬ f.Uploading) :
    f.Knows oid (m.respond (.deleteObject oid)).2 v := by
  cases f with
  | away => trivial
  | seeking => trivial
  | found size =>
    obtain ⟨r, hr, -⟩ := h
    exact absurd trivial (hu r hr)
  | stored size =>
    obtain ⟨⟨r, hr, -⟩, -⟩ := h
    exact absurd trivial (hu r hr)
  | clearing =>
    intro r hr
    rw [Catalog.Memory.objects_deleteObject] at hr
    cases hr

theorem write {b : ByteArray} {r : ObjectRecord} (h : f.Knows oid m v) (hb : Oid.ofContent b = oid)
    (hr : m.objects.get? oid = some r) (hsize : r.size = b.size) :
    f.Knows oid m ⟨v.blobs.insert oid b⟩ := by
  cases f with
  | stored size =>
    obtain ⟨⟨r', hr', hsize'⟩, -⟩ := h
    have : size = b.size := by
      rw [hr] at hr'
      cases hr'
      rw [← hsize', hsize]
    exact ⟨⟨r', hr', hsize'⟩, this ▸ kept_insert hb⟩
  | _ => exact h

theorem commit (h : f.Knows oid m v) (hc : f ≠ .clearing) :
    f.Knows oid (m.respond (.setObjectState oid .committed)).2 v := by
  cases f with
  | away => trivial
  | seeking => trivial
  | found size => exact found_commit h
  | stored size => exact ⟨found_commit h.1, h.2⟩
  | clearing => exact absurd rfl hc

theorem discard {v' : Vault.Memory} (h : f.Knows oid m v) (hu : ¬ f.Uploading) : f.Knows oid m v' := by
  cases f with
  | stored size => exact absurd trivial hu
  | _ => exact h

end Phase.Knows

/-- A call in custody keeps the law, and leads to a phase in which what is known is so. -/
theorem Permitted.keeps (ha : Permitted oid op f) (hs : Sound oid m v) (hf : f.Knows oid m v)
    (ht : memories.orFailing failure op (m, v) x (m', v')) :
    Sound oid m' v' ∧ (f.advance oid op x).Knows oid m' v' := by
  rcases ht with ht | ⟨hx, e⟩
  · cases ha with
    | mild hm _ =>
      have hu := hm.undisturbed (.inl ht)
      refine ⟨hu.sound hs, ?_⟩
      rcases hm.advance (.inl ht) with h | ⟨r, hr, -, h⟩
      · rw [h]; exact hu.knows hf
      · rw [h]; exact ⟨r, hr, rfl⟩
    | delete =>
      obtain ⟨rfl, e⟩ := Prod.mk.inj ht
      obtain ⟨rfl, rfl⟩ : (m.respond (.deleteObject oid)).2 = m' ∧ v = v' := Prod.mk.inj e
      have gone : ∀ r, (m.respond (.deleteObject oid)).2.objects.get? oid ≠ some r := by
        intro r hr
        rw [Catalog.Memory.objects_deleteObject] at hr
        cases hr
      refine ⟨fun r hr => absurd hr (gone r), ?_⟩
      show (Phase.advance oid .away (.inl (.deleteObject oid))
          (Except.ok (m.objects.contains oid))).Knows oid _ _
      cases m.objects.contains oid with
      | false => trivial
      | true =>
        show (if oid = oid then Phase.clearing else Phase.away).Knows oid _ _
        rw [if_pos rfl]
        exact fun r hr => absurd hr (gone r)
    | @write b hb =>
      rw [memories_write] at ht
      obtain ⟨rfl, e⟩ := Prod.mk.inj ht
      obtain ⟨rfl, rfl⟩ := Prod.mk.inj e
      obtain ⟨r, hr, hsize⟩ := hf
      refine ⟨fun r' hr' _ => ?_, ?_⟩
      · rw [hr] at hr'
        cases hr'
        rw [hsize]; exact kept_insert hb
      · show (if oid = oid then Phase.stored b.size else .found b.size).Knows oid _ _
        rw [if_pos rfl]
        exact ⟨⟨r, hr, hsize⟩, kept_insert hb⟩
    | @commit size =>
      obtain ⟨hfound, hkept⟩ := hf
      obtain ⟨rfl, e⟩ := Prod.mk.inj ht
      obtain ⟨rfl, rfl⟩ : (m.respond (.setObjectState oid .committed)).2 = m' ∧ v = v' := Prod.mk.inj e
      -- The record still declares as many bytes as have been stored.
      obtain ⟨r, hr, hsize⟩ := found_commit hfound
      refine ⟨fun r' hr' _ => ?_, ⟨r, hr, hsize⟩, hkept⟩
      rw [hr] at hr'
      cases hr'
      rw [hsize]; exact hkept
    | discard =>
      obtain ⟨-, e⟩ := Prod.mk.inj ht
      obtain ⟨rfl, rfl⟩ : m = m' ∧ (Vault.Memory.handle (.delete oid) v).2 = v' := Prod.mk.inj e
      refine ⟨fun r hr hc => ?_, ?_⟩
      · rw [hf r hr] at hc; cases hc
      · show (if oid = oid then Phase.away else Phase.clearing).Knows oid _ _
        rw [if_pos rfl]; trivial
  · obtain ⟨rfl, rfl⟩ := Prod.mk.inj e
    exact ⟨hs, hf.failing hx⟩

/-- What is known in one phase is still so after a call in another, unless one of the two uploads the object
while the other discards it. -/
theorem Permitted.spares (ha : Permitted oid op f) (hf : f.Knows oid m v) (hg : g.Knows oid m v)
    (ht : memories.orFailing failure op (m, v) x (m', v'))
    (hup : g.Uploading → f ≠ .clearing ∧ f.advance oid op x ≠ .clearing)
    (hclear : g = .clearing → ¬ f.Uploading) :
    g.Knows oid m' v' := by
  rcases ht with ht | ⟨-, e⟩
  · cases ha with
    | mild hm _ => exact (hm.undisturbed (.inl ht)).knows hg
    | delete =>
      obtain ⟨rfl, e⟩ := Prod.mk.inj ht
      obtain ⟨rfl, rfl⟩ : (m.respond (.deleteObject oid)).2 = m' ∧ v = v' := Prod.mk.inj e
      refine hg.delete fun r hr hu => (hup hu).2 ?_
      show Phase.advance oid .away (.inl (.deleteObject oid)) (Except.ok (m.objects.contains oid)) = _
      rw [SortedMap.contains_iff.mpr ⟨r, hr⟩]
      exact if_pos rfl
    | @write b hb =>
      rw [memories_write] at ht
      obtain ⟨-, e⟩ := Prod.mk.inj ht
      obtain ⟨rfl, rfl⟩ := Prod.mk.inj e
      -- The record is the one that both have found, so both store as many bytes.
      obtain ⟨r, hr, hsize⟩ := hf
      exact hg.write hb hr hsize
    | commit =>
      obtain ⟨-, e⟩ := Prod.mk.inj ht
      obtain ⟨rfl, rfl⟩ : (m.respond (.setObjectState oid .committed)).2 = m' ∧ v = v' := Prod.mk.inj e
      exact hg.commit fun hc => hclear hc trivial
    | discard =>
      obtain ⟨-, e⟩ := Prod.mk.inj ht
      obtain ⟨rfl, -⟩ : m = m' ∧ (Vault.Memory.handle (.delete oid) v).2 = v' := Prod.mk.inj e
      exact hg.discard fun hu => (hup hu).1 rfl
  · obtain ⟨rfl, rfl⟩ := Prod.mk.inj e
    exact hg

end BlobDepot.Depot
