import BlobDepot.Proofs.Runs
import BlobDepot.Vault.Upload

/-!
# What uploads come to

An upload of a stream comes to what `verify` says of its bytes, whatever the reads in which they come and
wherever they are spooled: `put_eq`.
-/

namespace BlobDepot

namespace Prog

/-! ## Programs that are supplied -/

variable {I J : Interface} {σ ε α β : Type} (h : Handler I σ)

theorem supply_bind (p : Prog (I.sum J) α) (f : α → Prog (I.sum J) β) (s : σ) :
    (p.bind f).supply h s = (p.supply h s).bind fun x => (f x.1).supply h x.2 := by
  induction p generalizing s with
  | done a => rfl
  | call op next ih =>
    cases op with
    | inl op => exact ih _ _
    | inr op => exact congrArg (call op) (funext fun x => ih x s)

theorem supply_right (p : Prog J α) (s : σ) :
    (right p : Prog (I.sum J) α).supply h s = p.bind fun a => done (a, s) := by
  induction p with
  | done a => rfl
  | call op next ih => exact congrArg (call op) (funext fun x => ih x)

theorem supply_run_bind (p : ExceptT ε (Prog (I.sum J)) α) (k : α → ExceptT ε (Prog (I.sum J)) β) (s : σ) :
    (p >>= k).run.supply h s = (p.run.supply h s).bind fun x =>
      match x with
      | (.ok a, s) => (k a).run.supply h s
      | (.error e, s) => done (.error e, s) := by
  rw [ExceptT.run_bind]
  show (p.run.bind _).supply h s = _
  rw [supply_bind]
  congr 1
  funext x
  obtain ⟨a | e, s⟩ := x <;> rfl

/-- Calls that are answered first may as well be answered in turn. -/
theorem run_sum_supply {τ : Type} (k : Handler J τ) (p : Prog (I.sum J) α) (s : σ) (t : τ) :
    p.run (h.sum k) (s, t) =
      (((p.supply h s).run k t).1.1, ((p.supply h s).run k t).1.2, ((p.supply h s).run k t).2) := by
  induction p generalizing s t with
  | done a => rfl
  | call op next ih =>
    cases op with
    | inl op => exact ih _ _ _
    | inr op => exact ih _ _ _

theorem map_fst_bind (p : Prog I α) (s : σ) : Prod.fst <$> (p.bind fun a => done (a, s)) = p := by
  rw [map_eq_pure_bind]
  show (p.bind _).bind _ = p
  rw [bind_assoc]
  exact bind_done p

end Prog

/-! ## Buffers -/

namespace Stream

def Filled (s : Stream) : Prop :=
  ∀ b, Read.bytes b ∈ s → b.size ≠ 0

theorem Filled.tail {x : Read} {s : Stream} (h : Filled (x :: s)) : Filled s :=
  fun b hb => h b (List.mem_cons_of_mem x hb)

theorem filled_buffered (s : Stream) : Filled s.buffered := by
  intro b hb
  unfold buffered at hb
  obtain ⟨x, -, hx⟩ := List.mem_flatMap.mp hb
  cases x with
  | fault f => simp at hx
  | bytes c =>
    obtain ⟨c', hc', e⟩ := List.mem_map.mp hx
    cases e
    unfold buffers at hc'
    obtain ⟨i, hi, rfl⟩ := List.mem_map.mp hc'
    have hlt : i * bufferSize < c.size := by
      have := List.mem_range.mp hi
      unfold bufferSize at *
      omega
    rw [ByteArray.size_extract]
    unfold bufferSize at *
    omega

theorem collect_append (s r : Stream) (acc : ByteArray) :
    collect (s ++ r) acc = (collect s acc).bind (collect r) := by
  induction s generalizing acc with
  | nil => rfl
  | cons x s ih =>
    cases x with
    | bytes b => exact ih (acc ++ b)
    | fault f => rfl

theorem collect_buffers (b acc : ByteArray) : collect ((buffers b).map .bytes) acc = .ok (acc ++ b) := by
  -- The first `n` buffers hold the first bytes, up to the end of the last buffer.
  have first : ∀ n, collect (((List.range n).map fun i =>
      b.extract (i * bufferSize) ((i + 1) * bufferSize)).map .bytes) acc =
        .ok (acc ++ b.extract 0 (n * bufferSize)) := by
    intro n
    induction n with
    | zero => simp [collect]
    | succ n ih =>
      rw [List.range_succ, List.map_append, List.map_append, collect_append, ih]
      show Except.ok (acc ++ _ ++ _) = _
      rw [ByteArray.append_assoc, ← ByteArray.extract_eq_extract_append_extract _ (Nat.zero_le _)]
      exact Nat.mul_le_mul_right _ (Nat.le_succ n)
  have whole : b.extract 0 ((b.size + bufferSize - 1) / bufferSize * bufferSize) = b := by
    have hle : b.size ≤ (b.size + bufferSize - 1) / bufferSize * bufferSize := by
      unfold bufferSize
      omega
    rw [← Nat.max_eq_left hle]
    exact ByteArray.extract_zero_max_size
  exact (first _).trans (by rw [whole])

theorem collect_buffered (s : Stream) (acc : ByteArray) : collect s.buffered acc = collect s acc := by
  induction s generalizing acc with
  | nil => rfl
  | cons x s ih =>
    unfold buffered
    rw [List.flatMap_cons, collect_append]
    cases x with
    | bytes b =>
      rw [collect_buffers]
      exact ih (acc ++ b)
    | fault f => rfl

theorem size_le_of_collect {b : ByteArray} : ∀ {s : Stream} {acc : ByteArray}, collect s acc = .ok b →
    acc.size ≤ b.size
  | [], acc, h => by
    cases h
    exact Nat.le_refl _
  | .bytes c :: s, acc, h => by
    have hle := size_le_of_collect (s := s) h
    rw [ByteArray.size_append] at hle
    omega
  | .fault f :: s, acc, h => by cases h

end Stream

namespace Vault

/-! ## Uploads of streams -/

/-- What the reads of a stream come to, at its end or when they have brought more than has been declared. -/
def gather (declared : Nat) : Stream → ByteArray → Except VaultError ByteArray
  | [], acc => .ok acc
  | .bytes b :: r, acc =>
    if declared < acc.size + b.size then .error (.sizeMismatch declared (acc.size + b.size))
    else gather declared r (acc ++ b)
  | .fault f :: _, _ => .error (.io f)

theorem gather_ok {declared : Nat} {b : ByteArray} : ∀ {s : Stream} {acc : ByteArray}, acc.size ≤ declared →
    (gather declared s acc = .ok b ↔ s.collect acc = .ok b ∧ b.size ≤ declared)
  | [], acc, hacc => by
    unfold gather Stream.collect
    rw [Except.ok.injEq, Except.ok.injEq]
    constructor
    · intro h
      subst h
      exact ⟨rfl, hacc⟩
    · intro h
      exact h.1
  | .fault f :: s, acc, _ => by simp [gather, Stream.collect]
  | .bytes c :: s, acc, hacc => by
    unfold gather Stream.collect
    by_cases hexcess : declared < acc.size + c.size
    · rw [if_pos hexcess]
      constructor
      · intro h
        cases h
      · intro h
        have hle := Stream.size_le_of_collect h.1
        rw [ByteArray.size_append] at hle
        omega
    · rw [if_neg hexcess]
      refine gather_ok ?_
      rw [ByteArray.size_append]
      omega

def verify (record : ObjectRecord) (body : Stream) : Except VaultError ByteArray :=
  if record.size < 0 then .error (.sizeMismatch record.size 0)
  else do
    let bytes ← gather record.size.toNat body.buffered .empty
    Upload.check record ⟨bytes⟩
    pure bytes

namespace Upload

open Prog

theorem Spool.bytes_append (s : Spool) (chunk : ByteArray) : (s.append chunk).bytes = s.bytes ++ chunk := by
  cases s <;> rfl

theorem Spool.bytes_ofSize (limit declared : Nat) : (Spool.ofSize limit declared).bytes = .empty := by
  unfold ofSize
  split <;> rfl

theorem supply_read (s : Stream) :
    read.run.supply next s = .done ((next () s).1.mapError VaultError.io, (next () s).2) := rfl

def proceed (declared : Nat) (hasher : Hasher) (spool : Spool) (chunk : ByteArray) : UploadM (Hasher × Spool) :=
  if chunk.size = 0 then pure (hasher, spool)
  else if declared < (hasher.update chunk).count then
    throw (.sizeMismatch declared (hasher.update chunk).count)
  else receive declared (hasher.update chunk) (spool.append chunk)

theorem receive_eq (declared : Nat) (hasher : Hasher) (spool : Spool) :
    receive declared hasher spool = read >>= proceed declared hasher spool := by
  rw [receive]
  rfl

/-- The reads of a stream are hashed and spooled alike. -/
theorem supply_receive (declared : Nat) : ∀ {s : Stream} (hasher : Hasher) {spool : Spool}, s.Filled →
    spool.bytes = hasher.data → ∃ rest, match gather declared s hasher.data with
      | .ok b => ∃ spool', spool'.bytes = b ∧
          (receive declared hasher spool).run.supply next s = .done (.ok (⟨b⟩, spool'), rest)
      | .error e => (receive declared hasher spool).run.supply next s = .done (.error e, rest)
  | [], hasher, spool, _, hspool => by
    rw [receive_eq, supply_run_bind, supply_read]
    exact ⟨[], spool, hspool, rfl⟩
  | .fault f :: r, hasher, spool, _, _ => by
    rw [receive_eq, supply_run_bind, supply_read]
    exact ⟨r, rfl⟩
  | .bytes b :: r, hasher, spool, hs, hspool => by
    have hcount : (hasher.update b).count = hasher.data.size + b.size := hasher.count_update b
    have hproceed : (receive declared hasher spool).run.supply next (.bytes b :: r) =
        (proceed declared hasher spool b).run.supply next r := by
      rw [receive_eq, supply_run_bind, supply_read]
      rfl
    rw [hproceed]
    unfold gather proceed
    rw [if_neg (hs b List.mem_cons_self), hcount]
    by_cases hexcess : declared < hasher.data.size + b.size
    · rw [if_pos hexcess, if_pos hexcess]
      exact ⟨r, rfl⟩
    · rw [if_neg hexcess, if_neg hexcess]
      refine supply_receive declared (hasher.update b) hs.tail ?_
      rw [Spool.bytes_append, hspool]
      rfl

theorem check_ok {record : ObjectRecord} {b : ByteArray} (hsize : 0 ≤ record.size) :
    check record ⟨b⟩ = .ok () ↔ (b.size : Int) = record.size ∧ Oid.ofContent b = record.oid := by
  unfold check
  have hcount : b.size = record.size.toNat ↔ (b.size : Int) = record.size := by omega
  show (if b.size ≠ _ then _ else if Oid.ofContent b ≠ _ then _ else _) = _ ↔ _
  rw [← hcount]
  by_cases hs : b.size = record.size.toNat
  · by_cases ho : Oid.ofContent b = record.oid <;> simp [hs, ho]
  · simp [hs]

end Upload

theorem verify_ok {record : ObjectRecord} {body : Stream} {b : ByteArray} : verify record body = .ok b ↔
    body.readAll = .ok b ∧ (b.size : Int) = record.size ∧ Oid.ofContent b = record.oid := by
  unfold verify
  by_cases hneg : record.size < 0
  · rw [if_pos hneg]
    constructor
    · intro h
      cases h
    · intro h
      omega
  · rw [if_neg hneg]
    have hpos : 0 ≤ record.size := Int.not_lt.mp hneg
    have hgather : ∀ {b}, gather record.size.toNat body.buffered .empty = .ok b ↔
        body.readAll = .ok b ∧ b.size ≤ record.size.toNat := by
      intro b
      rw [gather_ok (Nat.zero_le _), Stream.collect_buffered]
      rfl
    constructor
    · intro h
      cases hg : gather record.size.toNat body.buffered .empty with
      | error e =>
        rw [hg] at h
        cases h
      | ok b' =>
        rw [hg] at h
        change (Upload.check record ⟨b'⟩ >>= fun _ => pure b') = _ at h
        cases hc : Upload.check record ⟨b'⟩ with
        | error e =>
          rw [hc] at h
          cases h
        | ok u =>
          rw [hc] at h
          cases h
          exact ⟨(hgather.mp hg).1, (Upload.check_ok hpos).mp hc⟩
    · intro h
      obtain ⟨hread, hsize, hoid⟩ := h
      rw [hgather.mpr ⟨hread, by omega⟩]
      show (Upload.check record ⟨b⟩ >>= fun _ => pure b) = _
      rw [(Upload.check_ok hpos).mpr ⟨hsize, hoid⟩]
      rfl

namespace Upload

open Prog

theorem supply_verified (limit : Nat) (record : ObjectRecord) (body : Stream) :
    ∃ rest, match verify record body with
      | .ok b => ∃ spool : Spool, spool.bytes = b ∧
          (verified limit record).run.supply next body.buffered = .done (.ok spool, rest)
      | .error e => (verified limit record).run.supply next body.buffered = .done (.error e, rest) := by
  unfold verified verify
  by_cases hneg : record.size < 0
  · rw [if_pos hneg, if_pos hneg]
    exact ⟨_, rfl⟩
  · rw [if_neg hneg, if_neg hneg]
    dsimp only
    rw [supply_run_bind]
    obtain ⟨rest, hreceive⟩ := supply_receive record.size.toNat .empty
      body.filled_buffered (Spool.bytes_ofSize limit record.size.toNat)
    refine ⟨rest, ?_⟩
    change match gather record.size.toNat body.buffered .empty with
      | .ok b => _
      | .error e => _ at hreceive
    cases hg : gather record.size.toNat body.buffered .empty with
    | error e =>
      rw [hg] at hreceive
      rw [hreceive]
      rfl
    | ok b =>
      rw [hg] at hreceive
      obtain ⟨spool, hspool, hreceive⟩ := hreceive
      rw [hreceive]
      dsimp only [Prog.bind]
      show match (check record ⟨b⟩).bind fun _ => Except.ok b with
        | .ok b => _
        | .error e => _
      cases check record ⟨b⟩ with
      | error e => rfl
      | ok u => exact ⟨spool, hspool, rfl⟩

end Upload

open Prog Upload in
theorem put_eq (limit : Nat) (record : ObjectRecord) (body : Stream) :
    put limit record body = match verify record body with
      | .ok bytes => do
        ask (.write record.oid (Stream.ofBytes bytes) bytes.size)
        let stored ← ask (.size record.oid)
        if stored ≠ some bytes.size then throw (.sizeMismatch record.size (stored.getD 0))
      | .error e => throw e := by
  obtain ⟨rest, hverified⟩ := supply_verified limit record body
  unfold put
  rw [show Upload.put limit record = verified limit record >>= fun spool => onVault (store record spool) from rfl,
    supply_run_bind]
  cases hv : verify record body with
  | error e =>
    rw [hv] at hverified
    rw [hverified]
    rfl
  | ok b =>
    rw [hv] at hverified
    obtain ⟨spool, rfl, hverified⟩ := hverified
    rw [hverified]
    dsimp only [Prog.bind]
    obtain ⟨-, hsize, -⟩ := verify_ok.mp hv
    have hdeclared : record.size.toNat = spool.bytes.size := by omega
    show ExceptT.mk (Prod.fst <$> (right (store record spool).run).supply next rest) = _
    rw [supply_right, map_fst_bind]
    show store record spool = _
    unfold store
    rw [hdeclared]
    rfl

end Vault

end BlobDepot
