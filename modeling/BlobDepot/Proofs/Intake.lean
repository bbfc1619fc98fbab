import BlobDepot.Proofs.Verification
import BlobDepot.Vault.Store

/-!
# What an upload takes in

A body need not end. Of any body an upload reads no further than the read that brings more than has been declared,
and at no point does it hold more than has been declared: `bounded_by_declared`.
-/

namespace BlobDepot.Vault.Upload

open Prog hiding bind_assoc

/-- What the reads of a body bring, one after another. There is no last one: what ends a body is a read that brings
nothing. -/
abbrev Body :=
  Nat → Except IoFault ByteArray

namespace Body

def next (body : Body) : Handler source Nat :=
  fun _ n => (body n, n + 1)

def total (body : Body) : Nat → Nat
  | 0 => 0
  | n + 1 => total body n +
    match body n with
    | .ok b => b.size
    | .error _ => 0

def Buffered (body : Body) : Prop :=
  ∀ n b, body n = .ok b → b.size ≤ Stream.bufferSize

/-- None of the first reads fails or is the end. -/
def Flows (body : Body) (n : Nat) : Prop :=
  ∀ i < n, ∃ b, body i = .ok b ∧ b.size ≠ 0

variable {body : Body} {m n : Nat}

theorem total_succ {b : ByteArray} (h : body n = .ok b) : body.total (n + 1) = body.total n + b.size := by
  rw [total.eq_2, h]

theorem total_succ_of_error {f : IoFault} (h : body n = .error f) : body.total (n + 1) = body.total n := by
  rw [total.eq_2, h]
  rfl

theorem total_mono (h : m ≤ n) : body.total m ≤ body.total n := by
  induction h with
  | refl => exact Nat.le_refl _
  | step _ ih => exact Nat.le_trans ih (Nat.le_add_right _ _)

theorem lt_of_total_lt (h : body.total n < body.total m) : n < m := by
  apply Nat.lt_of_not_le
  intro hle
  have hmono : body.total m ≤ body.total n := total_mono hle
  omega

end Body

/-! ## The loop -/

def settle (record : ObjectRecord) (received : Hasher × Spool) : UploadM Unit :=
  match check record received.1 with
  | .ok () => onVault (store record received.2)
  | .error e => throw e

theorem put_eq_receive (limit : Nat) {record : ObjectRecord} (hsize : 0 ≤ record.size) : put limit record =
    receive record.size.toNat .empty (.ofSize limit record.size.toNat) >>= settle record := by
  unfold put verified
  rw [if_neg (Int.not_lt.mpr hsize)]
  dsimp only
  rw [bind_assoc]
  congr 1
  funext x
  unfold settle
  cases check record x.1 <;> rfl

theorem put_of_neg (limit : Nat) {record : ObjectRecord} (hsize : record.size < 0) :
    put limit record = throw (.sizeMismatch record.size 0) := by
  unfold put verified
  rw [if_pos hsize]
  rfl

section
variable {τ : Type} (k : Handler Vault.interface τ) {body : Body} {declared : Nat}

/-- The loop reads on while what it has read is no more than has been declared, so it ends. -/
theorem run_receive (hbody : body.Buffered) (hasher : Hasher) (spool : Spool) {n : Nat}
    (hcount : hasher.count = body.total n) (hle : hasher.count ≤ declared) (v : τ) :
    ∃ x m, (receive declared hasher spool).run.run (body.next.sum k) (n, v) = (x, m, v) ∧
      m + body.total n ≤ n + declared + 1 ∧ body.total m ≤ declared + Stream.bufferSize ∧
      ∀ l, body.Flows l → declared < body.total l →
        x = .error (.sizeMismatch declared (body.total m)) ∧ declared < body.total m := by
  induction hasher, spool using receive.induct declared generalizing n with
  | case1 hasher spool ih =>
    have hnext : (body.next.sum k) (.inl ()) (n, v) = (body n, n + 1, v) := rfl
    rw [receive_eq, run_run_bind, run_read, hnext]
    -- Where there is more than has been declared, the next read is one of those that bring it.
    have flows : ∀ {l}, body.Flows l → declared < body.total l → ∃ b, body n = .ok b ∧ b.size ≠ 0 := by
      intro l hl hexcess
      have hfurther : body.total n < body.total l := by omega
      exact hl n (Body.lt_of_total_lt hfurther)
    cases hread : body n with
    | error f =>
      have htotal := Body.total_succ_of_error hread
      refine ⟨_, n + 1, rfl, by omega, by omega, fun l hl hexcess => ?_⟩
      obtain ⟨b, hb, -⟩ := flows hl hexcess
      rw [hread] at hb
      cases hb
    | ok chunk =>
      have htotal := Body.total_succ hread
      have hbuffer := hbody n chunk hread
      have hupdate := hasher.count_update chunk
      dsimp only [Except.mapError]
      unfold proceed
      by_cases h0 : chunk.size = 0
      · rw [if_pos h0]
        refine ⟨_, n + 1, rfl, by omega, by omega, fun l hl hexcess => ?_⟩
        obtain ⟨b, hb, hne⟩ := flows hl hexcess
        rw [hread] at hb
        cases hb
        exact absurd h0 hne
      · rw [if_neg h0]
        by_cases hexcess : declared < (hasher.update chunk).count
        · rw [if_pos hexcess]
          have hall : (hasher.update chunk).count = body.total (n + 1) := by omega
          refine ⟨_, n + 1, rfl, by omega, by omega, fun l _ _ => ⟨?_, by omega⟩⟩
          rw [← hall]
        · rw [if_neg hexcess]
          obtain ⟨x, m, hrun, hreads, hbytes, hstops⟩ :=
            ih chunk h0 hexcess (n := n + 1) (by omega) (Nat.not_lt.mp hexcess)
          exact ⟨x, m, hrun, by omega, hbytes, hstops⟩

/-- Where an upload is that has read so many times, and that it never holds more than has been declared: it is in its
loop and holds what has been read, or it has been refused, or it has read everything and calls the vault. -/
inductive Stage (body : Body) (record : ObjectRecord) (n : Nat) : Prog interface (Except VaultError Unit) → Prop
  | receiving {hasher : Hasher} {spool : Spool} : spool.bytes = hasher.data →
      spool.bytes.size = body.total n → spool.bytes.size ≤ record.size.toNat →
      Stage body record n (receive record.size.toNat hasher spool >>= settle record).run
  | refused (e : VaultError) : Stage body record n (.done (.error e))
  | storing {spool : Spool} {v w : τ} {calls : List ((op : Op) × Vault.interface.Answer op)}
      {rest : Prog Vault.interface (Except VaultError Unit)} :
      spool.bytes.size = body.total n → spool.bytes.size ≤ record.size.toNat →
      Partway k.exactly (store record spool).run v calls rest w → Stage body record n rest.right

/-- What only calls the vault is as far as it is for the vault alone. -/
theorem partway_right {h : Handler source Nat} {p : Prog Vault.interface (Except VaultError Unit)} {n m : Nat}
    {v w : τ} {l : List Event} {q : Prog interface (Except VaultError Unit)}
    (hp : Partway (h.sum k).exactly p.right (n, v) l q (m, w)) :
    m = n ∧ ∃ calls rest, q = rest.right ∧ Partway k.exactly p v calls rest w := by
  induction p generalizing v l with
  | done a =>
    obtain ⟨rfl, hs⟩ := partway_done hp
    cases hs
    exact ⟨rfl, [], .done a, rfl, .start _ _⟩
  | call op next ih =>
    rcases partway_call hp with ⟨rfl, hs⟩ | ⟨x, s₁, l', hcall, hrest⟩
    · cases hs
      exact ⟨rfl, [], .call op next, rfl, .start _ _⟩
    · cases hcall
      obtain ⟨hm, calls, rest, hq, hrest⟩ := ih _ hrest
      exact ⟨hm, _, rest, hq, .call rfl hrest⟩

theorem stage_settle {record : ObjectRecord} {hasher : Hasher} {spool : Spool} {n m : Nat} {v w : τ} {l : List Event}
    {q : Prog interface (Except VaultError Unit)} (htotal : spool.bytes.size = body.total n)
    (hle : spool.bytes.size ≤ record.size.toNat)
    (h : Partway (body.next.sum k).exactly (settle record (hasher, spool)).run (n, v) l q (m, w)) :
    Stage k body record m q := by
  unfold settle at h
  cases hc : check record hasher with
  | error e =>
    rw [hc] at h
    obtain ⟨rfl, -⟩ := partway_done h
    exact .refused e
  | ok u =>
    rw [hc] at h
    obtain ⟨rfl, calls, rest, rfl, hrest⟩ := partway_right k (p := (store record spool).run) h
    exact .storing htotal hle hrest

/-- What has been received is settled with no read. -/
theorem settle_eq_right (record : ObjectRecord) (received : Hasher × Spool) :
    ∃ p : Prog Vault.interface (Except VaultError Unit), (settle record received).run = p.right := by
  unfold settle
  cases check record received.1 with
  | ok u => exact ⟨(store record received.2).run, rfl⟩
  | error e => exact ⟨.done (.error e), rfl⟩

theorem receive_bind (record : ObjectRecord) (hasher : Hasher) (spool : Spool) :
    (receive declared hasher spool >>= settle record).run = .call (.inl ()) fun x : Except IoFault ByteArray =>
      match x with
      | .ok chunk => (proceed declared hasher spool chunk >>= settle record).run
      | .error f => .done (.error (.io f)) := by
  rw [receive_eq, bind_assoc, ExceptT.run_bind]
  refine congrArg (Prog.call _) (funext fun x : Except IoFault ByteArray => ?_)
  cases x <;> rfl

/-- From its loop an upload comes to its loop again, or leaves it. -/
theorem stage_receive (record : ObjectRecord) (hasher : Hasher) (spool : Spool) (hspool : spool.bytes = hasher.data)
    {n : Nat} (hcount : hasher.count = body.total n) (hle : hasher.count ≤ record.size.toNat) {v : τ} {m : Nat} {w : τ}
    {l : List Event} {q : Prog interface (Except VaultError Unit)}
    (h : Partway (body.next.sum k).exactly (receive record.size.toNat hasher spool >>= settle record).run (n, v)
      l q (m, w)) : Stage k body record m q := by
  induction hasher, spool using receive.induct record.size.toNat generalizing n v l with
  | case1 hasher spool ih =>
    have hsize : spool.bytes.size = hasher.count := by
      rw [hspool]
      rfl
    rw [receive_bind] at h
    rcases partway_call h with ⟨rfl, hs⟩ | ⟨x, s, l', hread, hrest⟩
    · cases hs
      rw [← receive_bind]
      exact .receiving hspool (by omega) (by omega)
    · cases hread
      cases hread : body n with
      | error f =>
        rw [hread] at hrest
        obtain ⟨rfl, -⟩ := partway_done hrest
        exact .refused _
      | ok chunk =>
        rw [hread] at hrest
        have htotal := Body.total_succ hread
        have hupdate := hasher.count_update chunk
        dsimp only at hrest
        unfold proceed at hrest
        by_cases h0 : chunk.size = 0
        · rw [if_pos h0, pure_bind] at hrest
          exact stage_settle k (n := n + 1) (by omega) (by omega) hrest
        · rw [if_neg h0] at hrest
          by_cases hexcess : record.size.toNat < (hasher.update chunk).count
          · rw [if_pos hexcess] at hrest
            obtain ⟨rfl, -⟩ := partway_done hrest
            exact .refused _
          · rw [if_neg hexcess] at hrest
            have happended : (spool.append chunk).bytes = (hasher.update chunk).data := by
              rw [Spool.bytes_append, hspool]
              rfl
            exact ih chunk h0 hexcess happended (by omega) (Nat.not_lt.mp hexcess) hrest

/-- Whatever its reads bring, an upload ends within `declared + 1` of them and `declared` bytes and a buffer, and it
holds no more than has been declared wherever it is. If the body brings more than that before it fails, the upload is
refused with the count of all that has been read, and the vault is not called. Of a body that is declared to have fewer
than no bytes nothing is read. -/
theorem bounded_by_declared (hbody : body.Buffered) (limit : Nat) (record : ObjectRecord) (v : τ) :
    (record.size < 0 → put limit record = throw (.sizeMismatch record.size 0)) ∧
    (0 ≤ record.size →
      (∀ l q m w, Partway (body.next.sum k).exactly (put limit record).run (0, v) l q (m, w) →
        Stage k body record m q) ∧
      ∃ x m w, (put limit record).run.run (body.next.sum k) (0, v) = (x, m, w) ∧
        m ≤ record.size.toNat + 1 ∧ body.total m ≤ record.size.toNat + Stream.bufferSize ∧
        ∀ n, body.Flows n → record.size < body.total n →
          x = .error (.sizeMismatch record.size (body.total m)) ∧ record.size < body.total m ∧ w = v) := by
  refine ⟨put_of_neg limit, fun hsize => ?_⟩
  have hempty := Spool.bytes_ofSize limit record.size.toNat
  have hnone : Hasher.empty.count = body.total 0 := rfl
  have hdeclared : (record.size.toNat : Int) = record.size := Int.toNat_of_nonneg hsize
  rw [put_eq_receive limit hsize]
  refine ⟨fun l q m w h => stage_receive k record _ _ hempty hnone (Nat.zero_le _) h, ?_⟩
  obtain ⟨x, m, hrun, hreads, hbytes, hstops⟩ := run_receive k hbody .empty
    (.ofSize limit record.size.toNat) hnone (Nat.zero_le _) v
  rw [run_run_bind, hrun]
  have hreads : m ≤ record.size.toNat + 1 := by omega
  cases x with
  | error e =>
    refine ⟨.error e, m, v, rfl, hreads, hbytes, fun n hn hexcess => ?_⟩
    obtain ⟨he, hover⟩ := hstops n hn (by omega)
    cases he
    rw [hdeclared]
    exact ⟨rfl, by omega, rfl⟩
  | ok received =>
    obtain ⟨p, hp⟩ := settle_eq_right record received
    show ∃ x m' w, (settle record received).run.run (body.next.sum k) (m, v) = _ ∧ _
    rw [hp, run_right, run_sum_right]
    refine ⟨_, m, _, rfl, hreads, hbytes, fun n hn hexcess => ?_⟩
    obtain ⟨he, -⟩ := hstops n hn (by omega)
    cases he

end

namespace Sample

def endless : Body :=
  fun _ => .ok ⟨#[0]⟩

theorem total_endless (n : Nat) : endless.total n = n := by
  induction n with
  | zero => rfl
  | succ n ih => exact (Body.total_succ rfl).trans (congrArg (· + 1) ih)

theorem buffered_endless : endless.Buffered := by
  intro n b hb
  cases hb
  decide

theorem flows_endless (n : Nat) : endless.Flows n :=
  fun _ _ => ⟨_, rfl, by decide⟩

end Sample

open Upload.Sample in
/-- Four bytes are read of a body that does not end if three have been declared. -/
theorem bounded_when_endless : endless.Buffered ∧ endless.Flows 4 ∧
    (put 0 record).run.run (endless.next.sum Memory.handle) (0, .empty) =
      (.error (.sizeMismatch 3 4), 4, .empty) := by
  obtain ⟨-, hbounded⟩ := bounded_by_declared Memory.handle buffered_endless 0 record .empty
  obtain ⟨-, x, m, w, hrun, hreads, -, hstops⟩ := hbounded (by decide)
  obtain ⟨hx, hover, hw⟩ := hstops 4 (flows_endless 4) (by rw [total_endless]; decide)
  rw [total_endless] at hx hover
  have hm : m = 4 := by
    change m ≤ 4 at hreads
    change (3 : Int) < m at hover
    omega
  subst hm hw
  exact ⟨buffered_endless, flows_endless 4, by rw [hrun, hx]; rfl⟩

end BlobDepot.Vault.Upload
