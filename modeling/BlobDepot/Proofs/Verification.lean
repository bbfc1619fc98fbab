import BlobDepot.Proofs.Uploads
import BlobDepot.Vault.Store

/-!
# Verified before stored

Whatever its reads bring, and whatever the vault answers, an upload calls the vault when it has read everything
and found it to be what the record says, and it succeeds when the vault then has as many bytes:
`stored_once_verified`.
-/

namespace BlobDepot.Vault.Upload

open Prog

abbrev Event :=
  (op : interface.Op) × interface.Answer op

def Event.read (x : Except IoFault ByteArray) : Event :=
  ⟨.inl (), x⟩

def Event.write (oid : Oid) (bytes : ByteArray) (x : Except VaultError Unit) : Event :=
  ⟨.inr (.write oid (Stream.ofBytes bytes) bytes.size), x⟩

def Event.size (oid : Oid) (x : Except VaultError (Option Nat)) : Event :=
  ⟨.inr (.size oid), x⟩

theorem Event.eq_of_read {x y : Except IoFault ByteArray} (h : read x = read y) : x = y :=
  eq_of_heq (Sigma.mk.inj h).2

theorem Event.bytes_of_write {oid : Oid} {a b : ByteArray} {x y : Except VaultError Unit}
    (h : write oid a x = write oid b y) : a = b := by
  have hop : Op.write oid (Stream.ofBytes a) a.size = Op.write oid (Stream.ofBytes b) b.size :=
    Sum.inr.inj (Sigma.mk.inj h).1
  have hsource := (Op.write.inj hop).2.1
  simpa [Stream.ofBytes] using hsource

theorem Event.size_inj {oid : Oid} {x y : Except VaultError (Option Nat)} : size oid x = size oid y ↔ x = y := by
  constructor
  · intro h
    exact eq_of_heq (Sigma.mk.inj h).2
  · intro h
    rw [h]

/-- Reads that do not fail bring bytes up to their end. -/
inductive Brings : List (Except IoFault ByteArray) → ByteArray → Prop
  | last {b : ByteArray} : b.size = 0 → Brings [.ok b] .empty
  | more {b rest : ByteArray} {reads : List (Except IoFault ByteArray)} :
    b.size ≠ 0 → Brings reads rest → Brings (.ok b :: reads) (b ++ rest)

def Describes (record : ObjectRecord) (bytes : ByteArray) : Prop :=
  (bytes.size : Int) = record.size ∧ Oid.ofContent bytes = record.oid

/-- What is called of a vault that is to store bytes, and what the upload comes to. -/
inductive Storing (record : ObjectRecord) (bytes : ByteArray) : List Event → Except VaultError Unit → Prop
  | refused (e : VaultError) : Storing record bytes [.write record.oid bytes (.error e)] (.error e)
  | unknown (e : VaultError) :
    Storing record bytes [.write record.oid bytes (.ok ()), .size record.oid (.error e)] (.error e)
  | differing {n : Option Nat} : n ≠ some bytes.size →
    Storing record bytes [.write record.oid bytes (.ok ()), .size record.oid (.ok n)]
      (.error (.sizeMismatch record.size (n.getD 0)))
  | stored : Storing record bytes
    [.write record.oid bytes (.ok ()), .size record.oid (.ok (some bytes.size))] (.ok ())

/-! ## Reading -/

theorem not_brings_nil {bytes : ByteArray} : ¬ Brings [] bytes := by
  intro h
  cases h

theorem Brings.unique {reads : List (Except IoFault ByteArray)} {a b : ByteArray} (ha : Brings reads a)
    (hb : Brings reads b) : a = b := by
  induction ha generalizing b with
  | last h0 =>
    cases hb with
    | last _ => rfl
    | more hne _ => exact absurd h0 hne
  | more hne hrest ih =>
    cases hb with
    | last h0 => exact absurd h0 hne
    | more _ hrest' => rw [ih hrest']

section
variable {σ : Type} (h : Handler interface σ)

theorem run_read (s : σ) : read.run.run h s = ((h (.inl ()) s).1.mapError VaultError.io, (h (.inl ()) s).2) := rfl

theorem trace_read (s : σ) : read.run.trace h s = [Event.read (h (.inl ()) s).1] := rfl

/-- What is received is hashed and spooled alike, and it is all that is brought. -/
theorem trace_receive (declared : Nat) (hasher : Hasher) (spool : Spool) (hspool : spool.bytes = hasher.data)
    (s : σ) : ∃ reads, (receive declared hasher spool).run.trace h s = reads.map Event.read ∧
      match ((receive declared hasher spool).run.run h s).1 with
      | .ok (hasher', spool') => ∃ bytes, Brings reads bytes ∧ hasher'.data = hasher.data ++ bytes ∧
          spool'.bytes = hasher'.data
      | .error _ => ∀ bytes, ¬ Brings reads bytes := by
  induction hasher, spool using receive.induct declared generalizing s with
  | case1 hasher spool ih =>
    rw [receive_eq, trace_run_bind, run_run_bind, run_read, trace_read]
    obtain ⟨x, s'⟩ := h (.inl ()) s
    dsimp only
    cases x with
    | error f =>
      refine ⟨[.error f], rfl, fun bytes hb => ?_⟩
      cases hb
    | ok chunk =>
      dsimp only [Except.mapError]
      unfold proceed
      by_cases h0 : chunk.size = 0
      · rw [if_pos h0]
        exact ⟨[.ok chunk], rfl, .empty, .last h0, ByteArray.append_empty.symm, hspool⟩
      · rw [if_neg h0]
        by_cases hexcess : declared < (hasher.update chunk).count
        · rw [if_pos hexcess]
          refine ⟨[.ok chunk], rfl, fun bytes hb => ?_⟩
          cases hb with
          | last hlast => exact h0 hlast
          | more _ hrest => exact not_brings_nil hrest
        · rw [if_neg hexcess]
          have happended : (spool.append chunk).bytes = (hasher.update chunk).data := by
            rw [Spool.bytes_append, hspool]
            rfl
          obtain ⟨reads, htrace, hrest⟩ := ih chunk h0 hexcess happended s'
          refine ⟨.ok chunk :: reads, by rw [htrace]; rfl, ?_⟩
          cases hx : ((receive declared (hasher.update chunk) (spool.append chunk)).run.run h s').1 with
          | error e =>
            rw [hx] at hrest
            intro bytes hb
            cases hb with
            | last hlast => exact h0 hlast
            | more _ hb => exact hrest _ hb
          | ok y =>
            rw [hx] at hrest
            obtain ⟨bytes, hbrings, hdata, hspooled⟩ := hrest
            refine ⟨chunk ++ bytes, .more h0 hbrings, ?_, hspooled⟩
            rw [hdata, ← ByteArray.append_assoc]
            rfl

/-- What passes is all that is brought, and it is what the record says. -/
theorem trace_verified (limit : Nat) (record : ObjectRecord) (s : σ) :
    ∃ reads, (verified limit record).run.trace h s = reads.map Event.read ∧
      match ((verified limit record).run.run h s).1 with
      | .ok spool => Brings reads spool.bytes ∧ Describes record spool.bytes
      | .error _ => ∀ bytes, Brings reads bytes → ¬ Describes record bytes := by
  unfold verified
  by_cases hneg : record.size < 0
  · rw [if_pos hneg]
    exact ⟨[], rfl, fun bytes hb => absurd hb not_brings_nil⟩
  · rw [if_neg hneg]
    dsimp only
    rw [trace_run_bind, run_run_bind]
    obtain ⟨reads, htrace, hreceive⟩ := trace_receive h record.size.toNat .empty
      (.ofSize limit record.size.toNat) (Spool.bytes_ofSize limit record.size.toNat) s
    rw [htrace]
    refine ⟨reads, ?_⟩
    rcases hx : (receive record.size.toNat .empty (.ofSize limit record.size.toNat)).run.run h s with
      ⟨e | ⟨hasher, spool⟩, s'⟩
    · rw [hx] at hreceive
      exact ⟨List.append_nil _, fun bytes hb => absurd hb (hreceive bytes)⟩
    · rw [hx] at hreceive
      obtain ⟨bytes, hbrings, hdata, hspool⟩ := hreceive
      obtain ⟨data⟩ := hasher
      have hall : data = bytes := hdata.trans ByteArray.empty_append
      subst hall
      have hcheck := check_ok (b := data) (Int.not_lt.mp hneg)
      dsimp only
      cases hc : check record ⟨data⟩ with
      | ok u =>
        refine ⟨List.append_nil _, ?_⟩
        show Brings reads spool.bytes ∧ Describes record spool.bytes
        rw [hspool]
        exact ⟨hbrings, hcheck.mp hc⟩
      | error e =>
        refine ⟨List.append_nil _, fun bytes hb hd => ?_⟩
        rw [hb.unique hbrings] at hd
        rw [hcheck.mpr hd] at hc
        cases hc

/-! ## Storing -/

theorem trace_ask (k : Handler Vault.interface σ) (op : Op) (s : σ) :
    (ask op).run.trace k s = [⟨op, ((ask op).run.run k s).1⟩] := rfl

/-- Whatever it is answered, storing goes one of four ways. -/
theorem storing_store (record : ObjectRecord) (spool : Spool) (hsize : (spool.bytes.size : Int) = record.size)
    (s : σ) : Storing record spool.bytes ((onVault (store record spool)).run.trace h s)
      ((onVault (store record spool)).run.run h s).1 := by
  have hdeclared : record.size.toNat = spool.bytes.size := by omega
  unfold store
  rw [hdeclared]
  show Storing record spool.bytes (trace h (right (ExceptT.run _)) s) (Prog.run h (right (ExceptT.run _)) s).1
  rw [trace_right, run_right, trace_run_bind, run_run_bind, trace_ask]
  rcases hwrite : (ask (.write record.oid spool.reader spool.bytes.size)).run.run h.right s with ⟨e | u, s₁⟩
  · exact .refused e
  · dsimp only
    rw [trace_run_bind, run_run_bind, trace_ask]
    rcases hsize : (ask (.size record.oid)).run.run h.right s₁ with ⟨e | n, s₂⟩
    · exact .unknown e
    · dsimp only
      by_cases hn : n = some spool.bytes.size
      · subst hn
        rw [if_neg fun hne => hne rfl]
        exact .stored
      · rw [if_pos hn]
        exact .differing hn

theorem Storing.ok_iff {record : ObjectRecord} {bytes : ByteArray} {events : List Event}
    {x : Except VaultError Unit} (hs : Storing record bytes events x) : x = .ok () ↔ ∃ b,
      events = [Event.write record.oid b (.ok ()), Event.size record.oid (.ok (some b.size))] := by
  cases hs with
  | refused e => simp
  | stored => exact ⟨fun _ => ⟨bytes, rfl⟩, fun _ => rfl⟩
  | unknown e => simp [Event.size_inj]
  | differing hn =>
    constructor
    · intro he
      cases he
    · intro he
      obtain ⟨b, he⟩ := he
      obtain ⟨hwrite, hrest⟩ := List.cons.inj he
      rw [← Event.bytes_of_write hwrite] at hrest
      exact absurd (Except.ok.inj (Event.size_inj.mp (List.cons.inj hrest).1)) hn

/-- The reads come first. If what they bring is what the record says, it is then stored, and if not, the vault is
not called. An upload succeeds if and only if the vault has taken the bytes and has as many of them. -/
theorem stored_once_verified (limit : Nat) (record : ObjectRecord) (s : σ) :
    ∃ reads events, (put limit record).run.trace h s = reads.map Event.read ++ events ∧
      ((∃ bytes, Brings reads bytes ∧ Describes record bytes ∧
          Storing record bytes events ((put limit record).run.run h s).1) ∨
        (∀ bytes, Brings reads bytes → ¬ Describes record bytes) ∧ events = [] ∧
          ∃ e, ((put limit record).run.run h s).1 = .error e) ∧
      (((put limit record).run.run h s).1 = .ok () ↔ ∃ bytes,
        events = [Event.write record.oid bytes (.ok ()), Event.size record.oid (.ok (some bytes.size))]) := by
  obtain ⟨reads, htrace, hverified⟩ := trace_verified h limit record s
  unfold put
  rw [trace_run_bind, run_run_bind, htrace]
  rcases hx : (verified limit record).run.run h s with ⟨e | spool, s'⟩
  · rw [hx] at hverified
    exact ⟨reads, [], rfl, .inr ⟨hverified, rfl, e, rfl⟩, by simp⟩
  · rw [hx] at hverified
    obtain ⟨hbrings, hdescribes⟩ := hverified
    have hstoring := storing_store h record spool hdescribes.1 s'
    exact ⟨reads, _, rfl, .inl ⟨spool.bytes, hbrings, hdescribes, hstoring⟩, hstoring.ok_iff⟩

/-! ## Uploads that are read to their end -/

/-- From a state on, reads are answered so, one after another. -/
def AnswersReads : σ → List (Except IoFault ByteArray) → Prop
  | _, [] => True
  | s, x :: reads => (h (.inl ()) s).1 = x ∧ AnswersReads (h (.inl ()) s).2 reads

variable {h} {reads : List (Except IoFault ByteArray)} {bytes : ByteArray} {s : σ}

theorem receive_of_brings (hr : AnswersReads h s reads) (hb : Brings reads bytes) {declared : Nat} (hasher : Hasher)
    (spool : Spool) (hsize : hasher.count + bytes.size ≤ declared) :
    (receive declared hasher spool).run.trace h s = reads.map Event.read ∧
      ∃ y, ((receive declared hasher spool).run.run h s).1 = .ok y := by
  induction hb generalizing s hasher spool with
  | last h0 =>
    obtain ⟨hx, -⟩ := hr
    rw [receive_eq, trace_run_bind, run_run_bind, run_read, trace_read, hx]
    dsimp only [Except.mapError]
    unfold proceed
    rw [if_pos h0]
    exact ⟨rfl, _, rfl⟩
  | @more b rest reads hne hrest ih =>
    obtain ⟨hx, hr⟩ := hr
    rw [ByteArray.size_append] at hsize
    have hcount := hasher.count_update b
    obtain ⟨htrace, y, hy⟩ := ih hr (hasher.update b) (spool.append b) (by omega)
    rw [receive_eq, trace_run_bind, run_run_bind, run_read, trace_read, hx]
    dsimp only [Except.mapError]
    unfold proceed
    rw [if_neg hne, if_neg (by omega), htrace]
    exact ⟨rfl, y, hy⟩

theorem trace_verified_of_brings (hr : AnswersReads h s reads) (hb : Brings reads bytes) (limit : Nat)
    {record : ObjectRecord} (hd : Describes record bytes) :
    (verified limit record).run.trace h s = reads.map Event.read := by
  obtain ⟨hsize, -⟩ := hd
  have hdeclared : Hasher.empty.count + bytes.size ≤ record.size.toNat := by
    show 0 + bytes.size ≤ record.size.toNat
    omega
  obtain ⟨htrace, y, hy⟩ := receive_of_brings hr hb .empty (.ofSize limit record.size.toNat) hdeclared
  unfold verified
  rw [if_neg (by omega)]
  dsimp only
  rw [trace_run_bind, htrace]
  rcases hx : (receive record.size.toNat .empty (.ofSize limit record.size.toNat)).run.run h s with ⟨z, s'⟩
  rw [hx] at hy
  obtain rfl : z = .ok y := hy
  dsimp only
  cases check record y.1 <;> exact List.append_nil _

/-- If what the reads would bring is what the record says, all of them are made, and it is stored. -/
theorem stored_of_brings (hr : AnswersReads h s reads) (hb : Brings reads bytes) (limit : Nat) {record : ObjectRecord}
    (hd : Describes record bytes) : ∃ events,
      (put limit record).run.trace h s = reads.map Event.read ++ events ∧
        Storing record bytes events ((put limit record).run.run h s).1 := by
  obtain ⟨made, htrace, hverified⟩ := trace_verified h limit record s
  obtain rfl : made = reads := by
    rw [trace_verified_of_brings hr hb limit hd] at htrace
    exact (List.map_inj_right fun _ _ => Event.eq_of_read).mp htrace.symm
  unfold put
  rw [trace_run_bind, run_run_bind, htrace]
  rcases hx : (verified limit record).run.run h s with ⟨e | spool, s'⟩
  · rw [hx] at hverified
    exact absurd hd (hverified bytes hb)
  · rw [hx] at hverified
    obtain ⟨hbrings, hdescribes⟩ := hverified
    rw [hb.unique hbrings]
    exact ⟨_, rfl, storing_store h record spool hdescribes.1 s'⟩

end

namespace Sample

def letters : ByteArray :=
  "abc".toUTF8

def record : ObjectRecord :=
  { oid := Oid.ofContent letters, size := 3, state := .pending, projects := .empty, existing := false }

def arriving : Stream :=
  [.bytes "a".toUTF8, .bytes "bc".toUTF8]

/-- A third read finds the end. -/
def reads : List (Except IoFault ByteArray) :=
  [.ok "a".toUTF8, .ok "bc".toUTF8, .ok .empty]

theorem brings_reads : Brings reads letters :=
  .more (by decide) (.more (by decide) (.last rfl))

end Sample

open Upload.Sample in
/-- Three letters come in two reads, and they are stored. -/
theorem stored_once_verified_of_letters :
    let trace := (put 0 record).run.trace (next.sum Memory.handle) (arriving, .empty)
    trace = reads.map Event.read ++
        [Event.write record.oid letters (.ok ()), Event.size record.oid (.ok (some letters.size))] ∧
      ∃ made events bytes, trace = made.map Event.read ++ events ∧ Brings made bytes ∧ Describes record bytes ∧
        Storing record bytes events (.ok ()) := by
  intro trace
  have hok : ((put 0 record).run.run (next.sum Memory.handle) (arriving, .empty)).1 = .ok () := by
    have hdone : ((put 0 record).run.run (next.sum Memory.handle) (arriving, .empty)).1.toOption = some () := by
      decide +kernel
    cases hx : ((put 0 record).run.run (next.sum Memory.handle) (arriving, .empty)).1 with
    | ok u => rfl
    | error e =>
      rw [hx] at hdone
      cases hdone
  have answered : AnswersReads (next.sum Memory.handle) (arriving, .empty) reads := ⟨rfl, rfl, rfl, trivial⟩
  have described : Describes record letters := ⟨rfl, rfl⟩
  constructor
  · obtain ⟨events, htrace, hstoring⟩ := stored_of_brings answered brings_reads 0 described
    rw [hok] at hstoring
    cases hstoring
    exact htrace
  · obtain ⟨made, events, htrace, hcases, -⟩ :=
      stored_once_verified (next.sum Memory.handle) 0 record (arriving, .empty)
    rw [hok] at hcases
    obtain ⟨bytes, hbrings, hdescribes, hstoring⟩ := hcases.resolve_right fun hfailed => by
      obtain ⟨-, -, e, he⟩ := hfailed
      cases he
    exact ⟨made, events, bytes, htrace, hbrings, hdescribes, hstoring⟩

end BlobDepot.Vault.Upload
