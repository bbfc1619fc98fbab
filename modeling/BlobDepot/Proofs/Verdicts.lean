import BlobDepot.Proofs.Observations
import BlobDepot.Proofs.Verification

/-!
# The verdict on an upload

What an upload comes to depends on its bytes alone, not on the reads that bring them, on where they are spooled or on
how the vault keeps them. Only the count that is reported of too many bytes may differ: `judged_by_bytes`.
-/

namespace BlobDepot

/-! ## Reads -/

namespace Stream

theorem collect_map_bytes (reads : List ByteArray) (acc : ByteArray) :
    collect (reads.map .bytes) acc = .ok (reads.foldl (· ++ ·) acc) := by
  induction reads generalizing acc with
  | nil => rfl
  | cons b r ih => exact ih (acc ++ b)

theorem buffers_of_size_le {b : ByteArray} (hfilled : 0 < b.size) (hle : b.size ≤ bufferSize) : buffers b = [b] := by
  have hone : (b.size + bufferSize - 1) / bufferSize = 1 := by
    unfold bufferSize at *
    omega
  have hall : b.extract 0 bufferSize = b := by
    rw [← Nat.max_eq_left hle]
    exact ByteArray.extract_zero_max_size
  unfold buffers
  rw [hone]
  show [b.extract (0 * bufferSize) (1 * bufferSize)] = [b]
  rw [Nat.zero_mul, Nat.one_mul, hall]

theorem buffered_map_bytes {reads : List ByteArray} (h : ∀ b ∈ reads, 0 < b.size ∧ b.size ≤ bufferSize) :
    buffered (reads.map .bytes) = reads.map .bytes := by
  induction reads with
  | nil => rfl
  | cons b r ih =>
    obtain ⟨hfilled, hle⟩ := h b List.mem_cons_self
    have hr := ih fun c hc => h c (List.mem_cons_of_mem b hc)
    unfold buffered at hr ⊢
    rw [List.map_cons, List.flatMap_cons, hr]
    show (buffers b).map Read.bytes ++ r.map Read.bytes = _
    rw [buffers_of_size_le hfilled hle]
    rfl

end Stream

namespace Vault

/-! ## Verified bytes -/

theorem gather_error {declared : Nat} {bytes : ByteArray} {e : VaultError} : ∀ {s : Stream} {acc : ByteArray},
    s.collect acc = .ok bytes → gather declared s acc = .error e →
      ∃ n : Nat, declared < n ∧ n ≤ bytes.size ∧ e = .sizeMismatch declared n
  | [], acc, _, hg => by cases hg
  | .fault f :: s, acc, hc, _ => by cases hc
  | .bytes b :: s, acc, hc, hg => by
    unfold gather at hg
    by_cases hexcess : declared < acc.size + b.size
    · rw [if_pos hexcess] at hg
      cases hg
      have hle := Stream.size_le_of_collect (s := s) hc
      rw [ByteArray.size_append] at hle
      exact ⟨_, hexcess, hle, rfl⟩
    · rw [if_neg hexcess] at hg
      exact gather_error (s := s) hc hg

/-- What the bytes of an upload come to when they are verified. Of too many bytes it is open how many are counted. -/
inductive Verdict (record : ObjectRecord) (bytes : ByteArray) : Except VaultError ByteArray → Prop
  | negative : record.size < 0 → Verdict record bytes (.error (.sizeMismatch record.size 0))
  | short : 0 ≤ record.size → (bytes.size : Int) < record.size →
    Verdict record bytes (.error (.sizeMismatch record.size bytes.size))
  | excess {n : Nat} : 0 ≤ record.size → record.size < n → n ≤ bytes.size →
    Verdict record bytes (.error (.sizeMismatch record.size n))
  | differing : (bytes.size : Int) = record.size → Oid.ofContent bytes ≠ record.oid →
    Verdict record bytes (.error (.hashMismatch record.oid.hex (Oid.ofContent bytes).hex))
  | accepted : Upload.Describes record bytes → Verdict record bytes (.ok bytes)

theorem verdict_verify (record : ObjectRecord) {body : Stream} {bytes : ByteArray} (h : body.readAll = .ok bytes) :
    Verdict record bytes (verify record body) := by
  unfold verify
  by_cases hneg : record.size < 0
  · rw [if_pos hneg]
    exact .negative hneg
  · rw [if_neg hneg]
    have hpos : 0 ≤ record.size := Int.not_lt.mp hneg
    have hcast : (record.size.toNat : Int) = record.size := Int.toNat_of_nonneg hpos
    have hcollect : body.buffered.collect .empty = .ok bytes := (Stream.collect_buffered body .empty).trans h
    cases hg : gather record.size.toNat body.buffered .empty with
    | error e =>
      obtain ⟨n, hexcess, hle, rfl⟩ := gather_error hcollect hg
      rw [hcast]
      exact .excess hpos (by omega) hle
    | ok b =>
      obtain ⟨hread, hle⟩ := (gather_ok (Nat.zero_le _)).mp hg
      obtain rfl : bytes = b := Except.ok.inj (hcollect.symm.trans hread)
      unfold Upload.check
      show Verdict record bytes (Except.bind (if bytes.size ≠ record.size.toNat then _
        else if Oid.ofContent bytes ≠ record.oid then _ else _) fun _ => .ok bytes)
      by_cases hsize : bytes.size = record.size.toNat
      · have hsize' : (bytes.size : Int) = record.size := by omega
        rw [if_neg (not_not_intro hsize)]
        by_cases hoid : Oid.ofContent bytes = record.oid
        · rw [if_neg (not_not_intro hoid)]
          exact .accepted ⟨hsize', hoid⟩
        · rw [if_pos hoid]
          exact .differing hsize' hoid
      · rw [if_pos hsize]
        exact .short hpos (by omega)

/-- All but the count of too many bytes is settled by the bytes. -/
theorem Verdict.eq_of_bytes {record : ObjectRecord} {bytes : ByteArray} {v w : Except VaultError ByteArray}
    (hv : Verdict record bytes v) (hw : Verdict record bytes w)
    (h : ¬ (0 ≤ record.size ∧ record.size < bytes.size)) : v = w := by
  have settled : ∀ {v}, Verdict record bytes v → v =
      if record.size < 0 then .error (.sizeMismatch record.size 0)
      else if (bytes.size : Int) ≠ record.size then .error (.sizeMismatch record.size bytes.size)
      else if Oid.ofContent bytes ≠ record.oid then
        .error (.hashMismatch record.oid.hex (Oid.ofContent bytes).hex)
      else .ok bytes := by
    intro v hv
    cases hv with
    | negative hneg => rw [if_pos hneg]
    | short hpos hlt => rw [if_neg (by omega), if_pos (by omega)]
    | excess hpos hlt hle => exact absurd ⟨hpos, by omega⟩ h
    | differing hsize hoid => rw [if_neg (by omega), if_neg (not_not_intro hsize), if_pos hoid]
    | accepted hd => rw [if_neg (by have := hd.1; omega), if_neg (not_not_intro hd.1), if_neg (not_not_intro hd.2)]
  exact (settled hv).trans (settled hw).symm

theorem Verdict.exists_of_excess {record : ObjectRecord} {bytes : ByteArray} {v : Except VaultError ByteArray}
    (hv : Verdict record bytes v) (hpos : 0 ≤ record.size) (h : record.size < bytes.size) :
    ∃ n : Nat, record.size < n ∧ v = .error (.sizeMismatch record.size n) := by
  cases hv with
  | negative hneg => omega
  | short _ hlt => omega
  | excess _ hlt _ => exact ⟨_, hlt, rfl⟩
  | differing hsize _ => omega
  | accepted hd => exact absurd hd.1 (by omega)

/-! ## Uploads to a vault -/

section
variable {σ τ : Type}

/-- A vault does what it is asked: it answers as the memory that it holds, and then it holds what that has become. -/
def Faithful (h : Handler interface σ) (holds : σ → Memory → Prop) : Prop :=
  ∀ op s m, holds s m → (h op s).1 = (Memory.handle op m).1 ∧ holds (h op s).2 (Memory.handle op m).2

theorem faithful_memory : Faithful Memory.handle Eq := by
  intro op s m hs
  subst hs
  exact ⟨rfl, rfl⟩

theorem faithful_filed (root : FilePath) (l : Files.Location) :
    Faithful (Filed.handle Files.Tree.handle root) fun t m => Filed.HoldsAt root t l m :=
  fun op _ _ h => h.handle_holds op

def upload (h : Handler interface σ) (limit : Nat) (record : ObjectRecord) (reads : List ByteArray) (s : σ) :
    Except VaultError Unit × σ :=
  let r := (Upload.put limit record).run.run (Upload.next.sum h) (reads.map .bytes, s)
  (r.1, r.2.2)

/-- The reads are such as a reader with a buffer makes, and they bring these bytes. -/
structure Splits (reads : List ByteArray) (bytes : ByteArray) : Prop where
  held : ∀ b ∈ reads, 0 < b.size ∧ b.size ≤ Stream.bufferSize
  joined : reads.foldl (· ++ ·) .empty = bytes

theorem upload_eq (h : Handler interface σ) (limit : Nat) (record : ObjectRecord) {reads : List ByteArray}
    {bytes : ByteArray} (hr : Splits reads bytes) (s : σ) :
    upload h limit record reads s = (put limit record (reads.map .bytes)).run.run h s := by
  unfold upload put
  rw [Prog.run_sum_supply, Stream.buffered_map_bytes hr.held]
  show _ = (Prod.fst <$> (Upload.put limit record).run.supply Upload.next (reads.map .bytes)).run h s
  rw [Prog.run_map]

/-- What an upload of some bytes comes to, and what is in the vault after it. -/
structure Judged (holds : σ → Memory → Prop) (record : ObjectRecord) (bytes : ByteArray) (s : σ) (m : Memory)
    (x : Except VaultError Unit × σ) : Prop where
  accepted : x.1 = .ok () ↔ 0 ≤ record.size ∧ (bytes.size : Int) = record.size ∧ Oid.ofContent bytes = record.oid
  missized : (∃ n, x.1 = .error (.sizeMismatch record.size n)) ↔ (bytes.size : Int) ≠ record.size
  mishashed : x.1 = .error (.hashMismatch record.oid.hex (Oid.ofContent bytes).hex) ↔
    (bytes.size : Int) = record.size ∧ Oid.ofContent bytes ≠ record.oid
  stored : x.1 = .ok () → holds x.2 ⟨m.blobs.insert record.oid bytes⟩
  refused : x.1 ≠ .ok () → x.2 = s

variable {h : Handler interface σ} {holds : σ → Memory → Prop} {record : ObjectRecord} {bytes : ByteArray}
  {reads : List ByteArray} {s : σ} {m : Memory}

theorem Splits.verdict (hr : Splits reads bytes) (record : ObjectRecord) :
    Verdict record bytes (verify record (reads.map .bytes)) := by
  refine verdict_verify record ?_
  unfold Stream.readAll
  rw [Stream.collect_map_bytes, hr.joined]

theorem upload_of_error (h : Handler interface σ) (limit : Nat) (hr : Splits reads bytes) (s : σ) {e : VaultError}
    (hv : verify record (reads.map .bytes) = .error e) : upload h limit record reads s = (.error e, s) := by
  rw [upload_eq h limit record hr, put_eq, hv]
  rfl

theorem upload_of_ok (hh : Faithful h holds) (limit : Nat) (hr : Splits reads bytes) (hs : holds s m)
    {b : ByteArray} (hv : verify record (reads.map .bytes) = .ok b) :
    ∃ s', upload h limit record reads s = (.ok (), s') ∧ holds s' ⟨m.blobs.insert record.oid b⟩ := by
  have hwrite := hh (.write record.oid (Stream.ofBytes b) b.size) s m hs
  simp only [Memory.handle, Memory.readExactly_ofBytes] at hwrite
  rcases hw : h (.write record.oid (Stream.ofBytes b) b.size) s with ⟨x, s₁⟩
  rw [hw] at hwrite
  obtain ⟨rfl, hs₁⟩ := hwrite
  have hsize := hh (.size record.oid) s₁ _ hs₁
  simp only [Memory.handle, SortedMap.get?_insert_self, Option.map_some] at hsize
  rcases hn : h (.size record.oid) s₁ with ⟨y, s₂⟩
  rw [hn] at hsize
  obtain ⟨rfl, hs₂⟩ := hsize
  have hask : ∀ op s, (ask op).run.run h s = h op s := fun _ _ => rfl
  refine ⟨s₂, ?_, hs₂⟩
  rw [upload_eq h limit record hr, put_eq, hv]
  dsimp only
  rw [Prog.run_run_bind, hask, hw]
  dsimp only
  rw [Prog.run_run_bind, hask, hn]
  dsimp only
  rw [if_neg (not_not_intro rfl)]
  rfl

theorem outcome_upload (hh : Faithful h holds) (limit : Nat) (hr : Splits reads bytes) (hs : holds s m) :
    (upload h limit record reads s).1 = (verify record (reads.map .bytes)).map fun _ => () := by
  cases hv : verify record (reads.map .bytes) with
  | error e =>
    rw [upload_of_error h limit hr s hv]
    rfl
  | ok b =>
    obtain ⟨s', hrun, -⟩ := upload_of_ok hh limit hr hs hv
    rw [hrun]
    rfl

theorem judged_upload (hh : Faithful h holds) (limit : Nat) (hr : Splits reads bytes) (hs : holds s m) :
    Judged holds record bytes s m (upload h limit record reads s) := by
  have hverdict := hr.verdict record
  cases hv : verify record (reads.map .bytes) with
  | error e =>
    rw [hv] at hverdict
    rw [upload_of_error h limit hr s hv]
    cases hverdict with
    | negative hneg => exact ⟨by simp; omega, by simp; omega, by simp; omega, by simp, fun _ => rfl⟩
    | short hpos hlt => exact ⟨by simp; omega, by simp; omega, by simp; omega, by simp, fun _ => rfl⟩
    | excess hpos hlt hle => exact ⟨by simp; omega, by simp; omega, by simp; omega, by simp, fun _ => rfl⟩
    | differing hsize hoid => exact ⟨by simp [hoid], by simp [hsize], by simp [hsize, hoid], by simp, fun _ => rfl⟩
  | ok b =>
    rw [hv] at hverdict
    obtain ⟨s', hrun, hs'⟩ := upload_of_ok hh limit hr hs hv
    rw [hrun]
    cases hverdict with
    | accepted hd =>
      obtain ⟨hsize, hoid⟩ := hd
      exact ⟨by simp [hsize, hoid]; omega, by simp [hsize], by simp [hoid], fun _ => hs', fun hne => absurd rfl hne⟩

theorem Judged.exists_holds {holds' : τ → Memory → Prop} {t : τ} {x : Except VaultError Unit × σ}
    {y : Except VaultError Unit × τ} (hx : Judged holds record bytes s m x) (hy : Judged holds' record bytes t m y)
    (hs : holds s m) (ht : holds' t m) : ∃ m', holds x.2 m' ∧ holds' y.2 m' := by
  by_cases hok : x.1 = .ok ()
  · exact ⟨_, hx.stored hok, hy.stored (hy.accepted.mpr (hx.accepted.mp hok))⟩
  · refine ⟨m, ?_, ?_⟩
    · rw [hx.refused hok]
      exact hs
    · rw [hy.refused fun hok' => hok (hx.accepted.mpr (hy.accepted.mp hok'))]
      exact ht

/-- Two uploads of the same bytes to vaults that hold the same come to the same, and leave the vaults holding the
same. Only if the bytes are too many, the two may have counted more or fewer of them when they give up. -/
theorem judged_by_bytes {k : Handler interface τ} {holds' : τ → Memory → Prop} {t : τ} {reads' : List ByteArray}
    (hh : Faithful h holds) (hk : Faithful k holds') (hs : holds s m) (ht : holds' t m) (record : ObjectRecord)
    (hr : Splits reads bytes) (hr' : Splits reads' bytes) (limit limit' : Nat) :
    Judged holds record bytes s m (upload h limit record reads s) ∧
    Judged holds' record bytes t m (upload k limit' record reads' t) ∧
    (∃ m', holds (upload h limit record reads s).2 m' ∧ holds' (upload k limit' record reads' t).2 m') ∧
    ((upload h limit record reads s).1 = (upload k limit' record reads' t).1 ∨
      0 ≤ record.size ∧ record.size < bytes.size ∧ ∃ n n' : Nat, record.size < n ∧ record.size < n' ∧
        (upload h limit record reads s).1 = .error (.sizeMismatch record.size n) ∧
        (upload k limit' record reads' t).1 = .error (.sizeMismatch record.size n')) := by
  have hx : Judged holds record bytes s m _ := judged_upload hh limit hr hs
  have hy : Judged holds' record bytes t m _ := judged_upload hk limit' hr' ht
  refine ⟨hx, hy, hx.exists_holds hy hs ht, ?_⟩
  rw [outcome_upload hh limit hr hs, outcome_upload hk limit' hr' ht]
  by_cases hexcess : 0 ≤ record.size ∧ record.size < bytes.size
  · right
    obtain ⟨hpos, hlt⟩ := hexcess
    obtain ⟨n, hn, hv⟩ := (hr.verdict record).exists_of_excess hpos hlt
    obtain ⟨n', hn', hv'⟩ := (hr'.verdict record).exists_of_excess hpos hlt
    rw [hv, hv']
    exact ⟨hpos, hlt, n, n', hn, hn', rfl, rfl⟩
  · left
    rw [(hr.verdict record).eq_of_bytes (hr'.verdict record) hexcess]

end

namespace Sample

def letters : ByteArray :=
  "abc".toUTF8

def lettersOfSize (size : Int) : ObjectRecord :=
  { oid := Oid.ofContent letters, size, state := .pending, projects := .empty, existing := false }

theorem splits_early : Splits ["ab".toUTF8, "c".toUTF8] letters :=
  ⟨by decide, by decide⟩

theorem splits_late : Splits ["a".toUTF8, "bc".toUTF8] letters :=
  ⟨by decide, by decide⟩

end Sample

open Sample in
/-- Letters that are as many as their record says are stored; of those that are too many two or three are counted. -/
theorem judged_by_bytes_in_memory_and_files : ∃ l,
    Filed.HoldsAt root opened l .empty ∧ Splits ["ab".toUTF8, "c".toUTF8] letters ∧
    Splits ["a".toUTF8, "bc".toUTF8] letters ∧
    (upload Memory.handle 0 (lettersOfSize 3) ["ab".toUTF8, "c".toUTF8] .empty).1 = .ok () ∧
    (upload (Filed.handle Files.Tree.handle root) 8 (lettersOfSize 3) ["a".toUTF8, "bc".toUTF8] opened).1 = .ok () ∧
    (upload Memory.handle 0 (lettersOfSize 1) ["ab".toUTF8, "c".toUTF8] .empty).1 = .error (.sizeMismatch 1 2) ∧
    (upload (Filed.handle Files.Tree.handle root) 8 (lettersOfSize 1) ["a".toUTF8, "bc".toUTF8] opened).1 =
      .error (.sizeMismatch 1 3) := by
  obtain ⟨l, hr, hb, hn⟩ := fresh_opened
  have hfiles := Filed.holdsAt_empty hr hb hn
  obtain ⟨hx, hy, -, -⟩ := judged_by_bytes faithful_memory (faithful_filed root l) rfl hfiles (lettersOfSize 3)
    splits_early splits_late 0 8
  have hsize : 0 ≤ (lettersOfSize 3).size ∧ (letters.size : Int) = (lettersOfSize 3).size ∧
      Oid.ofContent letters = (lettersOfSize 3).oid := ⟨by decide, by decide, rfl⟩
  exact ⟨l, hfiles, splits_early, splits_late, hx.accepted.mpr hsize, hy.accepted.mpr hsize, by decide +kernel,
    by decide +kernel⟩

end Vault

end BlobDepot
