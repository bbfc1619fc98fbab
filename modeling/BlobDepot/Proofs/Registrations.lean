import BlobDepot.Proofs.Agreement
import BlobDepot.Proofs.Headers
import BlobDepot.Proofs.Interchange
import Mathlib.Data.List.Induction

/-!
# Registrations of users

After any requests the users are those whose first registration since their last removal stands, and the password of
that registration is the one with which they log in: `registered_users_log_in`.
-/

namespace BlobDepot

/-- Each password belongs to the hashes that are made of it, and no other one does. -/
def Password.Scheme.Exact (s : Password.Scheme) : Prop :=
  ∀ salt password other, s.verify password (s.hash salt other) = true ↔ password = other

namespace Credentials

open Catalog (Backing Memory)
open Prog

inductive Request where
  | add (salt : List UInt8) (user password : String)
  | delete (user : String)
  | list
  deriving DecidableEq

@[reducible] def Request.Result : Request → Type
  | add _ _ _ | delete _ => Bool
  | list => List String

def Request.program (c : Credentials) : (r : Request) → CatalogM r.Result
  | add salt user password => c.addUser salt user password
  | delete user => c.deleteUser user
  | list => c.listUsers

def Request.user? : Request → Option String
  | add _ user _ | delete user => some user
  | list => none

def after (c : Credentials) (b : Backing) (l : List Request) : Backing :=
  l.foldl (fun b r => ((r.program c).run.run Backing.handle b).2) b

def Acceptable (user : String) : Prop :=
  user ≠ "" ∧ ':' ∉ user.toList

instance (user : String) : Decidable (Acceptable user) :=
  inferInstanceAs (Decidable (_ ∧ _))

/-- Nothing has been said of the user since it was last removed, or at all. -/
def Absent (l : List Request) (user : String) : Prop :=
  ∃ earlier later, l = earlier ++ later ∧ (earlier = [] ∨ .delete user ∈ earlier.getLast?) ∧
    ∀ r ∈ later, r.user? ≠ some user

/-- The user has been registered when it was absent, and has not been removed since. -/
def Registered (l : List Request) (user password : String) : Prop :=
  Acceptable user ∧ ∃ earlier salt later, l = earlier ++ .add salt user password :: later ∧
    Absent earlier user ∧ .delete user ∉ later

/-! ## Histories -/

section
variable {l : List Request} {r : Request} {user other password : String}

theorem absent_nil (user : String) : Absent [] user :=
  ⟨[], [], rfl, .inl rfl, by simp⟩

theorem absent_delete (l : List Request) (user : String) : Absent (l ++ [Request.delete user]) user :=
  ⟨l ++ [Request.delete user], [], by simp, .inr (by simp), by simp⟩

theorem Absent.later (h : Absent l user) (hr : r.user? ≠ some user) : Absent (l ++ [r]) user := by
  obtain ⟨earlier, later, rfl, hearlier, hlater⟩ := h
  refine ⟨earlier, later ++ [r], by simp, hearlier, fun r' hr' => ?_⟩
  rcases List.mem_append.mp hr' with hr' | hr'
  · exact hlater r' hr'
  · rwa [List.mem_singleton.mp hr']

theorem Absent.of_concat (h : Absent (l ++ [r]) user) :
    r = .delete user ∨ r.user? ≠ some user ∧ Absent l user := by
  obtain ⟨earlier, later, heq, hearlier, hlater⟩ := h
  rcases List.eq_nil_or_concat' later with rfl | ⟨later, r', rfl⟩
  · left
    rw [List.append_nil] at heq
    subst heq
    simpa using hearlier
  · right
    rw [← List.append_assoc] at heq
    obtain ⟨rfl, hr⟩ := List.append_inj' heq rfl
    obtain rfl := List.singleton_inj.mp hr
    exact ⟨hlater r (by simp), earlier, later, rfl, hearlier, fun r' hr' => hlater r' (by simp [hr'])⟩

theorem Registered.later (h : Registered l user password) (hr : r ≠ .delete user) :
    Registered (l ++ [r]) user password := by
  obtain ⟨hu, earlier, salt, later, rfl, hearlier, hlater⟩ := h
  refine ⟨hu, earlier, salt, later ++ [r], by simp, hearlier, ?_⟩
  simp [hlater, Ne.symm hr]

/-- A registration that stands is the last request, or it has stood before. -/
theorem Registered.of_concat (h : Registered (l ++ [r]) user password) :
    (∃ salt, r = .add salt user password ∧ Absent l user) ∨ r ≠ .delete user ∧ Registered l user password := by
  obtain ⟨hu, earlier, salt, later, heq, hearlier, hlater⟩ := h
  rcases List.eq_nil_or_concat' later with rfl | ⟨later, r', rfl⟩
  · left
    obtain ⟨rfl, hr⟩ := List.append_inj' heq rfl
    exact ⟨salt, List.singleton_inj.mp hr, hearlier⟩
  · right
    rw [← List.cons_append, ← List.append_assoc] at heq
    obtain ⟨rfl, hr⟩ := List.append_inj' heq rfl
    obtain rfl := List.singleton_inj.mp hr
    obtain ⟨hlater, hlast⟩ := not_or.mp (mt List.mem_append.mpr hlater)
    exact ⟨fun e => hlast (e ▸ List.mem_singleton_self _), hu, earlier, salt, later, rfl, hearlier, hlater⟩

theorem not_registered_nil : ¬ Registered [] user password := by
  intro h
  obtain ⟨-, earlier, salt, later, heq, -⟩ := h
  simp at heq

theorem Absent.not_registered (h : Absent l user) : ¬ Registered l user password := by
  induction l using List.reverseRecOn with
  | nil => exact not_registered_nil
  | append_singleton l r ih =>
    intro hr
    rcases h.of_concat with rfl | ⟨hother, h⟩
    · rcases hr.of_concat with ⟨salt, hadd, -⟩ | ⟨hne, -⟩
      · cases hadd
      · exact hne rfl
    · rcases hr.of_concat with ⟨salt, rfl, -⟩ | ⟨-, hr⟩
      · exact hother rfl
      · exact ih h hr

theorem Registered.unique {password' : String} (h : Registered l user password) (h' : Registered l user password') :
    password = password' := by
  induction l using List.reverseRecOn with
  | nil => exact absurd h not_registered_nil
  | append_singleton l r ih =>
    rcases h.of_concat with ⟨salt, rfl, ha⟩ | ⟨-, h⟩
    · rcases h'.of_concat with ⟨salt', hadd, -⟩ | ⟨-, h'⟩
      · exact (Request.add.inj hadd).2.2
      · exact absurd h' ha.not_registered
    · rcases h'.of_concat with ⟨salt', -, ha⟩ | ⟨-, h'⟩
      · exact absurd h ha.not_registered
      · exact ih h h'

theorem registered_or_absent (hu : Acceptable user) (l : List Request) :
    (∃ password, Registered l user password) ∨ Absent l user := by
  induction l using List.reverseRecOn with
  | nil => exact .inr (absent_nil user)
  | append_singleton l r ih =>
    by_cases hd : r = .delete user
    · rw [hd]
      exact .inr (absent_delete l user)
    · rcases ih with ⟨password, h⟩ | h
      · exact .inl ⟨password, h.later hd⟩
      · by_cases hr : r.user? = some user
        · cases r with
          | add salt name password =>
            obtain rfl := Option.some.inj hr
            exact .inl ⟨password, hu, l, salt, [], rfl, h, by simp⟩
          | delete name =>
            obtain rfl := Option.some.inj hr
            exact absurd rfl hd
          | list => cases hr
        · exact .inr (h.later hr)

theorem registered_list : Registered (l ++ [Request.list]) user password ↔ Registered l user password := by
  constructor
  · intro h
    rcases h.of_concat with ⟨salt, hr, -⟩ | ⟨-, h⟩
    · cases hr
    · exact h
  · intro h
    exact h.later Request.noConfusion

theorem registered_delete :
    Registered (l ++ [Request.delete other]) user password ↔ user ≠ other ∧ Registered l user password := by
  constructor
  · intro h
    rcases h.of_concat with ⟨salt, hr, -⟩ | ⟨hne, h⟩
    · cases hr
    · exact ⟨fun e => hne (e ▸ rfl), h⟩
  · intro h
    exact h.2.later fun e => h.1 (Request.delete.inj e).symm

theorem registered_add {salt : List UInt8} {password' : String} :
    Registered (l ++ [Request.add salt other password']) user password ↔ Registered l user password ∨
      (Acceptable other ∧ Absent l other) ∧ user = other ∧ password = password' := by
  constructor
  · intro h
    rcases h.of_concat with ⟨salt', hr, ha⟩ | ⟨-, hl⟩
    · cases hr
      exact .inr ⟨⟨h.1, ha⟩, rfl, rfl⟩
    · exact .inl hl
  · intro h
    rcases h with h | ⟨⟨hu, ha⟩, rfl, rfl⟩
    · exact h.later Request.noConfusion
    · exact ⟨hu, l, salt, [], rfl, ha, by simp⟩

end

/-! ## Requests on a memory -/

section
variable {c : Credentials} {l : List Request} {m : Memory}

structure Keeps (c : Credentials) (l : List Request) (m : Memory) : Prop where
  registered : ∀ user hash, m.users.get? user = some hash →
    ∃ salt password, Registered l user password ∧ hash = c.scheme.hash salt password
  known : ∀ user password, Registered l user password → m.users.contains user = true

theorem deleteUser_eq (hc : c.mode = .localUsers) (user : String) :
    c.deleteUser user = Catalog.ask (.deleteUser user) := by
  unfold deleteUser requireLocal
  rw [hc]
  rfl

theorem listUsers_eq (hc : c.mode = .localUsers) : c.listUsers = Catalog.ask .listUsernames := by
  unfold listUsers requireLocal
  rw [hc]
  rfl

theorem run_addUser_unacceptable {σ : Type} {h : Handler Catalog.interface σ} (hc : c.mode = .localUsers)
    {user : String} (hu : ¬ Acceptable user) (salt : List UInt8) (password : String) (s : σ) :
    ∃ reason, (c.addUser salt user password).run.run h s = (.error (.invalidRequest reason), s) := by
  unfold addUser requireLocal
  rw [hc]
  by_cases hempty : user = ""
  · rw [if_pos hempty]
    exact ⟨"username is empty", rfl⟩
  · have hcolon : user.toList.contains ':' = true := by
      simpa [Acceptable, hempty] using hu
    rw [if_neg hempty, if_pos hcolon]
    exact ⟨"username may not contain ':'", rfl⟩

theorem run_addUser (hc : c.mode = .localUsers) {user : String} (hu : Acceptable user) (salt : List UInt8)
    (password : String) (m : Memory) : (c.addUser salt user password).run.run Memory.handle m =
      if m.users.contains user then (.ok false, m)
      else (.ok true, { m with users := m.users.insert user (c.scheme.hash salt password) }) := by
  have hcolon : ¬ user.toList.contains ':' = true := by simpa using hu.2
  unfold addUser requireLocal
  rw [hc, if_neg hu.1, if_neg hcolon]
  show (Catalog.ask (.readUser user) >>= _ : CatalogM Bool).run.run Memory.handle m = _
  rw [run_run_bind, Ledger.run_ask]
  cases hk : m.users.contains user with
  | true =>
    obtain ⟨hash, hget⟩ := SortedMap.contains_iff.mp hk
    simp only [Memory.respond, hget]
    rfl
  | false =>
    simp only [Memory.respond, SortedMap.contains_eq_false_iff.mp hk]
    show (Catalog.ask (.insertUser _) : CatalogM Bool).run.run Memory.handle m = _
    rw [Ledger.run_ask]
    simp [Memory.respond, hk]

theorem keeps_empty (c : Credentials) : Keeps c [] .empty where
  registered user hash h := by cases h
  known user password h := absurd h not_registered_nil

theorem Keeps.unchanged (h : Keeps c l m) {r : Request}
    (hr : ∀ user password, Registered (l ++ [r]) user password ↔ Registered l user password) :
    Keeps c (l ++ [r]) m where
  registered user hash hu := by
    obtain ⟨salt, password, hl, he⟩ := h.registered user hash hu
    exact ⟨salt, password, (hr user password).mpr hl, he⟩
  known user password hl := h.known user password ((hr user password).mp hl)

theorem Keeps.delete (h : Keeps c l m) (name : String) :
    Keeps c (l ++ [Request.delete name]) { m with users := m.users.erase name } where
  registered user hash hu := by
    rw [SortedMap.get?_erase] at hu
    split at hu
    · cases hu
    · next hname =>
      obtain ⟨salt, password, hl, he⟩ := h.registered user hash hu
      exact ⟨salt, password, registered_delete.mpr ⟨hname, hl⟩, he⟩
  known user password hl := by
    obtain ⟨hname, hl⟩ := registered_delete.mp hl
    simp [hname, h.known user password hl]

theorem Keeps.add (h : Keeps c l m) {name : String} (hn : Acceptable name) (ha : Absent l name) (salt : List UInt8)
    (password : String) : Keeps c (l ++ [Request.add salt name password])
      { m with users := m.users.insert name (c.scheme.hash salt password) } where
  registered user hash hu := by
    rw [SortedMap.get?_insert] at hu
    split at hu
    · next hname =>
      exact ⟨salt, password, registered_add.mpr (.inr ⟨⟨hn, ha⟩, hname, rfl⟩), (Option.some.inj hu).symm⟩
    · obtain ⟨salt', password', hl, he⟩ := h.registered user hash hu
      exact ⟨salt', password', registered_add.mpr (.inl hl), he⟩
  known user password' hl := by
    rw [SortedMap.contains_insert]
    rcases registered_add.mp hl with hl | ⟨-, rfl, -⟩
    · exact .inr (h.known user password' hl)
    · exact .inl rfl

theorem Keeps.step (hc : c.mode = .localUsers) (h : Keeps c l m) (r : Request) :
    Keeps c (l ++ [r]) ((r.program c).run.run Memory.handle m).2 := by
  cases r with
  | list =>
    show Keeps c (l ++ [Request.list]) (c.listUsers.run.run Memory.handle m).2
    rw [listUsers_eq hc]
    exact h.unchanged fun _ _ => registered_list
  | delete name =>
    show Keeps c (l ++ [Request.delete name]) ((c.deleteUser name).run.run Memory.handle m).2
    rw [deleteUser_eq hc]
    exact h.delete name
  | add salt name password =>
    show Keeps c (l ++ [Request.add salt name password]) ((c.addUser salt name password).run.run Memory.handle m).2
    by_cases hn : Acceptable name
    · rw [run_addUser hc hn]
      cases hk : m.users.contains name with
      | true =>
        -- The user is registered, and stays so with the password that it has.
        obtain ⟨hash, hget⟩ := SortedMap.contains_iff.mp hk
        obtain ⟨salt', own, hown, -⟩ := h.registered name hash hget
        refine h.unchanged fun user password' => ?_
        rw [registered_add]
        exact or_iff_left fun hnew => hnew.1.2.not_registered hown
      | false =>
        rcases registered_or_absent hn l with ⟨own, hown⟩ | ha
        · rw [h.known name own hown] at hk
          cases hk
        · exact h.add hn ha salt password
    · obtain ⟨reason, hrun⟩ := run_addUser_unacceptable (h := Memory.handle) hc hn salt password m
      rw [hrun]
      refine h.unchanged fun user password' => ?_
      rw [registered_add]
      exact or_iff_left fun hnew => hn hnew.1.1

theorem run_authenticate (hc : c.mode = .localUsers) (header : String) (m : Memory) :
    ((c.authenticate header).run Memory.handle m).1 = true ↔ ∃ user password, parseBasic? header = some (user, password) ∧
      ∃ hash, m.users.get? user = some hash ∧ c.scheme.verify password hash = true := by
  unfold authenticate
  rw [hc]
  cases hp : parseBasic? header with
  | none =>
    show false = true ↔ _
    simp
  | some x =>
    obtain ⟨user, password⟩ := x
    have hrun : ((c.verifyLocal user password).run Memory.handle m).1 =
        (m.users.get? user).any (c.scheme.verify password) := by
      show (((Catalog.ask (.readUser user)).run.bind _).run Memory.handle m).1 = _
      rw [run_bind, Ledger.run_ask]
      simp only [Memory.respond]
      cases m.users.get? user <;> rfl
    show ((c.verifyLocal user password).run Memory.handle m).1 = true ↔ _
    rw [hrun, Option.any_eq_true]
    simp

end

/-! ## Histories of a catalog -/

section
variable {c : Credentials} {b : Backing}

theorem Request.calls_program (r : Request) : (r.program c).run.Calls fun op : Catalog.Op => op ≠ .close := by
  cases r with
  | add salt user password => exact calls_addUser c (by simp) (by simp) salt password
  | delete user => exact calls_deleteUser c (by simp)
  | list => exact calls_listUsers c (by simp)

theorem after_concat (b : Backing) (l : List Request) (r : Request) :
    c.after b (l ++ [r]) = ((r.program c).run.run Backing.handle (c.after b l)).2 := by
  unfold after
  rw [List.foldl_append]
  rfl

theorem holds_after (hc : c.mode = .localUsers) (hb : b = .memory .empty ∨ b = .relational .empty) (l : List Request) :
    ∃ m, (c.after b l).Holds m ∧ Keeps c l m := by
  induction l using List.reverseRecOn with
  | nil =>
    have hempty : b.Holds .empty := by
      rcases hb with rfl | rfl
      · exact .memory Catalog.Memory.keyed_empty
      · exact .relational Catalog.Memory.keyed_empty Catalog.Database.holds_empty
    exact ⟨.empty, hempty, keeps_empty c⟩
  | append_singleton l r ih =>
    obtain ⟨m, hm, hk⟩ := ih
    obtain ⟨-, -, hm'⟩ := Backing.run_holds (Request.calls_program (c := c) r) hm
    rw [after_concat]
    exact ⟨_, hm', hk.step hc r⟩

theorem handle_deleteUser_unknown {m : Memory} (h : b.Holds m) {user : String} (hu : m.users.contains user = false) :
    Backing.handle (.deleteUser user) b = (.ok false, b) := by
  cases h with
  | memory hk =>
    simp only [Backing.handle, Memory.handle, Memory.respond, hu, SortedMap.erase_eq_self hu]
  | @relational db _ hk h =>
    have hany : db.users.any (·.1 == user) = false := (h.any_user user).trans hu
    have hfilter : db.users.filter (!·.1 == user) = db.users :=
      List.filter_eq_self.mpr fun row hrow => by simpa using List.any_eq_false.mp hany row hrow
    have hrun : (Catalog.Relational.respond (.deleteUser user)).run db = .ok (false, db) := by
      refine Catalog.Relational.run_write (Catalog.Transaction.run_deleteWhere h.untriggered rfl) |>.trans ?_
      rw [hany, hfilter]
      rfl
    simp only [Backing.handle, Catalog.Relational.handle, Catalog.Relational.ofDatabase, if_true, hrun]

end

/-! ## Logging in -/

/-- A catalog answers as the registrations say that stand after some requests. -/
structure Reflects (c : Credentials) (l : List Request) (b : Backing) : Prop where
  /-- A header is admitted if its password is the one with which its user has been registered. -/
  admits : ∀ header, ((c.authenticate header).run Backing.handle b).1 = true ↔
    ∃ user password, parseBasic? header = some (user, password) ∧ Registered l user password
  lists : ∃ users, (c.listUsers.run.run Backing.handle b).1 = .ok users ∧ users.Pairwise (· < ·) ∧
    ∀ user, user ∈ users ↔ ∃ password, Registered l user password
  /-- A name that cannot stand in a header is not registered. -/
  refuses : ∀ user, ¬ Acceptable user → ∀ salt password, ∃ reason,
    (c.addUser salt user password).run.run Backing.handle b = (.error (.invalidRequest reason), b)
  /-- There is no user of such a name to be removed. -/
  ignores : ∀ user, ¬ Acceptable user → (c.deleteUser user).run.run Backing.handle b = (.ok false, b)
  /-- Any other user is registered, by the request or by an earlier one. -/
  accepts : ∀ user, Acceptable user → ∀ salt password,
    (∃ new, ((c.addUser salt user password).run.run Backing.handle b).1 = .ok new) ∧
      ∃ own, Registered (l ++ [.add salt user password]) user own
  logsIn : ∀ user password, Registered l user password →
    ((c.authenticate (basicHeader user password)).run Backing.handle b).1 = true

section
variable {c : Credentials} {b : Backing} {l : List Request} {m : Memory}

theorem Keeps.admits (hc : c.mode = .localUsers) (hs : c.scheme.Exact) (hk : Keeps c l m) (hm : b.Holds m)
    (header : String) : ((c.authenticate header).run Backing.handle b).1 = true ↔
      ∃ user password, parseBasic? header = some (user, password) ∧ Registered l user password := by
  have hcalls : (c.authenticate header).Calls fun op : Catalog.Op => op ≠ .close :=
    calls_authenticate (by simp) header
  rw [(Backing.run_holds hcalls hm).2.1, run_authenticate hc]
  constructor
  · intro h
    obtain ⟨user, password, hp, hash, hget, hverify⟩ := h
    obtain ⟨salt, own, hown, rfl⟩ := hk.registered user hash hget
    exact ⟨user, password, hp, ((hs salt password own).mp hverify).symm ▸ hown⟩
  · intro h
    obtain ⟨user, password, hp, hr⟩ := h
    obtain ⟨hash, hget⟩ := SortedMap.contains_iff.mp (hk.known user password hr)
    obtain ⟨salt, own, hown, rfl⟩ := hk.registered user hash hget
    exact ⟨user, password, hp, _, hget, (hs salt password own).mpr (hr.unique hown)⟩

theorem Keeps.lists (hc : c.mode = .localUsers) (hk : Keeps c l m) (hm : b.Holds m) :
    ∃ users, (c.listUsers.run.run Backing.handle b).1 = .ok users ∧ users.Pairwise (· < ·) ∧
      ∀ user, user ∈ users ↔ ∃ password, Registered l user password := by
  rw [listUsers_eq hc, (Backing.run_holds (calls_ask (by simp)) hm).2.1, Ledger.run_ask]
  refine ⟨m.users.keys, rfl, ?_, fun user => ?_⟩
  · exact List.pairwise_map.mpr (m.users.ascending.imp fun h => compareOfLessAndEq_eq_lt.mp h)
  · rw [SortedMap.mem_keys_iff]
    constructor
    · intro hu
      obtain ⟨hash, hget⟩ := SortedMap.contains_iff.mp hu
      obtain ⟨salt, own, hown, -⟩ := hk.registered user hash hget
      exact ⟨own, hown⟩
    · intro hu
      obtain ⟨password, hr⟩ := hu
      exact hk.known user password hr

theorem Keeps.reflects (hc : c.mode = .localUsers) (hs : c.scheme.Exact) (hk : Keeps c l m) (hm : b.Holds m) :
    Reflects c l b where
  admits := hk.admits hc hs hm
  lists := hk.lists hc hm
  refuses user hu salt password := run_addUser_unacceptable hc hu salt password b
  ignores user hu := by
    have hunknown : m.users.contains user = false := by
      rw [SortedMap.contains_eq_false_iff, Option.eq_none_iff_forall_ne_some]
      intro hash hget
      obtain ⟨salt, own, hr, -⟩ := hk.registered user hash hget
      exact hu hr.1
    rw [deleteUser_eq hc]
    exact handle_deleteUser_unknown hm hunknown
  accepts user hu salt password := by
    rw [(Backing.run_holds (calls_addUser c (by simp) (by simp) salt password) hm).2.1, run_addUser hc hu]
    refine ⟨?_, ?_⟩
    · split
      · exact ⟨false, rfl⟩
      · exact ⟨true, rfl⟩
    · rcases registered_or_absent hu l with ⟨own, hown⟩ | ha
      · exact ⟨own, registered_add.mpr (.inl hown)⟩
      · exact ⟨password, registered_add.mpr (.inr ⟨⟨hu, ha⟩, rfl, rfl⟩)⟩
  logsIn user password hr :=
    (hk.admits hc hs hm _).mpr ⟨user, password, parseBasic?_basicHeader hr.1.2 password, hr⟩

/-- Whatever has been asked of a catalog that was empty at first, in memory or in tables, it answers as the
registrations say that stand. -/
theorem registered_users_log_in (hc : c.mode = .localUsers) (hs : c.scheme.Exact)
    (hb : b = .memory .empty ∨ b = .relational .empty) (l : List Request) : Reflects c l (c.after b l) := by
  obtain ⟨m, hm, hk⟩ := holds_after hc hb l
  exact hk.reflects hc hs hm

end

namespace Sample

def credentials : Credentials :=
  ⟨.localUsers, ⟨fun _ password => "$" ++ password, fun password hash => hash == "$" ++ password⟩⟩

theorem exact_credentials : credentials.scheme.Exact := by
  intro salt password other
  show ("$" ++ other == "$" ++ password) = true ↔ password = other
  rw [beq_iff_eq, ← String.toList_inj, String.toList_append, String.toList_append, List.append_cancel_left_eq,
    String.toList_inj, eq_comm]

def requests : List Request :=
  [.add [] "alice" "first", .add [] "bob" "b", .add [] "alice" "second", .delete "bob", .add [] "a:b" "x"]

theorem registered_alice : Registered requests "alice" "first" :=
  ⟨by decide, [], [], requests.tail, rfl, absent_nil "alice", by decide⟩

end Sample

open Sample in
theorem alice_logs_in_with_first_password : credentials.mode = .localUsers ∧ credentials.scheme.Exact ∧
    Registered requests "alice" "first" ∧
    ((credentials.authenticate (basicHeader "alice" "first")).run Backing.handle
      (credentials.after (.relational .empty) requests)).1 = true := by
  have reflects := registered_users_log_in rfl exact_credentials (.inr rfl) requests
  exact ⟨rfl, exact_credentials, registered_alice, reflects.logsIn "alice" "first" registered_alice⟩

/-- Not every request about a name that cannot be registered is refused: there is nobody to remove. -/
theorem unacceptable_not_refused : ¬ ∀ {c : Credentials} {b : Backing}, c.mode = .localUsers → c.scheme.Exact →
    (b = .memory .empty ∨ b = .relational .empty) → ∀ (l : List Request) (r : Request) (user : String),
      r.user? = some user → ¬ Acceptable user →
        ∃ reason, ((r.program c).run.run Backing.handle (c.after b l)).1 = .error (.invalidRequest reason) := by
  intro h
  obtain ⟨reason, hr⟩ := h (c := Sample.credentials) (b := .memory .empty) rfl Sample.exact_credentials (.inl rfl) []
    (.delete "") "" rfl (by decide)
  cases hr

end Credentials

end BlobDepot
