import BlobDepot.Proofs.Detachments

/-!
# Removals that are repeated

Where one of the calls of a removal fails, the removal ends with that failure. Repeating it completes it while the object
is still in the project, by the project's list or by its own record. Afterwards it is refused, and a record that would
have been deleted stays: `retried_or_refused`.
-/

namespace BlobDepot

open Catalog (Backing Memory Op)
open Prog (surfaces_run_bind trace_run_bind)

def Catalog.failing (reason : String) : (op : Op) → Catalog.interface.Answer op :=
  fun _ => .error (.backend reason)

namespace Ledger

variable {oid : Oid} {project : String} {reason : String} {m : Memory} {b b' : Backing}

/-! ## Where a removal is interrupted -/

theorem surfaces_ask (reason : String) (op : Op) :
    (Catalog.ask op).run.Surfaces (Catalog.failing reason) (.error (.backend reason)) :=
  ⟨rfl, fun _ => trivial⟩

theorem surfaces_conclude (reason : String) (oid : Oid) (project : String) (w h : Bool) (found : Option ObjectRecord) :
    (conclude oid project w h found).run.Surfaces (Catalog.failing reason) (.error (.backend reason)) := by
  unfold conclude
  cases found with
  | none =>
    dsimp only
    split <;> trivial
  | some r =>
    dsimp only
    split
    · trivial
    split
    · trivial
    refine surfaces_run_bind (surfaces_run_bind (surfaces_ask reason _) fun _ => trivial) fun l => ?_
    split
    · trivial
    · exact surfaces_ask reason _

theorem surfaces_removeFromProject (reason : String) (oid : Oid) (project : String) :
    (removeFromProject oid project).run.Surfaces (Catalog.failing reason) (.error (.backend reason)) := by
  rw [removeFromProject_eq]
  refine surfaces_run_bind (surfaces_ask reason _) fun w => ?_
  refine surfaces_run_bind (surfaces_ask reason _) fun h => ?_
  exact surfaces_run_bind (surfaces_ask reason _) fun found => surfaces_conclude reason oid project w h found

section
variable {σ β : Type} {h : Handler Catalog.interface σ} {op : Op} {s : σ} {x : op.Result}

theorem stateAt_ask_bind (hx : (h op s).1 = .ok x) (k : op.Result → CatalogM β) (n : Nat) :
    (Catalog.ask op >>= k).run.stateAt h (n + 1) s = (k x).run.stateAt h n (h op s).2 := by
  rw [ExceptT.run_bind]
  show Prog.stateAt h n (Prog.bind (.done (h op s).1) _) (h op s).2 = _
  rw [hx]
  rfl

theorem trace_ask_bind (hx : (h op s).1 = .ok x) (k : op.Result → CatalogM β) :
    (Catalog.ask op >>= k).run.trace h s = ⟨op, .ok x⟩ :: (k x).run.trace h (h op s).2 := by
  have hask : (Catalog.ask op).run.run h s = (.ok x, (h op s).2) := Prod.ext hx rfl
  have hfirst : (Catalog.ask op).run.trace h s = [⟨op, .ok x⟩] := by
    rw [← hx]
    rfl
  rw [trace_run_bind, hask, hfirst]
  rfl

theorem length_trace_ask_bind (hx : (h op s).1 = .ok x) (k : op.Result → CatalogM β) :
    ((Catalog.ask op >>= k).run.trace h s).length = ((k x).run.trace h (h op s).2).length + 1 := by
  rw [trace_ask_bind hx, List.length_cons]

end

/-- Until it deletes the record, a removal only reads from here on. -/
theorem stateAt_conclude (hb : b.Holds m) {w h : Bool} {found : Option ObjectRecord} {n : Nat}
    (hn : n < ((conclude oid project w h found).run.trace Backing.handle b).length) :
    (conclude oid project w h found).run.stateAt Backing.handle n b = b := by
  have hlist := (Backing.handle_holds hb (show Op.listProjects ≠ .close by simp)).1
  unfold conclude at hn ⊢
  cases found with
  | none =>
    dsimp only at hn
    split at hn <;> exact absurd hn (Nat.not_lt_zero n)
  | some r =>
    rw [Projects.referencing, Projects.list] at hn ⊢
    dsimp only at hn ⊢
    simp only [bind_assoc, pure_bind] at hn ⊢
    split at hn
    · exact absurd hn (Nat.not_lt_zero n)
    next hpart =>
    split at hn
    · exact absurd hn (Nat.not_lt_zero n)
    next hempty =>
    rw [if_neg hpart, if_neg hempty]
    cases n with
    | zero => rfl
    | succ n =>
      rw [length_trace_ask_bind hlist, Backing.handle_listProjects] at hn
      rw [stateAt_ask_bind hlist, Backing.handle_listProjects]
      have hlast := Nat.lt_of_succ_lt_succ hn
      split at hlast
      · exact absurd hlast (Nat.not_lt_zero n)
      · have hzero : n = 0 := Nat.lt_one_iff.mp hlast
        subst hzero
        rfl

/-- The catalog that a removal leaves if one of its calls fails. -/
def interrupted (b : Backing) (oid : Oid) (project : String) : Nat → Backing
  | 0 => b
  | 1 => (Backing.handle (.removeProjectMember project oid) b).2
  | _ => detached b oid project

theorem stateAt_removeFromProject (hb : b.Holds m) {n : Nat}
    (hn : n < ((removeFromProject oid project).run.trace Backing.handle b).length) :
    (removeFromProject oid project).run.stateAt Backing.handle n b = interrupted b oid project n := by
  obtain ⟨hmember, hb₁⟩ := Backing.handle_holds hb (show Op.removeProjectMember project oid ≠ .close by simp)
  obtain ⟨hrefers, hb₂⟩ := Backing.handle_holds hb₁ (show Op.removeObjectProject oid project ≠ .close by simp)
  obtain ⟨hread, hb₃⟩ := Backing.handle_holds hb₂ (show Op.readObject oid ≠ .close by simp)
  rw [removeFromProject_eq, Projects.removeObject] at hn ⊢
  rw [length_trace_ask_bind hmember, length_trace_ask_bind hrefers, length_trace_ask_bind hread] at hn
  rcases n with _ | _ | _ | n
  · rfl
  · rw [stateAt_ask_bind hmember]
    rfl
  · rw [stateAt_ask_bind hmember, stateAt_ask_bind hrefers]
    rfl
  · rw [stateAt_ask_bind hmember, stateAt_ask_bind hrefers, stateAt_ask_bind hread, stateAt_conclude hb₃ (by omega),
      Backing.handle_readObject]
    rfl

/-! ## What repeating it comes to -/

/-- A removal that has taken the object out of the project is refused from then on. -/
theorem run_removeFromProject_again (hb : b.Holds m) (oid : Oid) (project : String) :
    (removeFromProject oid project).run.run Backing.handle (detached b oid project) =
      (.error (refusal m oid project), detached b oid project) := by
  have hparts := parts_parted m oid project
  have hmember : ¬ (parted m oid project).Member project oid := by simp [hparts.members]
  have hrefers : ¬ (parted m oid project).Refers oid project := by
    unfold parted
    rw [Memory.refers_respond]
    simp
  have hrefusal : refusal (parted m oid project) oid project = refusal m oid project := by
    have hcontains : (parted m oid project).objects.contains oid = m.objects.contains oid := by
      rw [Bool.eq_iff_iff, SortedMap.contains_iff, SortedMap.contains_iff, hparts.record]
      simp
    rw [refusal, hcontains]
    rfl
  rw [run_removeFromProject_apart (detached_holds hb oid project) hmember hrefers, hrefusal]

/-- A removal that has taken the object off the project's list is completed by repeating it, if the record refers to
the project. -/
theorem run_removeFromProject_unlisted (hb : b.Holds m) (h : m.Refers oid project) :
    (removeFromProject oid project).run.run Backing.handle
        (Backing.handle (.removeProjectMember project oid) b).2 =
      (removeFromProject oid project).run.run Backing.handle b := by
  have hb₁ := (Backing.handle_holds hb (show Op.removeProjectMember project oid ≠ .close by simp)).2
  have hmember : ¬ (m.respond (.removeProjectMember project oid)).2.Member project oid := by
    rw [Memory.member_respond]
    simp
  have hdetached : detached (Backing.handle (.removeProjectMember project oid) b).2 oid project =
      detached b oid project := by
    unfold detached
    rw [Backing.handle_removeProjectMember_absent hb₁ hmember]
  have hanswer := Memory.respond_removeProjectMember_absent hmember
  have hparted : parted (m.respond (.removeProjectMember project oid)).2 oid project = parted m oid project := by
    unfold parted
    rw [hanswer]
  have hreference : (wasPart (m.respond (.removeProjectMember project oid)).2 oid project).2 = true := by
    rw [wasPart_snd, Memory.refers_respond]
    exact h
  have hreference' : (wasPart m oid project).2 = true := wasPart_snd.mpr h
  obtain ⟨r, hr, -⟩ := h
  rw [run_removeFromProject_detached hb₁, run_removeFromProject_detached hb, hdetached, hparted, hreference,
    hreference', (parts_parted m oid project).record, hr]
  -- a reference that was there outweighs whether the project listed the object
  unfold conclude
  simp

theorem interrupted_of_late (hb : b.Holds m) {n : Nat} (h : ¬ (n = 0 ∨ n = 1 ∧ m.Refers oid project)) :
    interrupted b oid project n = detached b oid project := by
  rcases n with _ | _ | n
  · exact absurd (.inl rfl) h
  · have hb₁ := (Backing.handle_holds hb (show Op.removeProjectMember project oid ≠ .close by simp)).2
    have hrefers : ¬ (m.respond (.removeProjectMember project oid)).2.Refers oid project := by
      rw [Memory.refers_respond]
      exact fun hrefers => h (.inr ⟨rfl, hrefers⟩)
    have hsame := Backing.handle_removeObjectProject_absent hb₁ hrefers
    exact (congrArg Prod.snd hsame).symm
  · rfl

/-- If a call of a removal that would succeed fails, the removal fails with it. It can be completed by repeating it
as long as the object is still in the project, and otherwise it is refused. -/
theorem retried_or_refused (hb : b.Holds m) {x : Bool}
    (hrun : (removeFromProject oid project).run.run Backing.handle b = (.ok x, b')) {n : Nat}
    (hn : n < ((removeFromProject oid project).run.trace Backing.handle b).length) (reason : String) :
    ∃ c, (removeFromProject oid project).run.runFailing Backing.handle (Catalog.failing reason) n b =
        (.error (.backend reason), c) ∧
      (n = 0 ∨ n = 1 ∧ m.Refers oid project →
        (removeFromProject oid project).run.run Backing.handle c = (.ok x, b')) ∧
      (¬ (n = 0 ∨ n = 1 ∧ m.Refers oid project) →
        (removeFromProject oid project).run.run Backing.handle c = (.error (refusal m oid project), c) ∧
          (∃ m', c.Holds m' ∧ Parts oid project
            ((m.objects.get? oid).map fun r => { r with projects := r.projects.erase project }) m m') ∧
            b' = if x then (Backing.handle (.deleteObject oid) c).2 else c) := by
  refine ⟨interrupted b oid project n, ?_, fun hearly => ?_, fun hlate => ?_⟩
  · rw [(surfaces_removeFromProject reason oid project).runFailing hn, stateAt_removeFromProject hb hn]
  · rcases hearly with rfl | ⟨rfl, hrefers⟩
    · exact hrun
    · exact (run_removeFromProject_unlisted hb hrefers).trans hrun
  · have hpart : m.Member project oid ∨ m.Refers oid project := by
      by_contra hapart
      obtain ⟨hmember, hrefers⟩ := not_or.mp hapart
      rw [run_removeFromProject_apart hb hmember hrefers] at hrun
      cases hrun
    obtain ⟨y, -, hrun', -⟩ := run_removeFromProject_part hb hpart
    rw [hrun] at hrun'
    rw [interrupted_of_late hb hlate]
    cases hrun'
    exact ⟨run_removeFromProject_again hb oid project,
      ⟨_, detached_holds hb oid project, parts_parted m oid project⟩, rfl⟩

namespace Sample

def claim : Memory :=
  ((Memory.empty.respond (.addProjectMember "p" default)).2.respond (.insertObject (.pending default 3 "p"))).2

theorem claim_holds : (Backing.memory claim).Holds claim :=
  .memory (Catalog.Memory.keyed_respond (Catalog.Memory.keyed_respond Catalog.Memory.keyed_empty _) _)

end Sample

open Sample in
theorem retried_or_refused_of_claim :
    let p := (removeFromProject default "p").run
    let b := Backing.memory claim
    ∃ b', b.Holds claim ∧ p.run Backing.handle b = (.ok true, b') ∧ (p.trace Backing.handle b).length = 5 ∧
      claim.Refers default "p" ∧
        (∃ c, p.runFailing Backing.handle (Catalog.failing "down") 1 b = (.error (.backend "down"), c) ∧
          p.run Backing.handle c = (.ok true, b')) ∧
            ∃ c, p.runFailing Backing.handle (Catalog.failing "down") 4 b = (.error (.backend "down"), c) ∧
              p.run Backing.handle c = (.error (refusal claim default "p"), c) ∧
                b' = (Backing.handle (.deleteObject default) c).2 := by
  intro p b
  have hrun : p.run Backing.handle b = (.ok true, (p.run Backing.handle b).2) :=
    Prod.ext (by decide +kernel) rfl
  have hlength : (p.trace Backing.handle b).length = 5 := by decide +kernel
  have hrefers : claim.Refers default "p" := by decide +kernel
  have hsecond : 1 < (p.trace Backing.handle b).length := by omega
  have hlast : 4 < (p.trace Backing.handle b).length := by omega
  obtain ⟨c, hfault, hretry, -⟩ := retried_or_refused claim_holds hrun hsecond "down"
  obtain ⟨c', hfault', -, hrefused⟩ := retried_or_refused claim_holds hrun hlast "down"
  obtain ⟨hrefused, -, hleft⟩ := hrefused (by omega)
  exact ⟨_, claim_holds, hrun, hlength, hrefers, ⟨c, hfault, hretry (.inr ⟨rfl, hrefers⟩)⟩,
    c', hfault', hrefused, hleft⟩

open Sample in
/-- A removal that would delete the record, and fails to read it, is not completed by repeating it. -/
theorem refused_after_third_call :
    let p := (removeFromProject default "p").run
    let b := Backing.memory claim
    let c := (p.runFailing Backing.handle (Catalog.failing "down") 2 b).2
    (p.run Backing.handle b).1 = .ok true ∧ 2 < (p.trace Backing.handle b).length ∧
      (p.runFailing Backing.handle (Catalog.failing "down") 2 b).1 = .error (.backend "down") ∧
        (p.run Backing.handle c).1 =
          .error (.invalidRequest ("object " ++ (default : Oid).hex ++ " is not part of project p")) := by
  decide +kernel

end Ledger

end BlobDepot
