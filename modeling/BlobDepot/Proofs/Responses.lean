import BlobDepot.Http.Server

/-!
# Headers and statuses of responses

A header that is set hides those of its name and leaves the others as they are. A request that fails is not
answered with success.
-/

namespace BlobDepot.Http

open Text (sameLetters)

/-! ## Headers -/

theorem sameLetters_congr {a b c : String} (h : sameLetters a b = true) :
    sameLetters a c = sameLetters b c := by
  unfold sameLetters at *
  rw [eq_of_beq h]

theorem Headers.get?_set_of_ne (h : Headers) {name name' : String} (value : ByteArray)
    (hne : sameLetters name' name = false) : (h.set name' value).get? name = h.get? name := by
  unfold Headers.set Headers.get?
  have last : [(name', value)].find? (fun e => sameLetters e.1 name) = none := by
    rw [List.find?_singleton, hne]; rfl
  rw [List.find?_append, last, Option.or_none, List.find?_filter]
  refine congrArg (Option.map Prod.snd) ?_
  refine congrArg (fun p => List.find? p h) (funext fun e => ?_)
  by_cases he : sameLetters e.1 name' = true
  · have hn : sameLetters e.1 name = false := (sameLetters_congr he).trans hne
    rw [hn]; simp
  · simp [he]

theorem Headers.get?_set_self (h : Headers) (name : String) (value : ByteArray) :
    (h.set name value).get? name = some value := by
  unfold Headers.set Headers.get?
  have hidden : (h.filter fun e => !sameLetters e.1 name).find? (fun e => sameLetters e.1 name) = none := by
    rw [List.find?_eq_none]
    intro e he
    have := (List.mem_filter.mp he).2
    simpa using this
  rw [List.find?_append, hidden, Option.none_or, List.find?_singleton]
  simp [sameLetters]

theorem Response.withLength_of_contains {a : Response} (h : a.headers.contains "content-length" = true) :
    a.withLength = a :=
  if_pos h

/-! ## Completed responses -/

theorem status_withLength (a : Response) : a.withLength.status = a.status := by
  unfold Response.withLength
  split <;> rfl

theorem status_complete (fresh : Fresh) (r : Request) (a : Response) : (complete fresh r a).status = a.status :=
  status_withLength a

theorem body_complete (fresh : Fresh) {r : Request} (hr : r.method ≠ "HEAD") (a : Response) :
    (complete fresh r a).body = a.body := by
  have hbody : a.withLength.body = a.body := by
    unfold Response.withLength
    split <;> rfl
  exact (if_neg hr).trans hbody

theorem get?_complete (fresh : Fresh) (r : Request) (a : Response) {name : String}
    (hl : sameLetters "content-length" name = false) (hi : sameLetters "x-request-id" name = false) :
    (complete fresh r a).headers.get? name = a.headers.get? name := by
  have hlength : a.withLength.headers.get? name = a.headers.get? name := by
    unfold Response.withLength
    split
    · rfl
    · exact Headers.get?_set_of_ne _ _ hl
  exact (Headers.get?_set_of_ne _ _ hi).trans hlength

/-! ## Failures -/

theorem status_errorResponse (e : DepotError) : (errorResponse e).status = errorStatus e := by
  unfold errorResponse
  dsimp only
  split <;> rfl

theorem le_errorStatus (e : DepotError) : 400 ≤ errorStatus e := by
  cases e with
  | catalog e => cases e <;> simp [errorStatus, catalogStatus]
  | vault e => cases e <;> simp [errorStatus, vaultStatus]
  | _ => simp [errorStatus]

theorem Failure.le_status (e : Failure) : 400 ≤ e.response.status := by
  cases e with
  | rejected x => cases x <;> decide
  | failed e =>
    show 400 ≤ (errorResponse e).status
    rw [status_errorResponse]
    exact le_errorStatus e

theorem Failure.status_ne (e : Failure) : e.response.status ≠ 200 := by
  have := e.le_status
  omega

/-! ## Routes -/

theorem Route.decoded?_object {route : Route} {space repo text : String}
    (h : route.decoded? = some (.object space repo text)) : ∃ a b c, route = .object a b c := by
  cases route with
  | object a b c => exact ⟨a, b, c, rfl⟩
  | _ => simp [Route.decoded?, Option.bind_eq_some_iff] at h

theorem Route.object_of_decoded? {a b c : String} {route : Route} (h : (object a b c).decoded? = some route) :
    ∃ space repo text, route = .object space repo text := by
  simp only [Route.decoded?, Option.bind_eq_bind, Option.bind_eq_some_iff] at h
  obtain ⟨space, -, repo, -, text, -, h⟩ := h
  exact ⟨space, repo, text, (Option.some.inj h).symm⟩

section
variable {route route' : Route}

theorem Route.isManaged_decoded? (h : route.decoded? = some route') : route'.isManaged = route.isManaged := by
  cases route <;> simp [Route.decoded?, Option.bind_eq_some_iff] at h <;> grind [Route.isManaged]

theorem Route.methods_decoded? (h : route.decoded? = some route') : route'.methods = route.methods := by
  cases route <;> simp [Route.decoded?, Option.bind_eq_some_iff] at h <;> grind [Route.methods]

end

end BlobDepot.Http
