import Coordination.Proofs.Gate.Attendance

/-!
# Requests that nobody can call off

A request without a signal cannot be called off. Asked, it is let in or waits as the gate
itself has it (`Desk.poll_of_unsignalled`), so whatever is done at a desk where no request
has a signal, nobody is ever told that they were (`Desk.not_cancelled_of_unsignalled`).

* `Desk.Unsignalled.apply`: what one step keeps.
-/

namespace Coordination

namespace Desk

/-- No open request has a signal. -/
def Unsignalled (desk : Desk) : Prop := ∀ request ∈ desk.requests, request.signal = none

/-- Whether a step makes no request with a signal. -/
def Step.Unsignalled : Step → Prop
  | create _ signal | acquire _ signal => signal = none
  | _ => True

/-- Without a signal, a request is let in or waits as the gate has it. -/
theorem poll_of_unsignalled {desk : Desk} {id : String} {request : Request}
    (hrequest : desk.request? id = some request) (hsignal : request.signal = none) :
    let admission := if request.asked then desk.gate.claim id else desk.gate.enter id
    (desk.poll id).1 = (if admission.1 then .admitted else .pending) ∧
      (desk.poll id).2.1.gate = admission.2 := by
  have hid : request.id = id := (request?_eq_some hrequest).1
  have hcalled : request.isCalledOff = false := by simp [Request.isCalledOff, hsignal]
  simp only [poll, hrequest]
  cases hasked : request.asked with
  | true =>
    by_cases hhanded : id ∈ desk.gate.handed
    · simp [askAgain, hcalled, hid, Gate.claim, hhanded]
    · simp [askAgain, hcalled, hid, Gate.claim, hhanded, update]
  | false =>
    by_cases hfree : 0 < desk.gate.free
    · simp [firstAsk, hid, Gate.enter, hfree]
    · simp [firstAsk, hcalled, hid, Gate.enter, hfree]

namespace Unsignalled

variable {desk : Desk} (h : desk.Unsignalled)
include h

theorem close (id : String) : (desk.close id).Unsignalled :=
  fun request hmem => h request (List.mem_of_mem_filter hmem)

/-- A change that leaves the signals alone. -/
theorem of_map {desk' : Desk} {change : Request → Request}
    (hrequests : desk'.requests = desk.requests.map change)
    (hchange : ∀ request, (change request).signal = request.signal) : desk'.Unsignalled := by
  intro request hmem
  rw [hrequests] at hmem
  obtain ⟨before, hbefore, rfl⟩ := List.mem_map.1 hmem
  exact (hchange before).trans (h before hbefore)

theorem update (id : String) {change : Request → Request}
    (hchange : ∀ request, (change request).signal = request.signal) :
    (desk.update id change).Unsignalled :=
  h.of_map rfl fun request => by split <;> simp [hchange]

theorem wake (gate : Gate String) : (desk.wake gate).Unsignalled :=
  h.of_map rfl fun request => by split <;> rfl

theorem create (id : String) : (desk.create id none).Unsignalled := by
  unfold Desk.create
  split
  · exact h
  · refine List.forall_mem_append.2 ⟨h, ?_⟩
    exact List.forall_mem_singleton.2 rfl

theorem poll (id : String) : (desk.poll id).2.1.Unsignalled := by
  unfold Desk.poll
  split
  next => exact h
  next request _ =>
    split
    · unfold askAgain
      split
      · exact (h.close _).wake _
      · split
        · exact h.close _
        · exact h.update _ fun _ => rfl
    · unfold firstAsk
      split
      · exact h.close _
      · split
        · exact h.close _
        · exact h.update request.id fun _ => rfl

/-- Whoever is asked is let in or waits, or is unknown. -/
theorem poll_ne_cancelled (id : String) : (desk.poll id).1 ≠ .cancelled := by
  cases hrequest : desk.request? id with
  | none => simp [Desk.poll, hrequest]
  | some request =>
    rw [(poll_of_unsignalled hrequest (h request (List.mem_of_find?_eq_some hrequest))).1]
    split <;> split <;> simp

/-- So it stays, and nobody is told that they were called off. -/
theorem apply {step : Step} (hstep : step.Unsignalled) :
    (desk.apply step).2.1.Unsignalled ∧ (desk.apply step).1 ≠ .cancelled := by
  cases step with
  | create id signal =>
    obtain rfl : signal = none := hstep
    exact ⟨h.create id, by simp [Desk.apply]⟩
  | acquire id signal =>
    obtain rfl : signal = none := hstep
    exact ⟨(h.create id).poll id, (h.create id).poll_ne_cancelled id⟩
  | poll id => exact ⟨h.poll id, h.poll_ne_cancelled id⟩
  | cancel id =>
    have hnone : (desk.request? id).bind (·.signal) = none := by
      cases hrequest : desk.request? id with
      | none => rfl
      | some request => exact h request (List.mem_of_find?_eq_some hrequest)
    simp only [Desk.apply, Desk.cancel, hnone]
    exact ⟨h, by simp⟩
  | drop id =>
    simp only [Desk.apply, Desk.drop]
    split
    · exact ⟨h, by simp⟩
    · split
      · exact ⟨(h.close id).wake _, by simp⟩
      · exact ⟨h.close id, by simp⟩
  | release id =>
    simp only [Desk.apply, Desk.release]
    split
    · exact ⟨h.wake _, by simp⟩
    · exact ⟨h, by simp⟩

end Unsignalled

/-- At a desk where no request has a signal, nobody is ever told that they were called off. -/
theorem not_cancelled_of_unsignalled {desk : Desk} (h : desk.Unsignalled) {steps : List Step}
    (hsteps : ∀ step ∈ steps, step.Unsignalled) :
    ∀ answer ∈ desk.answers steps, answer.2 ≠ .cancelled := by
  induction steps generalizing desk with
  | nil => exact fun _ hmem => absurd hmem List.not_mem_nil
  | cons step steps ih =>
    rw [List.forall_mem_cons] at hsteps
    obtain ⟨hafter, hanswer⟩ := h.apply hsteps.1
    rw [answers_cons]
    exact List.forall_mem_cons.2 ⟨hanswer, ih hafter hsteps.2⟩

end Desk

end Coordination
