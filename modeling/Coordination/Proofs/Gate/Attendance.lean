import Mathlib.Data.List.Nodup
import Coordination.Gate.Desk
import Coordination.Proofs.Gate.Balance
import Coordination.Proofs.Journal.Level

/-!
# Requests told from their answers

The answers of a desk tell which requests wait, in the order in which they
were first told to (`Desk.lineOf`), and which slots are held (`Desk.heldOf`).
Whatever steps are carried out, the gate agrees with its answers
(`Desk.Tallied`), and the level of waits goes along (`Desk.Follows`).

* `Tallied.follows`: every step keeps this;
* `Tallied.after`, `Tallied.level_run`: so do any steps.
-/

namespace Coordination

namespace Desk

/-- The id of the request or slot that a step is about. -/
def Step.id : Step → String
  | create id _ | acquire id _ | poll id | cancel id | drop id | release id => id

/-- The waiting requests after one more answer: who is told to wait joins at
the end, and who is let in, cancelled or dropped goes out. -/
def stand (line : List String) (answer : Step × Reply) : List String :=
  match answer.2 with
  | .pending => if answer.1.id ∈ line then line else line ++ [answer.1.id]
  | .admitted | .cancelled | .dropped => line.erase answer.1.id
  | _ => line

/-- The requests whose last answer was to wait, in the order in which they
were first told to. -/
def lineOf (answers : List (Step × Reply)) : List String := answers.foldl stand []

/-- The held slots after one more answer. -/
def hold (held : List String) (answer : Step × Reply) : List String :=
  match answer.2 with
  | .admitted => answer.1.id :: held
  | .released => held.erase answer.1.id
  | _ => held

/-- The slots that were taken and not given back. -/
def heldOf (answers : List (Step × Reply)) : List String := answers.foldl hold []

/-- The desk after steps. -/
def after (desk : Desk) (steps : List Step) : Desk :=
  steps.foldl (fun desk step => (desk.apply step).2.1) desk

/-- Steps with their answers. -/
def answers (desk : Desk) (steps : List Step) : List (Step × Reply) :=
  steps.zip ((desk.run steps).1.map Prod.fst)

/-! ## Running -/

@[simp] theorem after_nil (desk : Desk) : desk.after [] = desk := rfl

theorem after_cons (desk : Desk) (step : Step) (steps : List Step) :
    desk.after (step :: steps) = (desk.apply step).2.1.after steps := rfl

theorem answers_cons (desk : Desk) (step : Step) (steps : List Step) :
    desk.answers (step :: steps) =
      (step, (desk.apply step).1) :: (desk.apply step).2.1.answers steps := rfl

/-- The desk after steps is the one that the run of them shows last. -/
theorem getLast?_run (desk : Desk) (steps : List Step) (step : Step) :
    (desk.run (steps ++ [step])).1.getLast? =
      some (((desk.after steps).apply step).1, desk.after (steps ++ [step])) := by
  induction steps generalizing desk with
  | nil => rfl
  | cons first steps ih =>
    have hrest := ih (desk.apply first).2.1
    simp only [List.cons_append, run, after_cons]
    rw [List.getLast?_cons, hrest]
    rfl

/-! ## Attendance -/

/-- The open requests, each with whether it waits. -/
def attendance (desk : Desk) : List (String × Bool) :=
  desk.requests.map fun request => (request.id, request.asked)

@[simp] theorem attendance_close (desk : Desk) (id : String) :
    (desk.close id).attendance = desk.attendance.filter fun entry => entry.1 ≠ id := by
  simp only [attendance, close, List.filter_map]
  rfl

@[simp] theorem attendance_withGate (desk : Desk) (gate : Gate String) :
    ({ desk with gate } : Desk).attendance = desk.attendance := rfl

theorem attendance_update (desk : Desk) (id : String) {change : Request → Request}
    (asked : Bool → Bool) (hchange : ∀ request, (change request).id = request.id ∧
      (change request).asked = asked request.asked) :
    (desk.update id change).attendance = desk.attendance.map fun entry =>
      if entry.1 = id then (entry.1, asked entry.2) else entry := by
  simp only [attendance, update, List.map_map]
  refine List.map_congr_left fun request _ => ?_
  simp only [Function.comp_apply]
  split
  · rw [(hchange request).1, (hchange request).2]
  · rfl

theorem attendance_update_of_same (desk : Desk) (id : String) {change : Request → Request}
    (hchange : ∀ request, (change request).id = request.id ∧
      (change request).asked = request.asked) :
    (desk.update id change).attendance = desk.attendance := by
  rw [desk.attendance_update id (fun asked => asked) hchange]
  simp

@[simp] theorem attendance_wake (desk : Desk) (gate : Gate String) :
    (desk.wake gate).attendance = desk.attendance := by
  simp only [attendance, wake, List.map_map]
  refine List.map_congr_left fun request _ => ?_
  simp only [Function.comp_apply]
  split <;> rfl

theorem request?_eq_none {desk : Desk} {id : String} (h : desk.request? id = none) (asked : Bool) :
    (id, asked) ∉ desk.attendance := by
  simp only [request?, List.find?_eq_none, decide_eq_true_eq] at h
  simp only [attendance, List.mem_map, Prod.mk.injEq, not_exists, not_and]
  exact fun request hmem hid => absurd hid (h request hmem)

theorem request?_eq_some {desk : Desk} {id : String} {request : Request}
    (h : desk.request? id = some request) :
    request.id = id ∧ (id, request.asked) ∈ desk.attendance := by
  have hid : request.id = id := by simpa using List.find?_some h
  exact ⟨hid, List.mem_map.2 ⟨request, List.mem_of_find?_eq_some h, by rw [hid]⟩⟩

/-! ## One step -/

/-- The gate of a desk agrees with who waits and who holds a slot. -/
structure Tallied (desk : Desk) (line held : List String) : Prop where
  balanced : desk.gate.Balanced
  line_eq : desk.gate.line = line
  holders_eq : desk.gate.holders = held
  nodup : line.Nodup
  /-- Those who wait are the open requests that were asked. -/
  waiting : ∀ id, id ∈ line ↔ (id, true) ∈ desk.attendance
  fresh : ∀ id, (id, false) ∈ desk.attendance → id ∉ line

/-- A step agrees with its answer: the gate, and the level of waits. -/
structure Follows (desk : Desk) (line held : List String) (step : Step)
    (out : Reply × Desk × List Measurement) : Prop where
  tallied : Tallied out.2.1 (stand line (step, out.1)) (hold held (step, out.1))
  label : out.2.1.label = desk.label
  capacity : out.2.1.gate.capacity = desk.gate.capacity
  level : Measurement.levelFrom? .queueDepth desk.label line.length out.2.2 =
    some (stand line (step, out.1)).length

namespace Tallied

variable {desk : Desk} {line held : List String} (h : Tallied desk line held)
include h

/-- A change that concerns neither the gate nor who waits. -/
theorem of_attendance_eq {desk' : Desk} (hgate : desk'.gate = desk.gate)
    (hattendance : desk'.attendance = desk.attendance) : Tallied desk' line held where
  balanced := hgate ▸ h.balanced
  line_eq := hgate ▸ h.line_eq
  holders_eq := hgate ▸ h.holders_eq
  nodup := h.nodup
  waiting := hattendance ▸ h.waiting
  fresh := hattendance ▸ h.fresh

/-- A request is closed, and whoever waited under its id goes out of the line. -/
theorem closed {desk' : Desk} {id : String} {held' : List String}
    (hbalanced : desk'.gate.Balanced) (hline : desk'.gate.line = line.erase id)
    (hheld : desk'.gate.holders = held')
    (hattendance : desk'.attendance = desk.attendance.filter fun entry => entry.1 ≠ id) :
    Tallied desk' (line.erase id) held' where
  balanced := hbalanced
  line_eq := hline
  holders_eq := hheld
  nodup := h.nodup.erase id
  waiting := by
    intro other
    rw [h.nodup.mem_erase_iff, hattendance, List.mem_filter, h.waiting]
    simp only [decide_eq_true_eq]
    exact And.comm
  fresh := by
    intro other hother
    rw [hattendance, List.mem_filter] at hother
    exact fun hmem => h.fresh other hother.1 (List.mem_of_mem_erase hmem)

/-- A request that was not asked does not stand in the line. -/
theorem erase_eq {id : String} (hfresh : (id, false) ∈ desk.attendance) : line.erase id = line :=
  List.erase_of_not_mem (h.fresh id hfresh)

/-- A request that was not asked before joins the line. -/
theorem joined {desk' : Desk} {id : String} {held' : List String}
    (hopen : (id, false) ∈ desk.attendance) (hbalanced : desk'.gate.Balanced)
    (hline : desk'.gate.line = line ++ [id]) (hheld : desk'.gate.holders = held')
    (hattendance : desk'.attendance = desk.attendance.map fun entry =>
      if entry.1 = id then (entry.1, true) else entry) : Tallied desk' (line ++ [id]) held' where
  balanced := hbalanced
  line_eq := hline
  holders_eq := hheld
  nodup := by
    refine List.nodup_append.2 ⟨h.nodup, List.nodup_singleton _, ?_⟩
    rintro a ha b hb rfl
    exact h.fresh id hopen (List.mem_singleton.1 hb ▸ ha)
  waiting := by
    intro other
    rw [hattendance, List.mem_append, h.waiting, List.mem_singleton, List.mem_map]
    constructor
    · rintro (hmem | rfl)
      · exact ⟨(other, true), hmem, by split <;> rfl⟩
      · exact ⟨_, hopen, by simp⟩
    · rintro ⟨⟨name, asked⟩, hmem, heq⟩
      by_cases hname : name = id
      · simp only [hname, if_true, Prod.mk.injEq, and_true] at heq
        exact .inr heq.symm
      · simp only [hname, if_false] at heq
        exact .inl (heq ▸ hmem)
  fresh := by
    intro other hother
    rw [hattendance, List.mem_map] at hother
    obtain ⟨⟨name, asked⟩, hmem, heq⟩ := hother
    by_cases hname : name = id
    · simp [hname] at heq
    · simp only [hname, if_false] at heq
      cases heq
      simp [h.fresh _ hmem, hname]

theorem create (id : String) (signal : Option Bool) :
    Tallied (desk.create id signal) line held := by
  unfold Desk.create
  split
  · exact h
  next hnew =>
    simp only [Bool.or_eq_true, not_or, Option.isSome_iff_ne_none, ne_eq, not_not] at hnew
    have hnone := request?_eq_none hnew.1
    have hattendance : ∀ entry, entry ∈ ({ desk with
        requests := desk.requests ++ [⟨id, signal, false, false⟩] } : Desk).attendance ↔
          entry ∈ desk.attendance ∨ entry = (id, false) := by
      simp [attendance]
    refine ⟨h.balanced, h.line_eq, h.holders_eq, h.nodup, fun other => ?_, fun other hother => ?_⟩
    · rw [hattendance, h.waiting]
      simp
    · rcases (hattendance _).1 hother with hmem | heq
      · exact h.fresh other hmem
      · obtain rfl : other = id := congrArg Prod.fst heq
        exact fun hmem => hnone true ((h.waiting other).1 hmem)

theorem firstAsk {request : Request} {step : Step} (hid : request.id = step.id)
    (hopen : (step.id, false) ∈ desk.attendance) :
    Follows desk line held step (desk.firstAsk request) := by
  have hline := h.erase_eq hopen
  have hnew := h.fresh _ hopen
  unfold Desk.firstAsk
  rw [hid]
  split
  next hfree =>
    refine ⟨?_, rfl, desk.gate.capacity_enter _, ?_⟩
    · refine h.closed (h.balanced.enter _) ?_ ?_ (by simp)
      · rw [Gate.line_enter, if_pos hfree, h.line_eq, hline]
      · simp only [Gate.enter_of_free hfree, hold, h.holders_eq]
    · simp [stand, hline]
  next hbusy =>
    split
    · refine ⟨?_, rfl, rfl, ?_⟩
      · exact h.closed h.balanced (by rw [hline]; exact h.line_eq) h.holders_eq (by simp)
      · simp [stand, hline]
    · refine ⟨?_, rfl, desk.gate.capacity_enter _, ?_⟩
      · simp only [stand, if_neg hnew]
        refine h.joined hopen (h.balanced.enter _) ?_ ?_
          (desk.attendance_update step.id (fun _ => true) fun _ => ⟨rfl, rfl⟩)
        · rw [Gate.line_enter, if_neg hbusy, h.line_eq]
        · simp only [Gate.enter_of_busy hbusy, h.holders_eq, hold]
      · simp [stand, hnew]

theorem askAgain {request : Request} {step : Step} (hid : request.id = step.id)
    (hopen : (step.id, true) ∈ desk.attendance) :
    Follows desk line held step (desk.askAgain request) := by
  have hmem : step.id ∈ line := (h.waiting _).2 hopen
  have hpos := List.length_pos_of_mem hmem
  unfold Desk.askAgain
  rw [hid]
  split
  · refine ⟨?_, rfl, desk.gate.capacity_leave _, ?_⟩
    · exact h.closed (h.balanced.leave _) (by rw [← h.line_eq]; exact Gate.line_leave ..)
        ((Gate.holders_leave ..).trans h.holders_eq) (by simp)
    · simp [stand, List.length_erase_of_mem hmem, hpos]
  · by_cases hhanded : step.id ∈ desk.gate.handed
    · have hclaim : desk.gate.claim step.id = (true, (desk.gate.claim step.id).2) := by
        simp [Gate.claim, hhanded]
      rw [hclaim]
      refine ⟨?_, rfl, desk.gate.capacity_claim _, ?_⟩
      · refine h.closed (h.balanced.claim _) ?_ ?_ (by simp)
        · rw [← h.line_eq]
          exact Gate.line_claim hhanded
        · simp [Gate.claim, hhanded, hold, h.holders_eq]
      · simp [stand, List.length_erase_of_mem hmem, hpos]
    · have hclaim : desk.gate.claim step.id = (false, desk.gate) := by
        simp [Gate.claim, hhanded]
      rw [hclaim]
      refine ⟨?_, rfl, rfl, by simp [stand, hmem]⟩
      simp only [stand, if_pos hmem]
      exact h.of_attendance_eq rfl (desk.attendance_update_of_same _ fun _ => ⟨rfl, rfl⟩)

theorem poll (step : Step) : Follows desk line held step (desk.poll step.id) := by
  unfold Desk.poll
  cases hrequest : desk.request? step.id with
  | none => exact ⟨h, rfl, rfl, rfl⟩
  | some request =>
    obtain ⟨hid, hopen⟩ := request?_eq_some hrequest
    cases hasked : request.asked with
    | true => simpa [hasked] using h.askAgain hid (hasked ▸ hopen)
    | false => simpa [hasked] using h.firstAsk hid (hasked ▸ hopen)

theorem cancel (id : String) : Tallied (desk.cancel id).2 line held := by
  unfold Desk.cancel
  split
  · exact h.of_attendance_eq rfl (desk.attendance_update_of_same _ fun _ => ⟨rfl, rfl⟩)
  · exact h

theorem drop (step : Step) : Follows desk line held step (desk.drop step.id) := by
  unfold Desk.drop
  cases hrequest : desk.request? step.id with
  | none => exact ⟨h, rfl, rfl, rfl⟩
  | some request =>
    obtain ⟨-, hopen⟩ := request?_eq_some hrequest
    cases hasked : request.asked with
    | true =>
      have hmem : step.id ∈ line := (h.waiting _).2 (hasked ▸ hopen)
      simp only [hasked, if_true]
      refine ⟨?_, rfl, desk.gate.capacity_leave _, ?_⟩
      · exact h.closed (h.balanced.leave _) (by rw [← h.line_eq]; exact Gate.line_leave ..)
          ((Gate.holders_leave ..).trans h.holders_eq) (by simp)
      · simp [stand, List.length_erase_of_mem hmem, List.length_pos_of_mem hmem]
    | false =>
      have hline := h.erase_eq (hasked ▸ hopen)
      simp only [hasked]
      refine ⟨?_, rfl, rfl, by simp [stand, hline]⟩
      exact h.closed h.balanced (by rw [hline]; exact h.line_eq) h.holders_eq (by simp)

theorem release (step : Step) : Follows desk line held step (desk.release step.id) := by
  unfold Desk.release
  split
  · refine ⟨?_, rfl, desk.gate.capacity_release _, ?_⟩
    · refine ⟨h.balanced.release _, (Gate.line_release ..).trans h.line_eq, ?_, h.nodup, ?_, ?_⟩
      · exact (Gate.holders_release ..).trans (by rw [h.holders_eq]; rfl)
      · simpa [stand] using h.waiting
      · simpa [stand] using h.fresh
    · simp [stand]
  · exact ⟨h, rfl, rfl, rfl⟩

/-- Every step agrees with its answer. -/
theorem follows (step : Step) : Follows desk line held step (desk.apply step) := by
  cases step with
  | create id signal =>
    refine ⟨h.create id signal, ?_, ?_, rfl⟩ <;>
    · simp only [apply, Desk.create]
      split <;> rfl
  | acquire id signal =>
    have hpoll := (h.create id signal).poll (.acquire id signal)
    have hsame : (desk.create id signal).label = desk.label ∧
        (desk.create id signal).gate = desk.gate := by
      unfold Desk.create
      split <;> exact ⟨rfl, rfl⟩
    exact ⟨hpoll.tallied, hpoll.label.trans hsame.1, hpoll.capacity.trans (by rw [hsame.2]),
      hsame.1 ▸ hpoll.level⟩
  | poll id => exact h.poll (.poll id)
  | cancel id =>
    have hcancel := h.cancel id
    have hsame : (desk.cancel id).2.label = desk.label ∧ (desk.cancel id).2.gate = desk.gate ∧
        ((desk.cancel id).1 = .fired ∨ (desk.cancel id).1 = .noSignal) := by
      unfold Desk.cancel
      split
      · exact ⟨rfl, rfl, .inl rfl⟩
      · exact ⟨rfl, rfl, .inr rfl⟩
    obtain ⟨hlabel, hgate, hreply⟩ := hsame
    simp only [apply]
    rcases hreply with hreply | hreply <;>
    · rw [hreply]
      exact ⟨hcancel, hlabel, by rw [hgate], rfl⟩
  | drop id => exact h.drop (.drop id)
  | release id => exact h.release (.release id)

end Tallied

/-! ## Any steps -/

theorem tallied_ofGate (label : String) (capacity : Nat) :
    Tallied (ofGate label (.ofCapacity capacity)) [] [] where
  balanced := Gate.balanced_ofCapacity capacity
  line_eq := rfl
  holders_eq := rfl
  nodup := List.nodup_nil
  waiting := by simp [attendance, ofGate]
  fresh := by simp [attendance, ofGate]

/-- Any steps agree with their answers. -/
theorem Tallied.after {desk : Desk} {line held : List String} (h : Tallied desk line held)
    (steps : List Step) : Tallied (desk.after steps) ((desk.answers steps).foldl stand line)
      ((desk.answers steps).foldl hold held) := by
  induction steps generalizing desk line held with
  | nil => exact h
  | cons step steps ih => exact ih (h.follows step).tallied

/-- Steps change neither the label nor the capacity, and the level of waits
goes along with the number of those who wait. -/
theorem Tallied.level_run {desk : Desk} {line held : List String} (h : Tallied desk line held)
    (steps : List Step) : (desk.after steps).gate.capacity = desk.gate.capacity ∧
      Measurement.levelFrom? .queueDepth desk.label line.length (desk.run steps).2 =
        some ((desk.answers steps).foldl stand line).length := by
  induction steps generalizing desk line held with
  | nil => exact ⟨rfl, rfl⟩
  | cons step steps ih =>
    have hfollows := h.follows step
    obtain ⟨hcapacity, hlevel⟩ := ih hfollows.tallied
    refine ⟨hcapacity.trans hfollows.capacity, ?_⟩
    rw [hfollows.label] at hlevel
    simp only [run, Measurement.levelFrom?_append, hfollows.level, Option.bind_some]
    exact hlevel

end Desk

end Coordination
