import Coordination.Proofs.Gate.Attendance

/-!
# Held slots and their level

Of the measurements that a desk makes, those of held slots rise when a request is
admitted and fall when a slot is given back, and in no other step. So their level
is the number of slots that are held (`Desk.levels_run`), as the level of waits is
the number of requests that wait.

* `Desk.occupies_apply`: one step, from any desk.
-/

namespace Coordination

namespace Desk

/-- A step moves the level of held slots along with the gate. -/
structure Occupies (desk : Desk) (out : Reply × Desk × List Measurement) : Prop where
  label : out.2.1.label = desk.label
  level : Measurement.levelFrom? .activeExecutions desk.label desk.gate.holders.length out.2.2 =
    some out.2.1.gate.holders.length

variable {desk : Desk} {request : Request}

theorem create_same (desk : Desk) (id : String) (signal : Option Bool) :
    (desk.create id signal).label = desk.label ∧ (desk.create id signal).gate = desk.gate := by
  unfold create
  split <;> exact ⟨rfl, rfl⟩

theorem occupies_firstAsk (desk : Desk) (request : Request) :
    Occupies desk (desk.firstAsk request) := by
  unfold firstAsk
  split
  next hfree => exact ⟨rfl, by simp [Gate.enter_of_free hfree]⟩
  next hbusy =>
    split
    · exact ⟨rfl, by simp [close]⟩
    · exact ⟨rfl, by simp [Gate.enter_of_busy hbusy]⟩

theorem occupies_askAgain (desk : Desk) (request : Request) :
    Occupies desk (desk.askAgain request) := by
  unfold askAgain
  split
  · exact ⟨rfl, by simp [wake, Gate.holders_leave]⟩
  · split
    next gate hclaim =>
      have hadmits : desk.gate.Admits request.id gate := .inr hclaim
      exact ⟨rfl, by simp [hadmits.holders]⟩
    next => exact ⟨rfl, by simp [update]⟩

theorem occupies_poll (desk : Desk) (id : String) : Occupies desk (desk.poll id) := by
  unfold poll
  split
  · exact ⟨rfl, rfl⟩
  · split
    · exact desk.occupies_askAgain _
    · exact desk.occupies_firstAsk _

theorem occupies_drop (desk : Desk) (id : String) : Occupies desk (desk.drop id) := by
  unfold drop
  split
  · exact ⟨rfl, rfl⟩
  · split
    · exact ⟨rfl, by simp [wake, Gate.holders_leave]⟩
    · exact ⟨rfl, rfl⟩

theorem occupies_release (desk : Desk) (id : String) : Occupies desk (desk.release id) := by
  unfold release
  split
  next hheld =>
    have hmem : id ∈ desk.gate.holders := by simpa using hheld
    have hpos := List.length_pos_of_mem hmem
    exact ⟨rfl, by simp [wake, Gate.holders_release, List.length_erase_of_mem hmem, hpos]⟩
  next => exact ⟨rfl, rfl⟩

/-- Every step moves the level of held slots along with the gate. -/
theorem occupies_apply (desk : Desk) (step : Step) : Occupies desk (desk.apply step) := by
  cases step with
  | create id signal =>
    obtain ⟨hlabel, hgate⟩ := desk.create_same id signal
    exact ⟨hlabel, by rw [apply, hgate]; rfl⟩
  | acquire id signal =>
    obtain ⟨hlabel, hgate⟩ := desk.create_same id signal
    have hpoll := (desk.create id signal).occupies_poll id
    exact ⟨hpoll.label.trans hlabel, hlabel ▸ hgate ▸ hpoll.level⟩
  | poll id => exact desk.occupies_poll id
  | cancel id =>
    simp only [apply, cancel]
    split <;> exact ⟨rfl, rfl⟩
  | drop id => exact desk.occupies_drop id
  | release id => exact desk.occupies_release id

/-- So do any steps. -/
theorem level_active_run (desk : Desk) (steps : List Step) :
    Measurement.levelFrom? .activeExecutions desk.label desk.gate.holders.length
      (desk.run steps).2 = some (desk.after steps).gate.holders.length := by
  induction steps generalizing desk with
  | nil => rfl
  | cons step steps ih =>
    obtain ⟨hlabel, hlevel⟩ := desk.occupies_apply step
    have hrest := ih (desk.apply step).2.1
    rw [hlabel] at hrest
    simp only [run, Measurement.levelFrom?_append, hlevel, Option.bind_some]
    exact hrest

/-- Both levels of a gate with this label are right after any steps: the one of held
slots is the number of those that were taken and not given back, and the one of
waits the number that the gate tells. -/
theorem levels_run {workers : Nat} {gate : Gate String} (hgate : Gate.new workers = .ok gate)
    (label : String) (steps : List Step) :
    let desk := ofGate label gate
    Measurement.levelFrom? .activeExecutions label 0 (desk.run steps).2 =
        some (heldOf (desk.answers steps)).length ∧
      Measurement.levelFrom? .queueDepth label 0 (desk.run steps).2 =
        some (desk.after steps).gate.waiting := by
  obtain rfl := Gate.new_eq_ok hgate
  intro desk
  have hstart : Tallied desk [] [] := tallied_ofGate label workers
  have hactive := desk.level_active_run steps
  rw [(hstart.after steps).holders_eq] at hactive
  refine ⟨hactive, ?_⟩
  rw [← Gate.length_line, (hstart.after steps).line_eq]
  exact (hstart.level_run steps).2

end Desk

end Coordination
