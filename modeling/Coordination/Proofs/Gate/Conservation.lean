import Coordination.Proofs.Gate.Attendance

/-!
# Slots are neither lost nor made

Whatever is done at a desk, every slot of its gate is held, handed to a
request that waits, or free, and the gate counts those who wait as the answers
tell (`slots_conserved`).

* `Desk.Conserved`: what is kept, told from the answers.
-/

namespace Coordination

namespace Desk

/-- A gate of so many slots, told from the answers that were given and the
measurements that were made. -/
structure Conserved (desk : Desk) (label : String) (workers : Nat)
    (answers : List (Step × Reply)) (measured : List Measurement) : Prop where
  /-- A slot is held, handed to a request that waits, or free. -/
  slots : (heldOf answers).length + desk.gate.handed.length + desk.gate.free = workers
  inFlight : desk.gate.inFlight = (heldOf answers).length + desk.gate.handed.length
  bounded : desk.gate.free ≤ desk.gate.capacity ∧ desk.gate.inFlight ≤ workers
  /-- Those who wait are counted once each, in the number and in the level. -/
  waiting : desk.gate.waiting = (lineOf answers).length
  distinct : (lineOf answers).Nodup
  level : Measurement.levelFrom? .queueDepth label 0 measured = some desk.gate.waiting
  /-- They are the requests that are open and were asked. -/
  «open» : ∀ id, id ∈ lineOf answers ↔
    ∃ request ∈ desk.requests, request.id = id ∧ request.asked = true
  handed : ∀ id ∈ desk.gate.handed, id ∈ lineOf answers
  /-- While somebody waits for a slot, none is free. -/
  busy : ∀ id ∈ lineOf answers, id ∉ desk.gate.handed → desk.gate.free = 0
  /-- When all is given back and dropped, the gate is as at the start. -/
  empty : desk.requests = [] → heldOf answers = [] →
    desk.gate.inFlight = 0 ∧ desk.gate.waiting = 0

theorem mem_attendance_iff {desk : Desk} {id : String} {asked : Bool} :
    (id, asked) ∈ desk.attendance ↔
      ∃ request ∈ desk.requests, request.id = id ∧ request.asked = asked := by
  simp [attendance]

/-- Whatever is done at a desk, no slot of its gate is lost or made, and nobody
who waits is lost or counted twice. -/
theorem slots_conserved {workers : Nat} {gate : Gate String} (hgate : Gate.new workers = .ok gate)
    (label : String) (steps : List Step) :
    Conserved ((ofGate label gate).after steps) label workers ((ofGate label gate).answers steps)
      ((ofGate label gate).run steps).2 := by
  obtain rfl := Gate.new_eq_ok hgate
  have hstart := tallied_ofGate label workers
  obtain ⟨hcapacity, hlevel⟩ := hstart.level_run steps
  have h : Tallied _ (lineOf _) (heldOf _) := hstart.after steps
  have hcapacity : ((ofGate label (.ofCapacity workers)).after steps).gate.capacity = workers :=
    hcapacity
  have hwaiting := Gate.length_line ((ofGate label (.ofCapacity workers)).after steps).gate
  have hin := h.balanced.inFlight_eq
  have hslots := h.balanced.slots
  rw [h.line_eq] at hwaiting
  rw [h.holders_eq] at hin
  simp only [Gate.slots, h.holders_eq, hcapacity] at hslots
  exact {
    slots := by omega
    inFlight := hin
    bounded := ⟨h.balanced.free_le, by omega⟩
    waiting := hwaiting.symm
    distinct := h.nodup
    level := hwaiting ▸ hlevel
    «open» := fun id => (h.waiting id).trans mem_attendance_iff
    handed := fun id hmem => h.line_eq ▸ List.mem_append_left _ hmem
    busy := by
      intro id hmem hnot
      refine h.balanced.busy fun hqueue => hnot ?_
      rwa [← h.line_eq, Gate.line, hqueue, List.append_nil] at hmem
    empty := by
      intro hrequests hheld
      have hline : lineOf _ = [] := List.eq_nil_iff_forall_not_mem.2 fun id hmem => by
        simpa [attendance, hrequests] using (h.waiting id).1 hmem
      have hhanded : _ ++ _ = [] := h.line_eq.trans hline
      rw [hheld, (List.append_eq_nil_iff.1 hhanded).1] at hin
      exact ⟨hin, by rw [← hwaiting, hline]; rfl⟩ }

/-- One slot, and a request that is called off after the slot was handed to it. -/
def calledOff : List Step :=
  [.acquire "a" none, .acquire "b" (some false), .acquire "c" none, .release "a", .cancel "b",
    .poll "b"]

theorem slots_conserved_calledOff :
    Gate.new 1 = .ok (.ofCapacity 1 : Gate String) ∧
      ((ofGate "door" (.ofCapacity 1)).after calledOff).gate.handed = ["c"] ∧
      Conserved ((ofGate "door" (.ofCapacity 1)).after calledOff) "door" 1
        ((ofGate "door" (.ofCapacity 1)).answers calledOff)
        ((ofGate "door" (.ofCapacity 1)).run calledOff).2 :=
  ⟨rfl, by decide, slots_conserved rfl "door" calledOff⟩

end Desk

end Coordination
