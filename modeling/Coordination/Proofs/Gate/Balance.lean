import Coordination.Gate

/-!
# The slots of a gate and the line before it

Every operation at a gate keeps its slots accounted for, and frees none while
somebody waits for one (`Gate.Balanced`). The visitors who wait, with a slot
handed to them or without, stand in one line in the order of their coming
(`Gate.line`): who comes joins at its end, who is let in or gives up goes out
of it, and a slot given back does not move anyone.

* `Balanced.enter`, `Balanced.claim`, `Balanced.leave`, `Balanced.release`:
  the balance is kept;
* `line_enter`, `line_claim`, `line_leave`, `line_release`: what becomes of the line;
* `mem_handed_of_before`: slots are handed out along the line.
-/

namespace Coordination

namespace Gate

variable {α : Type}

/-- The visitors who wait, in the order of their coming: first those who were
handed a slot. -/
def line (gate : Gate α) : List α := gate.handed ++ gate.queue

/-- All slots of a gate are accounted for, and none is free while somebody
waits for one. -/
structure Balanced (gate : Gate α) : Prop where
  slots : gate.slots = gate.capacity
  busy : gate.queue ≠ [] → gate.free = 0

theorem length_line (gate : Gate α) : gate.line.length = gate.waiting := by
  rw [line, waiting, List.length_append]

theorem balanced_ofCapacity (capacity : Nat) : (ofCapacity capacity : Gate α).Balanced where
  slots := by simp [slots, ofCapacity]
  busy := fun h => absurd rfl h

theorem new_eq_ok {workers : Nat} {gate : Gate α} (h : new workers = .ok gate) :
    gate = ofCapacity workers := by
  cases hcheck : checkWorkers workers with
  | error error => simp [new, hcheck, bind, Except.bind] at h
  | ok _ => simpa [new, hcheck, bind, Except.bind, pure, Except.pure] using h.symm

theorem Balanced.free_le {gate : Gate α} (h : gate.Balanced) : gate.free ≤ gate.capacity := by
  have := h.slots
  simp only [Gate.slots] at this
  omega

/-- The slots that are not free are held or handed over. -/
theorem Balanced.inFlight_eq {gate : Gate α} (h : gate.Balanced) :
    gate.inFlight = gate.holders.length + gate.handed.length := by
  have := h.slots
  simp only [Gate.slots] at this
  simp only [inFlight]
  omega

/-- While a slot is free, everybody in line was handed one. -/
theorem Balanced.handed_eq_line {gate : Gate α} (h : gate.Balanced) (hfree : 0 < gate.free) :
    gate.handed = gate.line := by
  cases hqueue : gate.queue with
  | nil => rw [line, hqueue, List.append_nil]
  | cons first rest =>
    have := h.busy (by simp [hqueue])
    omega

/-- Slots are handed out along the line: who stands before a visitor with a
slot was handed one too. -/
theorem mem_handed_of_before {gate : Gate α} (hnodup : gate.line.Nodup) {first second : α}
    (hbefore : [first, second].Sublist gate.line) (hsecond : second ∈ gate.handed) :
    first ∈ gate.handed := by
  obtain ⟨front, back, heq, hfront, hback⟩ := List.sublist_append_iff.1 hbefore
  cases front with
  | nil =>
    -- Both would have no slot, but the second one does.
    obtain rfl : [first, second] = back := heq
    have hqueue : second ∈ gate.queue := hback.subset (by simp)
    exact absurd rfl ((List.nodup_append.1 hnodup).2.2 second hsecond second hqueue)
  | cons visitor rest =>
    obtain rfl : first = visitor := by simpa using congrArg List.head? heq
    exact hfront.subset List.mem_cons_self

/-! ## Passing a slot on -/

@[simp] theorem line_passOn (gate : Gate α) : gate.passOn.line = gate.line := by
  cases hqueue : gate.queue <;> simp [passOn, line, hqueue]

@[simp] theorem holders_passOn (gate : Gate α) : gate.passOn.holders = gate.holders := by
  cases hqueue : gate.queue <;> simp [passOn, hqueue]

@[simp] theorem capacity_passOn (gate : Gate α) : gate.passOn.capacity = gate.capacity := by
  cases hqueue : gate.queue <;> simp [passOn, hqueue]

/-- A slot that is passed on is accounted for again. -/
theorem balanced_passOn {gate : Gate α} (hslots : gate.slots + 1 = gate.capacity)
    (hbusy : gate.queue ≠ [] → gate.free = 0) : gate.passOn.Balanced := by
  cases hqueue : gate.queue with
  | nil =>
    refine ⟨?_, fun h => absurd ?_ h⟩
    · simp only [passOn, hqueue, slots] at hslots ⊢
      omega
    · simp [passOn, hqueue]
  | cons first rest =>
    refine ⟨?_, fun _ => ?_⟩
    · simp only [passOn, hqueue, slots, List.length_append, List.length_singleton] at hslots ⊢
      omega
    · simpa [passOn, hqueue] using hbusy (by simp [hqueue])

/-! ## The operations -/

theorem enter_of_free {gate : Gate α} (hfree : 0 < gate.free) (visitor : α) :
    gate.enter visitor =
      (true, { gate with free := gate.free - 1, holders := visitor :: gate.holders }) := by
  rw [enter, if_pos hfree]

theorem enter_of_busy {gate : Gate α} (hbusy : ¬ 0 < gate.free) (visitor : α) :
    gate.enter visitor = (false, { gate with queue := gate.queue ++ [visitor] }) := by
  rw [enter, if_neg hbusy]

theorem line_enter (gate : Gate α) (visitor : α) : (gate.enter visitor).2.line =
    if 0 < gate.free then gate.line else gate.line ++ [visitor] := by
  unfold enter
  split
  · rfl
  · simp [line]

theorem capacity_enter (gate : Gate α) (visitor : α) :
    (gate.enter visitor).2.capacity = gate.capacity := by
  unfold enter
  split <;> rfl

theorem holders_enter_of_not {gate queued : Gate α} {visitor : α}
    (h : gate.enter visitor = (false, queued)) : queued.holders = gate.holders := by
  unfold enter at h
  split at h <;> cases h
  rfl

theorem Balanced.enter {gate : Gate α} (h : gate.Balanced) (visitor : α) :
    (gate.enter visitor).2.Balanced := by
  have hslots := h.slots
  simp only [Gate.slots] at hslots
  by_cases hfree : 0 < gate.free
  · rw [enter_of_free hfree]
    refine ⟨?_, fun hqueue => ?_⟩
    · simp only [Gate.slots, List.length_cons]
      omega
    · have := h.busy hqueue
      omega
  · rw [enter_of_busy hfree]
    exact ⟨h.slots, fun _ => Nat.eq_zero_of_not_pos hfree⟩

variable [DecidableEq α]

theorem line_claim {gate : Gate α} {visitor : α} (h : visitor ∈ gate.handed) :
    (gate.claim visitor).2.line = gate.line.erase visitor := by
  rw [claim, if_pos h, line, line, List.erase_append_left _ h]

theorem line_leave (gate : Gate α) (visitor : α) :
    (gate.leave visitor).line = gate.line.erase visitor := by
  unfold leave
  split
  next h => rw [line_passOn, line, line, List.erase_append_left _ h]
  next h => rw [line, line, List.erase_append_right _ h]

theorem line_release (gate : Gate α) (visitor : α) :
    (gate.release visitor).line = gate.line := by
  unfold release
  split
  · rw [line_passOn]; rfl
  · rfl

theorem holders_leave (gate : Gate α) (visitor : α) :
    (gate.leave visitor).holders = gate.holders := by
  unfold leave
  split
  · rw [holders_passOn]
  · rfl

theorem holders_release (gate : Gate α) (visitor : α) :
    (gate.release visitor).holders = gate.holders.erase visitor := by
  unfold release
  split
  · rw [holders_passOn]
  next h => rw [List.erase_of_not_mem h]

theorem capacity_claim (gate : Gate α) (visitor : α) :
    (gate.claim visitor).2.capacity = gate.capacity := by
  unfold claim
  split <;> rfl

theorem capacity_leave (gate : Gate α) (visitor : α) :
    (gate.leave visitor).capacity = gate.capacity := by
  unfold leave
  split
  · rw [capacity_passOn]
  · rfl

theorem capacity_release (gate : Gate α) (visitor : α) :
    (gate.release visitor).capacity = gate.capacity := by
  unfold release
  split
  · rw [capacity_passOn]
  · rfl

namespace Balanced

variable {gate : Gate α} (h : gate.Balanced) (visitor : α)
include h

theorem claim : (gate.claim visitor).2.Balanced := by
  unfold Gate.claim
  split
  next hmem =>
    refine ⟨?_, h.busy⟩
    have hslots := h.slots
    have hpos := List.length_pos_of_mem hmem
    simp only [Gate.slots, List.length_cons, List.length_erase_of_mem hmem] at hslots ⊢
    omega
  next => exact h

theorem leave : (gate.leave visitor).Balanced := by
  unfold Gate.leave
  split
  next hmem =>
    refine balanced_passOn ?_ h.busy
    have hslots := h.slots
    have hpos := List.length_pos_of_mem hmem
    simp only [Gate.slots, List.length_erase_of_mem hmem] at hslots ⊢
    omega
  next => exact ⟨h.slots, fun hqueue => h.busy fun hnil => hqueue (by simp [hnil])⟩

theorem release : (gate.release visitor).Balanced := by
  unfold Gate.release
  split
  next hmem =>
    refine balanced_passOn ?_ h.busy
    have hslots := h.slots
    have hpos := List.length_pos_of_mem hmem
    simp only [Gate.slots, List.length_erase_of_mem hmem] at hslots ⊢
    omega
  next => exact h

end Balanced

/-! ## Letting in -/

/-- A visitor is let in at once, or having waited. -/
def Admits (gate : Gate α) (visitor : α) (entered : Gate α) : Prop :=
  gate.enter visitor = (true, entered) ∨ gate.claim visitor = (true, entered)

namespace Admits

variable {gate entered : Gate α} {visitor : α} (h : gate.Admits visitor entered)
include h

theorem balanced (hbalanced : gate.Balanced) : entered.Balanced := by
  rcases h with henter | hclaim
  · simpa only [henter] using hbalanced.enter visitor
  · simpa only [hclaim] using hbalanced.claim visitor

theorem capacity : entered.capacity = gate.capacity := by
  rcases h with henter | hclaim
  · simpa only [henter] using gate.capacity_enter visitor
  · simpa only [hclaim] using gate.capacity_claim visitor

/-- Who is let in holds a slot. -/
theorem holders : entered.holders = visitor :: gate.holders := by
  rcases h with henter | hclaim
  · unfold enter at henter
    split at henter <;> cases henter
    rfl
  · unfold claim at hclaim
    split at hclaim <;> cases hclaim
    rfl

end Admits

end Gate

end Coordination
