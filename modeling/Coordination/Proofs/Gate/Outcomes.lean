import Mathlib.Data.List.Nodup
import Coordination.Proofs.Gate.Attendance

/-!
# What asking a request comes to

The answers that a desk has given tell all about its gate: the foremost of those who wait
were handed what slots are not held, and the slots that are left then are free
(`Gate.standing`). So they tell what asking an open request comes to, and what that leaves
(`Desk.outcome`, `Desk.asked_exactly`).

* `Gate.Left`: how one that waited leaves the line, and what becomes of its slot;
* `Desk.nodup_ids_after`: no two open requests have one id;
* `Desk.Leaves`: what a step about one request leaves of all of them;
* `Tallied.poll_outcome`: asking, from any desk that agrees with its answers.
-/

namespace Coordination

namespace Gate

variable {α : Type}

/-- The gate of so many slots where these wait and these hold a slot. The foremost of the
line were handed a slot, as far as slots are not held. -/
def standing (workers : Nat) (line held : List α) : Gate α where
  capacity := workers
  free := workers - held.length - line.length
  holders := held
  handed := line.take (workers - held.length)
  queue := line.drop (workers - held.length)

theorem Balanced.eq_standing {gate : Gate α} (h : gate.Balanced) :
    gate = .standing gate.capacity gate.line gate.holders := by
  have hslots := h.slots
  obtain ⟨capacity, free, holders, handed, queue⟩ := gate
  simp only [Gate.slots] at hslots
  simp only [standing, line, List.length_append, mk.injEq, true_and]
  have hrest : capacity - holders.length = handed.length + free := by omega
  rw [hrest, List.take_length_add_append, List.drop_length_add_append]
  cases queue with
  | nil => simp
  | cons first rest =>
    -- Somebody waits for a slot, so none is free.
    obtain rfl : free = 0 := h.busy (List.cons_ne_nil first rest)
    simp

variable [DecidableEq α]

/-- How a visitor leaves who waits at a gate. Nobody else moves but to take the slot over. -/
inductive Left (visitor : α) (gate : Gate α) : Gate α → Prop
  /-- They were handed a slot, which goes to the first in the queue. -/
  | passed (first : α) (rest : List α) (hhanded : visitor ∈ gate.handed)
      (hqueue : gate.queue = first :: rest) :
    Left visitor gate
      { gate with handed := gate.handed.erase visitor ++ [first], queue := rest }
  /-- They were handed a slot, and nobody waits for it. -/
  | freed (hhanded : visitor ∈ gate.handed) (hqueue : gate.queue = []) :
    Left visitor gate { gate with handed := gate.handed.erase visitor, free := gate.free + 1 }
  /-- They had no slot. -/
  | unserved (hunserved : visitor ∉ gate.handed) (hqueue : visitor ∈ gate.queue) :
    Left visitor gate { gate with queue := gate.queue.erase visitor }

theorem left_leave {gate : Gate α} {visitor : α} (hwaits : visitor ∈ gate.line) :
    gate.Left visitor (gate.leave visitor) := by
  unfold leave
  split
  next hhanded =>
    unfold passOn
    split
    next hqueue => exact .freed hhanded hqueue
    next first rest hqueue => exact .passed first rest hhanded hqueue
  next hunserved =>
    exact .unserved hunserved ((List.mem_append.1 hwaits).resolve_left hunserved)

end Gate

namespace Desk

variable {desk after : Desk} {id : String} {request : Request}

/-! ## Asking -/

/-- How an open request is asked: the answer, and the desk that it leaves. -/
inductive Asks (desk : Desk) (request : Request) : Reply → Desk → Prop
  /-- For the first time, and a slot is free. -/
  | entered (hasked : request.asked = false) (hfree : 0 < desk.gate.free) :
    Asks desk request .admitted
      { desk.close request.id with gate := (desk.gate.enter request.id).2 }
  /-- For the first time, having been called off. -/
  | refused (hasked : request.asked = false) (hbusy : ¬ 0 < desk.gate.free)
      (hcalled : request.isCalledOff = true) :
    Asks desk request .cancelled (desk.close request.id)
  /-- For the first time, and no slot is free. -/
  | queued (hasked : request.asked = false) (hbusy : ¬ 0 < desk.gate.free)
      (hcalled : request.isCalledOff = false) :
    Asks desk request .pending
      { desk.update request.id fun request => { request with asked := true, woken := false } with
        gate := (desk.gate.enter request.id).2 }
  /-- Again, having been called off. -/
  | left (hasked : request.asked = true) (hcalled : request.isCalledOff = true) :
    Asks desk request .cancelled
      ((desk.close request.id).wake (desk.gate.leave request.id))
  /-- Again, having been handed a slot. -/
  | claimed (hasked : request.asked = true) (hcalled : request.isCalledOff = false)
      (hhanded : request.id ∈ desk.gate.handed) :
    Asks desk request .admitted
      { desk.close request.id with gate := (desk.gate.claim request.id).2 }
  /-- Again, and no slot was handed over. -/
  | waits (hasked : request.asked = true) (hcalled : request.isCalledOff = false)
      (hunserved : request.id ∉ desk.gate.handed) :
    Asks desk request .pending
      (desk.update request.id fun request => { request with woken := false })

theorem asks_poll (hopen : desk.request? id = some request) :
    desk.Asks request (desk.poll id).1 (desk.poll id).2.1 := by
  simp only [poll, hopen]
  split
  next hasked =>
    unfold askAgain
    split
    next hcalled => exact .left hasked hcalled
    next hcalled =>
      rw [Bool.not_eq_true] at hcalled
      by_cases hhanded : request.id ∈ desk.gate.handed
      · simpa [Gate.claim, hhanded] using Asks.claimed hasked hcalled hhanded
      · simpa [Gate.claim, hhanded] using Asks.waits hasked hcalled hhanded
  next hasked =>
    rw [Bool.not_eq_true] at hasked
    unfold firstAsk
    split
    next hfree => exact .entered hasked hfree
    next hbusy =>
      split
      next hcalled => exact .refused hasked hbusy hcalled
      next hcalled => exact .queued hasked hbusy (Bool.not_eq_true _ ▸ hcalled)

/-! ## The ids of the open requests -/

/-- The ids of the open requests. -/
def ids (desk : Desk) : List String := desk.requests.map (·.id)

theorem ids_close (desk : Desk) (id : String) : (desk.close id).ids.Sublist desk.ids :=
  List.filter_sublist.map _

theorem ids_of_map {change : Request → Request}
    (hchange : ∀ request, (change request).id = request.id)
    (hrequests : after.requests = desk.requests.map change) : after.ids = desk.ids := by
  simp only [ids, hrequests, List.map_map]
  exact List.map_congr_left fun request _ => hchange request

theorem ids_update (desk : Desk) (id : String) {change : Request → Request}
    (hchange : ∀ request, (change request).id = request.id) :
    (desk.update id change).ids = desk.ids :=
  ids_of_map (fun request => by split <;> simp [hchange]) rfl

theorem ids_wake (desk : Desk) (gate : Gate String) : (desk.wake gate).ids = desk.ids :=
  ids_of_map (fun request => by split <;> rfl) rfl

theorem ids_poll (desk : Desk) (id : String) : (desk.poll id).2.1.ids.Sublist desk.ids := by
  cases hrequest : desk.request? id with
  | none =>
    simp only [poll, hrequest]
    exact List.Sublist.refl _
  | some request =>
    obtain hasks := asks_poll hrequest
    generalize (desk.poll id).1 = reply, (desk.poll id).2.1 = after at hasks
    cases hasks with
    | entered | refused | claimed => exact desk.ids_close _
    | queued =>
      change (desk.update request.id _).ids.Sublist _
      rw [ids_update]
      exact fun _ => rfl
    | left =>
      rw [ids_wake]
      exact desk.ids_close _
    | waits =>
      rw [ids_update]
      exact fun _ => rfl

theorem ids_drop (desk : Desk) (id : String) : (desk.drop id).2.1.ids.Sublist desk.ids := by
  unfold drop
  split
  next => exact List.Sublist.refl _
  next =>
    split
    · rw [ids_wake]
      exact desk.ids_close id
    · exact desk.ids_close id

/-- A request is made under an id that no open one has. -/
theorem nodup_ids_create (h : desk.ids.Nodup) (id : String) (signal : Option Bool) :
    (desk.create id signal).ids.Nodup := by
  unfold create
  split
  · exact h
  next hnew =>
    simp only [Bool.or_eq_true, not_or, Option.isSome_iff_ne_none, ne_eq, not_not, request?,
      List.find?_eq_none, decide_eq_true_eq] at hnew
    rw [ids, List.map_append]
    refine List.nodup_append.2 ⟨h, List.nodup_singleton _, ?_⟩
    rintro other hother _ hid rfl
    obtain ⟨request, hmem, rfl⟩ := List.mem_map.1 hother
    exact hnew.1 request hmem (List.mem_singleton.1 hid)

/-- No step gives two open requests one id. -/
theorem nodup_ids_apply (h : desk.ids.Nodup) (step : Step) : (desk.apply step).2.1.ids.Nodup := by
  cases step with
  | create id signal => exact nodup_ids_create h id signal
  | acquire id signal => exact (nodup_ids_create h id signal).sublist (ids_poll _ id)
  | poll id => exact h.sublist (desk.ids_poll id)
  | cancel id =>
    simp only [apply, cancel]
    split
    · rwa [ids_update]
      exact fun _ => rfl
    · exact h
  | drop id => exact h.sublist (desk.ids_drop id)
  | release id =>
    simp only [apply, release]
    split
    · rwa [ids_wake]
    · exact h

/-- No two open requests have one id, whatever was done. -/
theorem nodup_ids_after (h : desk.ids.Nodup) (steps : List Step) :
    (desk.after steps).ids.Nodup := by
  induction steps generalizing desk with
  | nil => exact h
  | cons step steps ih => exact ih (nodup_ids_apply h step)

/-- Without two of one id, each open request is the one of its id. -/
theorem request?_of_mem (h : desk.ids.Nodup) (hopen : request ∈ desk.requests) :
    desk.request? request.id = some request := by
  cases hfound : desk.request? request.id with
  | none =>
    rw [request?, List.find?_eq_none] at hfound
    exact absurd (decide_eq_true rfl) (hfound request hopen)
  | some found =>
    have hmem : found ∈ desk.requests := List.mem_of_find?_eq_some hfound
    rw [List.inj_on_of_nodup_map h hmem hopen (request?_eq_some hfound).1]

/-! ## What a step leaves -/

/-- What a step about the request of an id leaves of all requests: this one as told, and
the others as they were, but that those are woken whom the step hands a slot. -/
def Leaves (desk : Desk) (id : String) (left : Option Request) (after : Desk) : Prop :=
  ∀ other, after.request? other =
    if other = id then left
    else (desk.request? other).map fun request =>
      if other ∈ after.gate.handed ∧ other ∉ desk.gate.handed then { request with woken := true }
      else request

theorem request?_close (desk : Desk) (id other : String) :
    (desk.close id).request? other = if other = id then none else desk.request? other := by
  simp only [request?, close, List.find?_filter, decide_eq_true_eq]
  split
  next heq =>
    rw [List.find?_eq_none]
    simp [heq]
  next hne =>
    refine congrArg (List.find? · desk.requests) (funext fun request => decide_eq_decide.2 ?_)
    exact ⟨And.right, fun hid => ⟨hid ▸ hne, hid⟩⟩

theorem request?_of_map {change : Request → Request}
    (hchange : ∀ request, (change request).id = request.id)
    (hrequests : after.requests = desk.requests.map change) (other : String) :
    after.request? other = (desk.request? other).map change := by
  simp only [request?, hrequests, List.find?_map, Function.comp_def, hchange]

/-- What a step leaves if it hands nobody a slot. -/
theorem leaves_of_subset {left : Option Request} (hhanded : after.gate.handed ⊆ desk.gate.handed)
    (hrequest : ∀ other, after.request? other = if other = id then left else desk.request? other) :
    desk.Leaves id left after := by
  intro other
  have hnone : ¬ (other ∈ after.gate.handed ∧ other ∉ desk.gate.handed) :=
    fun h => h.2 (hhanded h.1)
  rw [hrequest]
  simp only [if_neg hnone, Option.map_id']

/-- A request is closed, and nobody is handed a slot. -/
theorem leaves_closed (hrequests : after.requests = (desk.close id).requests)
    (hhanded : after.gate.handed ⊆ desk.gate.handed) : desk.Leaves id none after := by
  refine leaves_of_subset hhanded fun other => ?_
  rw [request?, hrequests]
  exact desk.request?_close id other

/-- A request stays open with a change, and nobody is handed a slot. -/
theorem leaves_update (hopen : desk.request? id = some request) (change : Request → Request)
    (hchange : ∀ request, (change request).id = request.id)
    (hrequests : after.requests = (desk.update id change).requests)
    (hhanded : after.gate.handed ⊆ desk.gate.handed) :
    desk.Leaves id (some (change request)) after := by
  refine leaves_of_subset hhanded fun other => ?_
  rw [request?_of_map (fun request => ?_) hrequests]
  · split
    next heq => simp [heq, hopen, (request?_eq_some hopen).1]
    next hne =>
      cases hother : desk.request? other with
      | none => rfl
      | some found => simp [(request?_eq_some hother).1, hne]
  · split <;> simp [hchange]

/-- A request is closed, and the others are woken by what becomes of the gate. -/
theorem leaves_wake (desk : Desk) (id : String) (gate : Gate String) :
    desk.Leaves id none ((desk.close id).wake gate) := by
  intro other
  rw [request?_of_map (fun request => ?_) rfl, request?_close]
  · split
    · rfl
    · cases hother : desk.request? other with
      | none => rfl
      | some found => simp [(request?_eq_some hother).1, wake, close]
  · split <;> rfl

/-- A request stays open, and is asked, as long as it is told to wait. -/
theorem leaves_poll (hopen : desk.request? id = some request) :
    desk.Leaves id (if (desk.poll id).1 = .pending
      then some { request with asked := true, woken := false } else none) (desk.poll id).2.1 := by
  obtain rfl : request.id = id := (request?_eq_some hopen).1
  have hasks := asks_poll hopen
  generalize (desk.poll request.id).1 = reply, (desk.poll request.id).2.1 = after at hasks ⊢
  cases hasks with
  | entered _ hfree =>
    refine leaves_closed rfl ?_
    rw [Gate.enter_of_free hfree]
    exact List.Subset.refl _
  | refused => exact leaves_closed rfl (List.Subset.refl _)
  | queued _ hbusy =>
    refine leaves_update hopen (fun request => { request with asked := true, woken := false })
      (fun _ => rfl) rfl ?_
    rw [Gate.enter_of_busy hbusy]
    exact List.Subset.refl _
  | left => exact desk.leaves_wake request.id _
  | claimed _ _ hhanded =>
    refine leaves_closed rfl ?_
    rw [Gate.claim, if_pos hhanded]
    exact List.erase_subset
  | waits hasked =>
    have hsame : ({ request with asked := true, woken := false } : Request) =
        { request with woken := false } := by rw [← hasked]
    rw [if_pos rfl, hsame]
    exact leaves_update hopen (fun request => { request with woken := false }) (fun _ => rfl) rfl
      (List.Subset.refl _)

/-- A request that is dropped is closed. -/
theorem leaves_drop (hopen : desk.request? id = some request) :
    (desk.drop id).1 = .dropped ∧ desk.Leaves id none (desk.drop id).2.1 := by
  simp only [drop, hopen]
  split
  · exact ⟨rfl, desk.leaves_wake id _⟩
  · exact ⟨rfl, leaves_closed rfl (List.Subset.refl _)⟩

/-! ## Outcomes -/

/-- What asking a request comes to at a gate of so many slots where these wait and these
hold a slot: the answer, and how the gate stands then. -/
def outcome (workers : Nat) (line held : List String) (request : Request) :
    Reply × Gate String :=
  if request.id ∈ line then
    if request.isCalledOff then (.cancelled, .standing workers (line.erase request.id) held)
    else if request.id ∈ line.take (workers - held.length) then
      (.admitted, .standing workers (line.erase request.id) (request.id :: held))
    else (.pending, .standing workers line held)
  else if held.length + line.length < workers then
    (.admitted, .standing workers line (request.id :: held))
  else if request.isCalledOff then (.cancelled, .standing workers line held)
  else (.pending, .standing workers (line ++ [request.id]) held)

variable {line held : List String}

theorem Tallied.eq_standing (h : Tallied desk line held) :
    desk.gate = .standing desk.gate.capacity line held := by
  rw [← h.line_eq, ← h.holders_eq]
  exact h.balanced.eq_standing

/-- How the gate stands after a step, told from its answer. -/
theorem Follows.gate_eq {step : Step} {out : Reply × Desk × List Measurement}
    (h : Follows desk line held step out) : out.2.1.gate =
      .standing desk.gate.capacity (stand line (step, out.1)) (hold held (step, out.1)) := by
  rw [← h.capacity]
  exact h.tallied.eq_standing

namespace Tallied

/-- An open request waits exactly if it was asked before. -/
theorem asked_iff (h : Tallied desk line held) (hopen : desk.request? id = some request) :
    request.asked = true ↔ id ∈ line := by
  obtain ⟨-, hattends⟩ := request?_eq_some hopen
  refine ⟨fun hasked => (h.waiting id).2 (hasked ▸ hattends), fun hwaits => ?_⟩
  rw [← Bool.not_eq_false]
  exact fun hasked => h.fresh id (hasked ▸ hattends) hwaits

/-- Asking comes to what who waits and who holds a slot tell. -/
theorem poll_outcome (h : Tallied desk line held) (hopen : desk.request? id = some request) :
    ((desk.poll id).1, (desk.poll id).2.1.gate) =
      outcome desk.gate.capacity line held request := by
  obtain rfl : request.id = id := (request?_eq_some hopen).1
  have hwaits := h.asked_iff hopen
  have hgate := h.eq_standing
  have hasks := asks_poll hopen
  have hafter := (h.poll (.poll request.id)).gate_eq
  rw [Step.id] at hafter
  rw [hafter]
  clear hafter
  generalize (desk.poll request.id).1 = reply, (desk.poll request.id).2.1 = after at hasks ⊢
  unfold outcome
  -- Who was not asked before does not stand in line, so going out of it changes nothing.
  have hnew : request.asked = false → request.id ∉ line ∧ line.erase request.id = line := by
    intro hfresh
    have hnot : request.id ∉ line := mt hwaits.2 (by simp [hfresh])
    exact ⟨hnot, List.erase_of_not_mem hnot⟩
  have hhanded : desk.gate.handed = line.take (desk.gate.capacity - held.length) :=
    congrArg Gate.handed hgate
  have hfree : 0 < desk.gate.free ↔ held.length + line.length < desk.gate.capacity := by
    have hfree : desk.gate.free = desk.gate.capacity - held.length - line.length :=
      congrArg Gate.free hgate
    omega
  cases hasks with
  | entered hasked hslot =>
    rw [if_neg (hnew hasked).1, if_pos (hfree.1 hslot)]
    simp only [stand, hold, Step.id, (hnew hasked).2]
  | refused hasked hbusy hcalled =>
    rw [if_neg (hnew hasked).1, if_neg (mt hfree.2 hbusy), if_pos hcalled]
    simp only [stand, hold, Step.id, (hnew hasked).2]
  | queued hasked hbusy hcalled =>
    rw [if_neg (hnew hasked).1, if_neg (mt hfree.2 hbusy), if_neg (by simp [hcalled])]
    exact congrArg (fun line => (Reply.pending, Gate.standing _ line held))
      (if_neg (hnew hasked).1)
  | left hasked hcalled =>
    rw [if_pos (hwaits.1 hasked), if_pos hcalled]
    rfl
  | claimed hasked hcalled hslot =>
    rw [if_pos (hwaits.1 hasked), if_neg (by simp [hcalled]), if_pos (hhanded ▸ hslot)]
    rfl
  | waits hasked hcalled hslot =>
    rw [if_pos (hwaits.1 hasked), if_neg (by simp [hcalled]), if_neg (hhanded ▸ hslot)]
    exact congrArg (fun line => (Reply.pending, Gate.standing _ line held))
      (if_pos (hwaits.1 hasked))

/-- Who waits leaves the line when dropped, and when asked having been called off. -/
theorem left_of_waits (h : Tallied desk line held) (hopen : desk.request? id = some request)
    (hwaits : id ∈ line) : desk.gate.Left id (desk.drop id).2.1.gate ∧
      (request.isCalledOff = true → desk.gate.Left id (desk.poll id).2.1.gate) := by
  obtain rfl : request.id = id := (request?_eq_some hopen).1
  have hasked := (h.asked_iff hopen).2 hwaits
  have hleft := Gate.left_leave (h.line_eq.symm ▸ hwaits)
  refine ⟨?_, fun hcalled => ?_⟩
  · simp only [Desk.drop, hopen, if_pos hasked]
    exact hleft
  · simp only [Desk.poll, hopen, if_pos hasked, Desk.askAgain, if_pos hcalled]
    exact hleft

end Tallied

/-- What becomes of an open request at a gate of so many slots, where these wait and these
hold a slot, if it is asked and if it is dropped. -/
structure Prospect (desk : Desk) (workers : Nat) (line held : List String) (request : Request) :
    Prop where
  gate : desk.gate = .standing workers line held
  /-- It was asked before if it waits. -/
  asked : request.asked = true ↔ request.id ∈ line
  poll : ((desk.poll request.id).1, (desk.poll request.id).2.1.gate) =
    outcome workers line held request
  /-- It stays open as long as it is told to wait. -/
  pollLeaves : desk.Leaves request.id (if (desk.poll request.id).1 = .pending
    then some { request with asked := true, woken := false } else none) (desk.poll request.id).2.1
  drop : ((desk.drop request.id).1, (desk.drop request.id).2.1.gate) =
    (.dropped, .standing workers (line.erase request.id) held)
  dropLeaves : desk.Leaves request.id none (desk.drop request.id).2.1
  /-- If it waits and is dropped, or is asked having been called off, a slot that it was
  handed goes to the next in line, or is free. -/
  left : request.id ∈ line → desk.gate.Left request.id (desk.drop request.id).2.1.gate ∧
    (request.isCalledOff = true → desk.gate.Left request.id (desk.poll request.id).2.1.gate)

/-- Asked or dropped, an open request comes to exactly what the answers tell that were given
before, whatever was done at the desk. -/
theorem asked_exactly {workers : Nat} {gate : Gate String} (hgate : Gate.new workers = .ok gate)
    (label : String) (steps : List Step) :
    let desk := (ofGate label gate).after steps
    let answers := (ofGate label gate).answers steps
    ∀ request ∈ desk.requests,
      desk.Prospect workers (lineOf answers) (heldOf answers) request := by
  obtain rfl := Gate.new_eq_ok hgate
  intro desk answers request hopen
  have hstart := tallied_ofGate label workers
  have h : Tallied desk (lineOf answers) (heldOf answers) := hstart.after steps
  have hcapacity : desk.gate.capacity = workers := (hstart.level_run steps).1
  have hids : (ofGate label (.ofCapacity workers)).ids.Nodup := List.nodup_nil
  have hopen : desk.request? request.id = some request :=
    request?_of_mem (nodup_ids_after hids steps) hopen
  have hdrop := (h.drop (.drop request.id)).gate_eq
  obtain ⟨hdropped, hleaves⟩ := leaves_drop hopen
  exact {
    gate := hcapacity ▸ h.eq_standing
    asked := h.asked_iff hopen
    poll := hcapacity ▸ h.poll_outcome hopen
    pollLeaves := leaves_poll hopen
    drop := by
      rw [Step.id, hdropped, hcapacity] at hdrop
      rw [hdropped, hdrop]
      rfl
    dropLeaves := hleaves
    left := h.left_of_waits hopen }

/-- One slot, which was handed to a request that is then called off, and one that waits. -/
def calledAway : List Step :=
  [.acquire "a" none, .acquire "b" (some false), .acquire "c" none, .release "a", .cancel "b"]

theorem asked_exactly_calledAway :
    Gate.new 1 = .ok (.ofCapacity 1 : Gate String) ∧
      let desk := (ofGate "door" (.ofCapacity 1)).after calledAway
      let request : Request := ⟨"b", some true, true, true⟩
      request ∈ desk.requests ∧ desk.gate = .standing 1 ["b", "c"] [] ∧
        outcome 1 ["b", "c"] [] request = (.cancelled, .standing 1 ["c"] []) ∧
        desk.Prospect 1 ["b", "c"] [] request :=
  ⟨rfl, by decide, by decide, by decide, asked_exactly rfl "door" calledAway _ (by decide)⟩

end Desk

end Coordination
