import Coordination.Proofs.Run.Line

/-!
# The slots of a run at every moment

At every moment of a parallel run, between visits and while a member does its
work, no more members are under way than there are slots, and while somebody
waits to whom no slot was handed, every slot is held or handed over
(`Moment.Conserves`).

* `Visit.moments`: the moments of a visit;
* `Member.gate_visit`: what becomes of the slot of whoever does its work;
* `Run.Regulated.conserves`, `Run.Regulated.conserves_within`: the slots of a
  regulated run, before a visit and while its member does its work.
-/

namespace Coordination

variable {σ : Type}

/-! ## Moments -/

/-- Where a member stands at the gate. -/
inductive Post where
  /-- It has not asked for a slot. -/
  | away
  /-- It has asked for a slot and not started. -/
  | waiting
  /-- It has been let in, and its end is not recorded yet. -/
  | working
  | done
  deriving DecidableEq, Repr

/-- Where a member in this phase stands. -/
def Phase.post : Phase → Post
  | idle => .away
  | waiting => .waiting
  | running .. => .working
  | settled _ => .done

theorem Phase.post_eq_waiting {phase : Phase} : phase.post = .waiting ↔ phase = .waiting := by
  cases phase <;> simp [post]

theorem Phase.post_beq_working (phase : Phase) : (phase.post == .working) = phase.isRunning := by
  cases phase <;> rfl

/-- The gate of a parallel run at a moment, and where its members stand. -/
structure Moment where
  gate : Gate Nat
  posts : List Post

/-- No more members are under way than there are slots, and none of these is left
idle while somebody waits for one. -/
structure Moment.Conserves (workers : Nat) (moment : Moment) : Prop where
  bound : moment.posts.count .working ≤ workers
  slots : moment.gate.free + moment.posts.count .working + moment.gate.handed.length = workers
  /-- Slots are handed to members who wait, to each of them one. -/
  handed : ∀ index ∈ moment.gate.handed, moment.posts[index]? = some .waiting
  nodup : moment.gate.handed.Nodup
  /-- While a member waits to whom none was handed, all slots are held or handed over. -/
  busy : ∀ index : Nat, moment.posts[index]? = some .waiting → index ∉ moment.gate.handed →
    moment.posts.count .working + moment.gate.handed.length = workers

/-- So it is if the slots are with those who are under way, and those who wait
stand in line. -/
theorem Moment.conserves_of_seats {workers : Nat} {moment : Moment}
    (hseats : moment.gate.Seats workers (moment.posts.map (· == .working)))
    (hnodup : moment.gate.line.Nodup)
    (hline : ∀ index : Nat, index ∈ moment.gate.line ↔ moment.posts[index]? = some .waiting) :
    moment.Conserves workers := by
  have hcount : moment.gate.holders.length = moment.posts.count .working := by
    rw [hseats.count, List.count, List.countP_map, List.count]
    exact List.countP_congr fun post _ => by cases post <;> decide
  have hslots := hseats.balanced.slots
  rw [Gate.slots, hcount, hseats.capacity] at hslots
  refine ⟨by omega, hslots, ?_, (List.nodup_append.1 hnodup).1, ?_⟩
  · exact fun index hmem => (hline index).1 (List.mem_append_left _ hmem)
  · intro index hwaits hnot
    have hqueue : index ∈ moment.gate.queue :=
      (List.mem_append.1 ((hline index).2 hwaits)).resolve_left hnot
    have hfree := hseats.balanced.busy (List.ne_nil_of_mem hqueue)
    omega

namespace Run

/-- Where the members of a run stand. -/
def posts (members : List (Member σ)) : List Post := members.map (·.phase.post)

theorem getElem?_posts_eq_waiting {members : List (Member σ)} {index : Nat} :
    (posts members)[index]? = some .waiting ↔
      ∃ member, members[index]? = some member ∧ member.phase = .waiting := by
  simp only [posts, List.getElem?_map, Option.map_eq_some_iff, Phase.post_eq_waiting]

theorem map_posts (members : List (Member σ)) :
    (posts members).map (· == .working) = members.map (·.phase.isRunning) := by
  rw [posts, List.map_map]
  exact List.map_congr_left fun member _ => member.phase.post_beq_working

end Run

namespace Visit

/-- Whether the visited member does its work in a visit: it is let in, or was before. -/
def works (visit : Visit σ) : Bool := visit.starts || visit.member.phase.isRunning

/-- The gate while the visited member does its work. -/
def gateWithin (visit : Visit σ) : Gate Nat :=
  match visit.member.phase with
  | .idle => (visit.floor.gate.enter visit.index).2
  | .waiting => (visit.floor.gate.claim visit.index).2
  | _ => visit.floor.gate

/-- The moments of a visit: before it, while its member does its work, and after it. -/
def moments (visit : Visit σ) : List Moment :=
  ⟨visit.floor.gate, Run.posts visit.members⟩ ::
    (if visit.works then
      [⟨visit.gateWithin, (Run.posts visit.members).set visit.index .working⟩] else []) ++
    [⟨visit.after.1.gate, Run.posts visit.left⟩]

end Visit

namespace Member

theorem gate_freeSlot (scope : Scope) (index : Nat) (after : Floor × Member σ) :
    (freeSlot scope index after).1.gate =
      if after.2.phase.settlement?.isSome then after.1.gate.release index else after.1.gate := by
  unfold freeSlot
  cases after.2.phase <;> rfl

/-- Whoever does its work keeps the slot to the end of the visit, or gives it back
having settled. -/
theorem gate_visit {visit : Visit σ} {behave : σ → Poll σ}
    (hafter : visit.after = Member.visit visit.scope visit.index (behave visit.member.process)
      visit.floor visit.member) (hworks : visit.works) :
    visit.after.1.gate = if visit.after.2.phase.settlement?.isSome then
      visit.gateWithin.release visit.index else visit.gateWithin := by
  have hfreed : ∀ (gate : Gate Nat) (after : Floor × Member σ), after.1.gate = gate →
      (freeSlot visit.scope visit.index after).1.gate =
        if (freeSlot visit.scope visit.index after).2.phase.settlement?.isSome then
          gate.release visit.index else gate := by
    rintro _ after rfl
    rw [gate_freeSlot, snd_freeSlot]
  rw [Visit.works, Visit.starts, hafter] at hworks
  rw [hafter, Visit.gateWithin]
  unfold Member.visit at hworks ⊢
  cases hphase : visit.member.phase with
  | idle =>
    simp only [hphase] at hworks ⊢
    cases henter : visit.floor.gate.enter visit.index with
    | mk entered gate =>
      cases entered with
      | true => exact hfreed gate _ (start_started ..).1
      | false => simp [henter, Phase.hasStarted, Phase.isRunning] at hworks
  | waiting =>
    simp only [hphase] at hworks ⊢
    split at hworks
    next hadmits =>
      rw [if_pos hadmits]
      cases hclaim : visit.floor.gate.claim visit.index with
      | mk claimed gate =>
        cases claimed with
        | true => exact hfreed gate _ (start_started ..).1
        | false => simp [hclaim, hphase, Phase.hasStarted, Phase.isRunning] at hworks
    next => simp [hphase, Phase.hasStarted, Phase.isRunning] at hworks
  | running access events => exact hfreed _ _ (proceed_started ..).1
  | settled settlement => simp [hphase, Phase.hasStarted, Phase.isRunning] at hworks

/-- Whoever starts in a visit is let in, and goes out of the line if it stood there. -/
theorem Queues.admits {visit : Visit σ}
    (h : Queues visit.index visit.floor visit.member visit.after) (hstarts : visit.starts)
    (hidle : visit.member.phase = .idle → visit.index ∉ visit.floor.gate.line) :
    visit.floor.gate.Admits visit.index visit.gateWithin ∧
      visit.gateWithin.line = visit.floor.gate.line.erase visit.index := by
  rw [Visit.starts, Bool.and_eq_true, Bool.not_eq_true'] at hstarts
  cases h with
  | joins _ hwaits => simp [hwaits, Phase.hasStarted] at hstarts
  | enters hphase hfree =>
    have hgate : visit.gateWithin = (visit.floor.gate.enter visit.index).2 := by
      rw [Visit.gateWithin, hphase]
    refine ⟨.inl ?_, ?_⟩
    · rw [hgate, Gate.enter_of_free hfree]
    · rw [hgate, Gate.line_enter, if_pos hfree, List.erase_of_not_mem (hidle hphase)]
  | comes hphase hhanded =>
    have hgate : visit.gateWithin = (visit.floor.gate.claim visit.index).2 := by
      rw [Visit.gateWithin, hphase]
    refine ⟨.inr ?_, ?_⟩
    · rw [hgate, Gate.claim, if_pos hhanded]
    · rw [hgate, Gate.line_claim hhanded]
  | waits hphase hafter => simp [hafter, hphase, Phase.hasStarted] at hstarts
  | goesOn hbegun => simp [hbegun] at hstarts

end Member

namespace Run

variable {behave : σ → Poll σ} {workflow : Workflow σ} {workers : Nat} {context : Context}

theorem Regulated.conserves {floor : Floor} {members : List (Member σ)}
    (h : Regulated workflow workers floor members) :
    Moment.Conserves workers ⟨floor.gate, posts members⟩ := by
  refine Moment.conserves_of_seats ?_ (h.queued.ascending.imp Nat.ne_of_lt) fun index => ?_
  · rw [map_posts]
    exact h.seats
  · rw [getElem?_posts_eq_waiting]
    exact h.queued.mem_line index

/-- Whoever starts in a visit to a regulated run is let in by its gate. -/
theorem Regulated.admits {visit : Visit σ}
    (h : Regulated workflow workers visit.floor visit.members)
    (hqueues : Member.Queues visit.index visit.floor visit.member visit.after)
    (hstarts : visit.starts) :
    visit.floor.gate.Admits visit.index visit.gateWithin ∧
      visit.gateWithin.line = visit.floor.gate.line.erase visit.index := by
  refine hqueues.admits hstarts fun hphase hmem => ?_
  exact absurd (h.queued.lt_of_mem_line hphase _ hmem) (Nat.lt_irrefl _)

/-- The slots are as they should be while a member does its work. -/
theorem Regulated.conserves_within {visit : Visit σ}
    (h : Regulated workflow workers visit.floor visit.members)
    (hqueues : Member.Queues visit.index visit.floor visit.member visit.after)
    (hworks : visit.works) :
    Moment.Conserves workers
      ⟨visit.gateWithin, (posts visit.members).set visit.index .working⟩ := by
  have hget : (posts visit.members)[visit.index]? = some visit.member.phase.post := by
    rw [posts, List.getElem?_map, visit.getElem?_members, Option.map_some]
  obtain ⟨hlt, hpost⟩ := List.getElem?_eq_some_iff.1 hget
  rw [Visit.works, Bool.or_eq_true] at hworks
  rcases hworks with hstarts | hrunning
  · obtain ⟨hadmits, hline⟩ := h.admits hqueues hstarts
    have hunseated : (visit.members.map (·.phase.isRunning))[visit.index]? = some false := by
      rw [List.getElem?_map, visit.getElem?_members, Option.map_some]
      rw [Visit.starts, Bool.and_eq_true, Bool.not_eq_true'] at hstarts
      cases hphase : visit.member.phase <;>
        simp [hphase, Phase.hasStarted, Phase.isRunning] at hstarts ⊢
    refine Moment.conserves_of_seats ?_ (hline ▸ h.queued.nodup.erase _) fun index => ?_
    · rw [List.map_set, map_posts]
      exact h.seats.letIn hunseated hadmits
    · simp only [hline, h.queued.nodup.mem_erase_iff, h.queued.mem_line,
        ← getElem?_posts_eq_waiting, List.getElem?_set]
      by_cases hindex : visit.index = index
      · simp [hindex.symm, hlt]
      · simp [hindex, Ne.symm hindex]
  · have hphase : visit.member.phase.post = .working := by
      rw [← Phase.post_beq_working] at hrunning
      exact eq_of_beq hrunning
    have hgate : visit.gateWithin = visit.floor.gate := by
      rw [Visit.gateWithin]
      split
      next hidle => rw [hidle] at hphase; cases hphase
      next hwaits => rw [hwaits] at hphase; cases hphase
      next => rfl
    have hset : (posts visit.members).set visit.index .working = posts visit.members := by
      rw [← hphase, ← hpost]
      exact List.set_getElem_self hlt
    rw [hgate, hset]
    exact h.conserves

end Run

end Coordination
