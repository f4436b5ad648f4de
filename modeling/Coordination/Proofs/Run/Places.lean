import Coordination.Proofs.Run.Moments

/-!
# Places at the gate of a run

In a parallel run every member that has started and not settled holds a slot of
the gate (`Gate.Seats`), so no more of them are under way than the gate has
slots. A member starts only with a slot, so all but so many of those that have
started before it have settled.

* `Member.AtGate.seats`: a visit keeps the slots with those who are under way;
* `History.seats`: so it is at every visit;
* `History.settled_of_starts`: how many have settled when the next one starts.
-/

namespace Coordination

variable {σ : Type}

/-- Whether a member has started and not settled. -/
def Phase.isRunning : Phase → Bool
  | running .. => true
  | _ => false

/-- Whether a member has started. -/
def Phase.hasStarted : Phase → Bool
  | idle | waiting => false
  | _ => true

/-! ## Seats -/

namespace Gate

/-- The slots of a gate for so many are held by those for whom `seated` says so,
by their places. -/
structure Seats (capacity : Nat) (gate : Gate Nat) (seated : List Bool) : Prop where
  balanced : gate.Balanced
  capacity : gate.capacity = capacity
  count : gate.holders.length = seated.count true
  holds : ∀ index : Nat, seated[index]? = some true → index ∈ gate.holders

namespace Seats

variable {capacity index : Nat} {gate : Gate Nat} {seated : List Bool}

theorem count_set_true (hget : seated[index]? = some false) :
    (seated.set index true).count true = seated.count true + 1 := by
  obtain ⟨hlt, hseat⟩ := List.getElem?_eq_some_iff.1 hget
  rw [List.count_set hlt, hseat]
  rfl

theorem count_set_false (hget : seated[index]? = some true) :
    (seated.set index false).count true = seated.count true - 1 := by
  obtain ⟨hlt, hseat⟩ := List.getElem?_eq_some_iff.1 hget
  rw [List.count_set hlt, hseat]
  rfl

theorem of_ofCapacity (h : seated.count true = 0) :
    (ofCapacity capacity).Seats capacity seated where
  balanced := balanced_ofCapacity capacity
  capacity := rfl
  count := h.symm
  holds := fun index hget => by
    have hmem : true ∈ seated := List.mem_of_getElem? hget
    have hpos := List.count_pos_iff.2 hmem
    omega

theorem count_le (h : gate.Seats capacity seated) : seated.count true ≤ capacity := by
  have hslots := h.balanced.slots
  rw [slots, h.count, h.capacity] at hslots
  omega

/-- Who is let in takes a slot. -/
theorem letIn {entered : Gate Nat} (h : gate.Seats capacity seated)
    (hget : seated[index]? = some false) (hadmits : gate.Admits index entered) :
    entered.Seats capacity (seated.set index true) where
  balanced := hadmits.balanced h.balanced
  capacity := hadmits.capacity.trans h.capacity
  count := by rw [count_set_true hget, hadmits.holders, List.length_cons, h.count]
  holds := by
    intro other hother
    rw [hadmits.holders, List.mem_cons]
    rw [List.getElem?_set] at hother
    split at hother
    next heq => exact .inl heq.symm
    next => exact .inr (h.holds other hother)

/-- Who settles gives the slot back. -/
theorem release (h : gate.Seats capacity seated) (hget : seated[index]? = some true) :
    (gate.release index).Seats capacity (seated.set index false) where
  balanced := h.balanced.release index
  capacity := (capacity_release gate index).trans h.capacity
  count := by
    rw [count_set_false hget, holders_release, List.length_erase_of_mem (h.holds index hget),
      h.count]
  holds := by
    intro other hother
    rw [holders_release]
    rw [List.getElem?_set] at hother
    split at hother
    next => split at hother <;> cases hother
    next hne => exact (List.mem_erase_of_ne (Ne.symm hne)).2 (h.holds other hother)

/-- Who waits at the gate takes no slot. -/
theorem wait {queued : Gate Nat} (h : gate.Seats capacity seated) {index : Nat}
    (hwaits : gate.enter index = (false, queued)) : queued.Seats capacity seated where
  balanced := by simpa only [hwaits] using h.balanced.enter index
  capacity := by
    rw [← h.capacity]
    simpa only [hwaits] using gate.capacity_enter index
  count := by rw [holders_enter_of_not hwaits, h.count]
  holds := fun other hother => by
    rw [holders_enter_of_not hwaits]
    exact h.holds other hother

end Seats

end Gate

/-! ## Visits -/

namespace Member

section Seats

variable {scope : Scope} {index : Nat} {floor : Floor} {member : Member σ} {poll : Poll σ}
  {capacity : Nat} {seated : List Bool}

theorem hasStarted_of_settled {phase : Phase} (h : phase.settlement?.isSome) :
    phase.hasStarted = true := by
  obtain ⟨settlement, hsettled⟩ := Option.isSome_iff_exists.1 h
  rw [Phase.settlement?_eq_some.1 hsettled]
  rfl

theorem unsettled_of_unstarted {phase : Phase} (h : phase.hasStarted = false) :
    phase.settlement? = none := by
  cases phase <;> first | rfl | cases h

/-- A stretch leaves the gate as it is, and its member started. -/
theorem proceed_started (scope : Scope) (index : Nat) (poll : Poll σ) (floor : Floor)
    (member : Member σ) (access : Access) (events : List Event) :
    let after := proceed scope index poll floor member access events
    after.1.gate = floor.gate ∧ after.2.phase.hasStarted = true := by
  cases access with
  | own draft context =>
    have hworks := proceed_works scope index poll floor member draft context events
    refine ⟨hworks.inside.gate, ?_⟩
    rcases hworks.phase with hphase | hsettled
    · rw [hphase]
      rfl
    · exact hasStarted_of_settled hsettled
  | shared instruction =>
    simp only [proceed]
    split
    · exact ⟨rfl, rfl⟩
    · exact ⟨(succeed_inside ..).gate, hasStarted_of_settled (settled_succeed ..)⟩
    · exact ⟨(fail_inside ..).gate, rfl⟩

theorem start_started (scope : Scope) (index : Nat) (poll : Poll σ) (floor : Floor)
    (member : Member σ) :
    let after := start scope index poll floor member
    after.1.gate = floor.gate ∧ after.2.phase.hasStarted = true := by
  intro after
  cases hkeyed : floor.keyed with
  | true =>
    rcases start_begins scope index poll floor member hkeyed with
      ⟨error, _, hinside, hafter⟩ | ⟨_, _, _, _, _, _, _, _, hworks⟩
    · exact ⟨hinside.gate, by rw [show after.2 = _ from hafter]; rfl⟩
    · refine ⟨hworks.inside.gate, ?_⟩
      rcases hworks.phase with hphase | hsettled
      · rw [show after.2.phase = _ from hphase]
        rfl
      · exact hasStarted_of_settled hsettled
  | false =>
    have hafter : after = start scope index poll floor member := rfl
    simp only [start, hkeyed] at hafter
    rw [hafter]
    simp only [Bool.false_eq_true, if_false]
    split
    · exact ⟨(fail_inside ..).gate, rfl⟩
    · exact proceed_started ..

/-- Who has started keeps the slot, or gives it back having settled. -/
theorem freeSlot_seats {after : Floor × Member σ} (hlt : index < seated.length)
    (h : after.1.gate.Seats capacity (seated.set index true))
    (hstarted : after.2.phase.hasStarted = true) :
    (freeSlot scope index after).1.gate.Seats capacity
      (seated.set index (freeSlot scope index after).2.phase.isRunning) := by
  rw [snd_freeSlot]
  unfold freeSlot
  cases hphase : after.2.phase with
  | idle | waiting => simp [hphase, Phase.hasStarted] at hstarted
  | running access events => exact h
  | settled settlement =>
    have hfreed := h.release (List.getElem?_set_self hlt)
    rwa [List.set_set] at hfreed

/-- A visit keeps the slots with those who are under way, and who starts in it
finds a slot. -/
theorem AtGate.seats {after : Floor × Member σ}
    (hvisit : AtGate scope index poll floor member after)
    (hget : seated[index]? = some member.phase.isRunning) (h : floor.gate.Seats capacity seated) :
    after.1.gate.Seats capacity (seated.set index after.2.phase.isRunning) ∧
      (member.phase.hasStarted = false → after.2.phase.hasStarted = true →
        seated.count true < capacity) := by
  obtain ⟨hlt, hseat⟩ := List.getElem?_eq_some_iff.1 hget
  have hset : seated.set index member.phase.isRunning = seated :=
    hseat ▸ List.set_getElem_self hlt
  cases hvisit with
  | stays => exact ⟨hset.symm ▸ h, fun hfresh hstarted => by simp [hfresh] at hstarted⟩
  | waits gate _ hphase hgate =>
    rw [hphase] at hset
    refine ⟨?_, fun _ hstarted => by cases hstarted⟩
    show gate.Seats capacity (seated.set index false)
    exact hset.symm ▸ h.wait hgate
  | starts gate measurements hphase hgate =>
    have hidle : member.phase.isRunning = false := by
      rcases hphase with hphase | hphase <;> rw [hphase] <;> rfl
    rw [hidle] at hget
    have hseats := h.letIn hget hgate
    obtain ⟨hsame, hstarted⟩ := start_started scope index poll
      ({ floor with gate }.measure measurements) member
    have hle := hseats.count_le
    rw [Gate.Seats.count_set_true hget] at hle
    exact ⟨freeSlot_seats hlt (hsame.symm ▸ hseats) hstarted, fun _ _ => hle⟩
  | proceeds access events hphase =>
    obtain ⟨hsame, hstarted⟩ := proceed_started scope index poll floor member access events
    rw [hphase] at hset ⊢
    refine ⟨freeSlot_seats hlt ?_ hstarted, fun hfresh => by cases hfresh⟩
    rw [hsame]
    exact hset.symm ▸ h

/-- Who has started stays so. -/
theorem Visited.started {after : Floor × Member σ}
    (h : Visited scope index poll floor member after)
    (hstarted : member.phase.hasStarted = true) : after.2.phase.hasStarted = true := by
  cases h with
  | stays => exact hstarted
  | waits _ hphase => rw [hphase] at hstarted; cases hstarted
  | starts _ _ hphase =>
    rcases hphase with hphase | hphase <;> rw [hphase] at hstarted <;> cases hstarted
  | proceeds access events _ hphase => exact (proceed_started ..).2

end Seats

end Member

/-! ## Runs -/

namespace Visit

/-- Whether a visit brings its member to where `p` holds of it. -/
def brings (p : Phase → Bool) (visit : Visit σ) : Bool :=
  !p visit.member.phase && p visit.after.2.phase

/-- Whether the visited member starts in a visit. -/
def starts (visit : Visit σ) : Bool :=
  !visit.member.phase.hasStarted && visit.after.2.phase.hasStarted

theorem brings_hasStarted : brings Phase.hasStarted = (starts : Visit σ → Bool) := rfl

/-- A visit changes the count of members of a kind by the visited one alone. -/
theorem countP_left (visit : Visit σ) (p : Member σ → Bool) :
    visit.left.countP p + (if p visit.member then 1 else 0) =
      visit.members.countP p + (if p visit.after.2 then 1 else 0) := by
  simp only [left, members, List.countP_append, List.countP_cons]
  omega

/-- Along a log, the members of which `p` holds become more with every visit that
brings one there. -/
theorem Consecutive.countP_brings {p : Phase → Bool} {members : List (Member σ)}
    {visits : List (Visit σ)} (h : Consecutive members visits)
    (honward : ∀ visit ∈ visits, p visit.member.phase → p visit.after.2.phase) :
    (membersLeft members visits).countP (p ·.phase) =
      members.countP (p ·.phase) + visits.countP (brings p) := by
  induction visits generalizing members with
  | nil => rfl
  | cons visit visits ih =>
    obtain ⟨rfl, hrest⟩ := h
    rw [List.forall_mem_cons] at honward
    have hcount := visit.countP_left (p ·.phase)
    have hbrings : (if p visit.member.phase then 1 else 0) +
        (if visit.brings p then 1 else 0) = if p visit.after.2.phase then 1 else 0 := by
      have hfirst := honward.1
      unfold brings
      cases hbefore : p visit.member.phase <;> cases hafter : p visit.after.2.phase <;> simp_all
    rw [membersLeft_cons, ih hrest honward.2, List.countP_cons]
    omega

end Visit

namespace Run

variable {behave : σ → Poll σ} {workflow : Workflow σ} {context : Context} {workers : Nat}

/-- Those that have started are under way or have settled. -/
theorem countP_hasStarted (members : List (Member σ)) :
    members.countP (·.phase.hasStarted) =
      (members.map (·.phase.isRunning)).count true + (settlements members).length := by
  induction members with
  | nil => rfl
  | cons member members ih =>
    rw [List.countP_cons, ih, settlements, settlements, List.map_cons, List.count_cons,
      List.filterMap_cons]
    cases member.phase <;>
      simp [Phase.hasStarted, Phase.isRunning, Phase.settlement?] <;> omega

theorem countP_ofWorkflow (p : Phase → Bool) (hidle : p .idle = false) :
    (ofWorkflow workflow).members.countP (fun member => p member.phase) = 0 := by
  rw [List.countP_eq_zero]
  intro member hmem
  obtain ⟨_, -, rfl⟩ := List.mem_map.1 hmem
  simp [hidle]

/-- A visit keeps the slots with those who are under way, and who starts in it
finds a slot. -/
theorem seats_visited {behave : σ → Poll σ} {plan : Plan} {visit : Visit σ} {stretch : Stretch σ}
    (horder : plan.order = .parallel workers) (hof : visit.Of behave plan context stretch)
    (hseats : visit.floor.gate.Seats workers (visit.members.map (·.phase.isRunning))) :
    visit.after.1.gate.Seats workers (visit.left.map (·.phase.isRunning)) ∧
      (visit.starts → (visit.members.map (·.phase.isRunning)).count true < workers) := by
  have hget : (visit.members.map (·.phase.isRunning))[visit.index]? =
      some visit.member.phase.isRunning := by
    rw [List.getElem?_map, visit.getElem?_members, Option.map_some]
  have hparallel : visit.scope.plan.order = .parallel workers := by rw [hof.scope, horder]
  have hvisit := hof.atGate hparallel
  obtain ⟨hleft, hfree⟩ := hvisit.seats hget hseats
  rw [visit.left_eq_set, List.map_set]
  refine ⟨hleft, fun hstarts => ?_⟩
  rw [Visit.starts, Bool.and_eq_true, Bool.not_eq_true'] at hstarts
  exact hfree hstarts.1 hstarts.2

/-- Once a parallel run is opened, all slots of its gate are free. -/
theorem seats_open {world : World} {floor : Floor}
    (h : (ofWorkflow workflow).open context world = .ok floor)
    (horder : workflow.plan.order = .parallel workers) :
    floor.gate.Seats workers ((ofWorkflow workflow).members.map (·.phase.isRunning)) := by
  obtain ⟨recorded, -, hopened⟩ := open_eq_ok h
  have hgate := (putUpGate_eq_ok hopened).2.2 workers horder
  refine hgate ▸ .of_ofCapacity ?_
  rw [List.count, List.countP_map]
  exact countP_ofWorkflow (fun phase => phase.isRunning == true) rfl

variable {history : List (Stretch (Traced σ))}

/-- The slots of a parallel run are always with those who are under way. -/
theorem History.seats (horder : workflow.plan.order = .parallel workers)
    (hkeyed : workflow.isKeyed = true)
    (h : History (Traced.poll behave) context (ofWorkflow workflow.traced) history) :
    ∀ visit ∈ log (Traced.poll behave) context (ofWorkflow workflow.traced) history,
      Apart behave workflow visit.floor visit.members ∧
        visit.floor.gate.Seats workers (visit.members.map (·.phase.isRunning)) := by
  refine (h.log_induction (P := fun _ floor members => Apart behave workflow floor members ∧
    floor.gate.Seats workers (members.map (·.phase.isRunning))) (R := fun _ _ => True)
    rfl ?_ ?_ ?_ ?_ ?_).1
  · exact fun _ floor members hP => hP.1.keyed.trans (hP.1.carries.any_isSome.trans hkeyed).symm
  · intro state world floor hopen
    exact ⟨(apart_open behave hkeyed hopen).1, seats_open hopen horder⟩
  · intro visit hmem hP
    obtain ⟨stretch, -, hof⟩ := h.of_mem_log hmem
    exact ⟨(hP.1.visited hof).1, (seats_visited horder hof hP.2).1⟩
  · exact (List.pairwise_of_forall fun _ _ => trivial).isChain
  · exact fun _ floor members state world hP _ => ⟨hP.1.resume state world, hP.2⟩

/-- When a member of a parallel run starts, no more of those that have started
before it are under way than there are further slots; the others have settled. -/
theorem History.settled_of_starts (horder : workflow.plan.order = .parallel workers)
    (hkeyed : workflow.isKeyed = true)
    (h : History (Traced.poll behave) context (ofWorkflow workflow.traced) history)
    {before later : List (Visit (Traced σ))} {visit : Visit (Traced σ)}
    (hlog : log (Traced.poll behave) context (ofWorkflow workflow.traced) history =
      before ++ visit :: later) (hstarts : visit.starts) :
    before.countP Visit.starts + 1 ≤ (settlements visit.members).length + workers := by
  have hof : ∀ known ∈ before ++ visit :: later,
      ∃ stretch, known.Of (Traced.poll behave) workflow.plan context stretch := by
    intro known hmem
    rw [← hlog] at hmem
    obtain ⟨stretch, -, hof⟩ := h.of_mem_log hmem
    exact ⟨stretch, hof⟩
  have hseats := h.seats horder hkeyed
  have hconsecutive := h.consecutive_log
  rw [hlog] at hconsecutive hseats
  obtain ⟨hbefore, hmembers, -⟩ := hconsecutive.of_append
  obtain ⟨hapart, hseated⟩ := hseats visit (by simp)
  obtain ⟨stretch, hstretch⟩ := hof visit (by simp)
  have hfree := (seats_visited horder hstretch hseated).2 hstarts
  have hcount := hbefore.countP_brings (p := Phase.hasStarted) fun earlier hmem hstarted => by
    obtain ⟨_, hearlier⟩ := hof earlier (by simp [hmem])
    exact hearlier.visited.started hstarted
  rw [← hmembers, countP_ofWorkflow Phase.hasStarted rfl, countP_hasStarted,
    Visit.brings_hasStarted] at hcount
  omega

end Run

end Coordination
