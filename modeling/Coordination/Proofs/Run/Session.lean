import Coordination.Proofs.Run.Visit

/-!
# Sessions of their own

In a run with output keys every sub-task works in a session of its own. It
begins with the values of the run's session and the outputs that were
committed before (`Member.Begins`); from then on it holds what the sub-task
itself leaves there (`Confined`), and nobody else sees that
(`Member.visitBy_leaving`).

* `Member.proceed_works`, `Member.start_begins`: a stretch of a sub-task, and its start;
* `Member.Secluded.visited`: a visit keeps sessions apart, and the values of the run's session.
-/

namespace Coordination

variable {σ : Type}

/-! ## Floors -/

/-- What is done for a member that has a slot: visits keep more of the floor than
that, namely the gate. -/
structure Floor.Inside (before after : Floor) : Prop extends before.Kept after where
  gate : after.gate = before.gate

namespace Floor

theorem Inside.refl (floor : Floor) : floor.Inside floor := ⟨.refl floor, rfl⟩

theorem Inside.trans {a b c : Floor} (h : a.Inside b) (h' : b.Inside c) : a.Inside c :=
  ⟨h.toKept.trans h'.toKept, h'.gate.trans h.gate⟩

theorem inside_setLedger (floor : Floor) (ledger : Ledger) :
    floor.Inside (floor.setLedger ledger) := by
  refine ⟨floor.kept_setLedger ledger, ?_⟩
  cases h : floor.own <;> simp [setLedger, h]

theorem inside_stamp (floor : Floor) : floor.Inside floor.stamp.2 := ⟨floor.kept_stamp, rfl⟩

theorem inside_notice (floor : Floor) (notice : Notice) : floor.Inside (floor.notice notice) :=
  ⟨floor.kept_notice notice, rfl⟩

theorem inside_measure (floor : Floor) (measurements : List Measurement) :
    floor.Inside (floor.measure measurements) := ⟨floor.kept_measure measurements, rfl⟩

theorem inside_withWorld (floor : Floor) (world : World) : floor.Inside { floor with world } :=
  ⟨floor.kept_withWorld world, rfl⟩

end Floor

namespace Member

section Inside

variable (scope : Scope) (floor : Floor) (member : Member σ)

theorem recordFailure_inside (draft : Draft) (message : String) :
    floor.Inside (recordFailure scope floor draft message) := by
  unfold recordFailure
  simp only
  split
  · exact floor.inside_stamp.trans (Floor.inside_setLedger _ _)
  · exact floor.inside_stamp.trans (Floor.inside_notice _ _)

theorem fail_inside (draft : Option Draft) (events : List Event) (error : TaskError) :
    floor.Inside (fail scope floor member draft events error).1 := by
  unfold fail
  cases draft with
  | none => exact floor.inside_notice _
  | some draft => exact (floor.inside_notice _).trans (recordFailure_inside ..)

theorem succeed_inside (draft : Option Draft) (events : List Event) :
    floor.Inside (succeed scope floor member draft events).1 := by
  unfold succeed
  cases draft with
  | none => exact .refl floor
  | some draft =>
    simp only
    split
    · exact floor.inside_stamp.trans
        ((Floor.inside_setLedger _ _).trans (Floor.inside_measure _ _))
    · exact floor.inside_stamp.trans (fail_inside ..)
    · exact floor.inside_stamp.trans (fail_inside ..)

theorem settled_fail (draft : Option Draft) (events : List Event) (error : TaskError) :
    (fail scope floor member draft events error).2.phase.settlement?.isSome := rfl

theorem settled_succeed (draft : Option Draft) (events : List Event) :
    (succeed scope floor member draft events).2.phase.settlement?.isSome := by
  unfold succeed
  split
  · rfl
  · simp only
    split <;> rfl

end Inside

/-! ## Stretches -/

/-- What a stretch in a session of its own makes of a member. -/
structure Works (draft : Draft) (context : Context) (events : List Event) (floor : Floor)
    (member : Member σ) (advance : Advance σ) (after : Floor × Member σ) : Prop where
  inside : floor.Inside after.1
  definition : after.2.definition = member.definition
  process : after.2.process = advance.process
  phase : after.2.phase =
      .running (.own draft (context.withState advance.state)) (events ++ advance.events) ∨
    after.2.phase.settlement?.isSome
  pending : after.2.phase.settlement? = none → advance.outcome = .pending

/-- How a member of a run with output keys begins. -/
inductive Begins (scope : Scope) (index : Nat) (poll : Poll σ) (floor : Floor)
    (member : Member σ) (after : Floor × Member σ) : Prop
  /-- The outputs cannot be read, or the instruction cannot be filled in, and the member fails. -/
  | refused (error : TaskError)
      (hreason : (∃ refusal, floor.ledger.outputsOf scope.context.session.id = .error refusal ∧
          error = .commit refusal) ∨
        ∃ outputs, floor.ledger.outputsOf scope.context.session.id = .ok outputs ∧
          expand member.definition (floor.state.overlay outputs) = .error error)
      (hinside : floor.Inside after.1)
      (hafter : after.2 = ⟨member.definition, .settled ⟨[.failure scope.plan.name
        member.definition.name error.message], some error.message⟩, member.process⟩)
  /-- The member is given a stretch in a session that holds the values of the
  run's session and the outputs. -/
  | given (outputs : KeyMap String) (instruction : Option String) (draft : Draft)
      (context : Context) (world : World)
      (houtputs : floor.ledger.outputsOf scope.context.session.id = .ok outputs)
      (hexpand : expand member.definition (floor.state.overlay outputs) = .ok instruction)
      (hcontext : context = (scope.context.child (Context.childId scope.context.session.id index)
        (floor.state.overlay outputs)).withInstruction instruction)
      (hworks : Works draft context [] floor member (poll (scope.turn.below index) context world)
        after)

/-! ## Stretches in a session of one's own -/

section Works

variable (scope : Scope) (index : Nat) (poll : Poll σ) (floor : Floor) (member : Member σ)

theorem proceed_works (draft : Draft) (context : Context) (events : List Event) :
    Works draft context events floor member (poll (scope.turn.below index) context floor.world)
      (proceed scope index poll floor member (.own draft context) events) := by
  simp only [proceed]
  generalize poll (scope.turn.below index) context floor.world = advance
  have hworld := floor.inside_withWorld advance.world
  split
  next hpending => exact ⟨hworld, rfl, rfl, .inl rfl, fun _ => hpending⟩
  next =>
    have hsettled := settled_succeed scope { floor with world := advance.world }
      { member with process := advance.process } (some draft) (events ++ advance.events)
    exact ⟨hworld.trans (succeed_inside ..), definition_succeed .., process_succeed ..,
      .inr hsettled, fun hnone => by rw [hnone] at hsettled; cases hsettled⟩
  next => exact ⟨hworld.trans (fail_inside ..), rfl, rfl, .inr rfl, fun hnone => by cases hnone⟩

theorem Works.of_inside {draft : Draft} {context : Context} {events : List Event}
    {entered : Floor} {advance : Advance σ} {after : Floor × Member σ}
    (h : Works draft context events entered member advance after)
    (hinside : floor.Inside entered) : Works draft context events floor member advance after :=
  { h with inside := hinside.trans h.inside }

theorem start_begins (hkeyed : floor.keyed = true) :
    Begins scope index poll floor member (start scope index poll floor member) := by
  have hstamp := floor.inside_stamp
  simp only [start, hkeyed, if_true, Floor.ledger_stamp]
  split
  next refusal houtputs =>
    exact .refused _ (.inl ⟨refusal, houtputs, rfl⟩) (hstamp.trans (fail_inside ..)) rfl
  next outputs houtputs =>
    split
    next error hexpand =>
      exact .refused error (.inr ⟨outputs, houtputs, hexpand⟩) (hstamp.trans (fail_inside ..)) rfl
    next instruction hexpand =>
      exact .given outputs instruction _ _ _ houtputs hexpand rfl
        ((proceed_works ..).of_inside floor member hstamp)

end Works

end Member

/-! ## Seclusion -/

/-- A task has a session of its own, which was `start` at first. Each of these
stretches found there what the one before had left; now it is `current`. -/
inductive Confined (start : Context) : List (Exchange σ) → Context → Prop
  | start : Confined start [] start
  | next {past : List (Exchange σ)} {current : Context} (h : Confined start past current)
      (exchange : Exchange σ) (hcontext : exchange.context = current) :
    Confined start (past ++ [exchange]) (current.withState exchange.advance.state)

theorem Confined.poll {start current : Context} {traced : Traced σ}
    (h : Confined start traced.past current) (behave : σ → Poll σ) (turn : Turn) (world : World) :
    Confined start (traced.poll behave turn current world).process.past
      (current.withState (traced.poll behave turn current world).state) :=
  h.next ⟨turn, current, world, behave traced.task turn current world⟩ rfl

/-- The first stretch found the session as it was at first. -/
theorem Confined.context_of_head? {start current : Context} {past : List (Exchange σ)}
    (h : Confined start past current) :
    (past = [] → current = start) ∧ ∀ first, past.head? = some first → first.context = start := by
  induction h with
  | start => exact ⟨fun _ => rfl, fun _ h => by cases h⟩
  | @next past current _ exchange hcontext ih =>
    refine ⟨fun h => by simp at h, fun first hfirst => ?_⟩
    cases past with
    | nil =>
      obtain rfl : exchange = first := by simpa using hfirst
      exact hcontext.trans (ih.1 rfl)
    | cons => exact ih.2 first (by simpa using hfirst)

namespace Member

/-- A member that works, if at all, in a session of its own, and has done so from the start. -/
def Secluded (member : Member (Traced σ)) : Prop :=
  match member.phase with
  | .idle | .waiting => member.process.past = []
  | .running access _ => ∃ draft start current, access = .own draft current ∧
    Confined start member.process.past current
  | .settled _ => ∃ start current, Confined start member.process.past current

/-- Before its start, a secluded member has done nothing. -/
theorem Secluded.fresh {member : Member (Traced σ)} (h : member.Secluded)
    (hphase : member.phase = .idle ∨ member.phase = .waiting) : member.process.past = [] := by
  rcases hphase with hphase | hphase <;> simpa only [Secluded, hphase] using h

/-- A secluded member that works has a session of its own. -/
theorem Secluded.confined {member : Member (Traced σ)} (h : member.Secluded) {access : Access}
    {events : List Event} (hphase : member.phase = .running access events) :
    ∃ draft start current, access = .own draft current ∧
      Confined start member.process.past current := by
  simpa only [Secluded, hphase] using h

/-- A stretch in a session of its own leaves a member secluded. -/
theorem Works.secluded {draft : Draft} {start context : Context} {events : List Event}
    {floor : Floor} {member : Member (Traced σ)} {behave : σ → Poll σ} {turn : Turn} {world : World}
    {after : Floor × Member (Traced σ)} (h : Works draft context events floor member
      (Traced.poll behave member.process turn context world) after)
    (hconfined : Confined start member.process.past context) : after.2.Secluded := by
  have hnext := hconfined.poll behave turn world
  rw [← h.process] at hnext
  unfold Secluded
  rcases h.phase with hphase | hsettled
  · rw [hphase]
    exact ⟨draft, start, _, rfl, hnext⟩
  · obtain ⟨settlement, hsettled⟩ := Option.isSome_iff_exists.1 hsettled
    rw [Phase.settlement?_eq_some.1 hsettled]
    exact ⟨start, _, hnext⟩

/-- A visit keeps a member secluded, and the values of the run's session. -/
theorem Secluded.visited {scope : Scope} {index : Nat} {floor : Floor} {member : Member (Traced σ)}
    {behave : σ → Poll σ} {after : Floor × Member (Traced σ)} (h : member.Secluded)
    (hkeyed : floor.keyed = true)
    (hvisited : Visited scope index (Traced.poll behave member.process) floor member after) :
    floor.Kept after.1 ∧ after.2.Secluded := by
  cases hvisited with
  | stays => exact ⟨.refl floor, h⟩
  | waits left hphase hleft =>
    rw [Secluded, hphase] at h
    exact ⟨hleft.toKept, h⟩
  | starts entered left hphase hentered hleft =>
    have hfresh := h.fresh hphase
    have hbegins := start_begins scope index (Traced.poll behave member.process) entered member
      (hentered.keyed.trans hkeyed)
    cases hbegins with
    | refused error _ hinside hafter =>
      refine ⟨hentered.toKept.trans (hinside.toKept.trans hleft.toKept), ?_⟩
      simp only [hafter, Secluded, hfresh]
      exact ⟨scope.context, _, .start⟩
    | given outputs instruction draft context world _ _ _ hworks =>
      refine ⟨hentered.toKept.trans (hworks.inside.toKept.trans hleft.toKept), ?_⟩
      have hconfined : Confined context member.process.past context := hfresh ▸ .start
      exact hworks.secluded hconfined
  | proceeds access events left hphase hleft =>
    obtain ⟨draft, start, current, rfl, hconfined⟩ := h.confined hphase
    have hworks := proceed_works scope index (Traced.poll behave member.process) floor member draft
      current events
    exact ⟨hworks.inside.toKept.trans hleft.toKept, hworks.secluded hconfined⟩

end Member

/-! ## What nobody else sees -/

/-- A task that leaves these values in its session, and else does the same. -/
def Poll.leaving (values : KeyMap String) (poll : Poll σ) : Poll σ := fun turn context world =>
  { poll turn context world with state := values }

namespace Member

/-- A member with these values in its session, if it works in one of its own. -/
def withSession (values : KeyMap String) (member : Member σ) : Member σ :=
  match member.phase with
  | .running (.own draft context) events =>
    { member with phase := .running (.own draft (context.withState values)) events }
  | _ => member

theorem withSession_of_settled (values : KeyMap String) {member : Member σ}
    (h : member.phase.settlement?.isSome) : member.withSession values = member := by
  obtain ⟨settlement, h⟩ := Option.isSome_iff_exists.1 h
  rw [withSession, Phase.settlement?_eq_some.1 h]

theorem map_withSession_of_settled (values : KeyMap String) {after : Floor × Member σ}
    (h : after.2.phase.settlement?.isSome) : after.map id (withSession values) = after := by
  rw [Prod.map, withSession_of_settled values h]
  rfl

section Leaving

variable (values : KeyMap String) (scope : Scope) (index : Nat) (poll : Poll σ) (floor : Floor)
  (member : Member σ)

theorem proceed_leaving (draft : Draft) (context : Context) (events : List Event) :
    proceed scope index (poll.leaving values) floor member (.own draft context) events =
      (proceed scope index poll floor member (.own draft context) events).map id
        (withSession values) := by
  simp only [proceed, Poll.leaving]
  generalize poll (scope.turn.below index) context floor.world = advance
  cases advance.outcome with
  | pending => rfl
  | ended => exact (map_withSession_of_settled values (settled_succeed ..)).symm
  | failed error => exact (map_withSession_of_settled values (settled_fail ..)).symm

theorem start_leaving (hkeyed : floor.keyed = true) :
    start scope index (poll.leaving values) floor member =
      (start scope index poll floor member).map id (withSession values) := by
  simp only [start, hkeyed, if_true]
  split
  · exact (map_withSession_of_settled values (settled_fail ..)).symm
  · split
    · exact (map_withSession_of_settled values (settled_fail ..)).symm
    · exact proceed_leaving values scope index poll _ member _ _ _

theorem freeSlot_withSession (after : Floor × Member σ) :
    freeSlot scope index (after.map id (withSession values)) =
      (freeSlot scope index after).map id (withSession values) := by
  obtain ⟨floor, definition, phase, process⟩ := after
  rcases phase with _ | _ | ⟨_ | _, _⟩ | _ <;> rfl

/-- Whatever a task leaves in a session of its own, its visit leaves the same
to everybody else: the floor and, but for that session, the member. -/
theorem visitBy_leaving (hkeyed : floor.keyed = true)
    (hown : ∀ access events, member.phase = .running access events →
      ∃ draft context, access = .own draft context) :
    visitBy scope index (poll.leaving values) floor member =
      (visitBy scope index poll floor member).map id (withSession values) := by
  unfold visitBy visit visitInLine
  cases hphase : member.phase with
  | idle =>
    simp only
    split
    · split
      · rw [← freeSlot_withSession]
        exact congrArg _ (start_leaving values scope index poll _ member hkeyed)
      · rfl
    · exact start_leaving values scope index poll _ member hkeyed
  | waiting =>
    have hstays : (floor, member) = (floor, member).map id (withSession values) := by
      simp [withSession, hphase]
    simp only
    split
    · split
      · split
        · rw [← freeSlot_withSession]
          exact congrArg _ (start_leaving values scope index poll _ member hkeyed)
        · exact hstays
      · exact hstays
    · exact start_leaving values scope index poll _ member hkeyed
  | running access events =>
    obtain ⟨draft, context, rfl⟩ := hown access events hphase
    simp only
    rw [proceed_leaving]
    split
    · rw [freeSlot_withSession]
    · rfl
  | settled settlement =>
    have hstays : (floor, member) = (floor, member).map id (withSession values) := by
      simp [withSession, hphase]
    simp only
    split <;> exact hstays

end Leaving

end Member

end Coordination
