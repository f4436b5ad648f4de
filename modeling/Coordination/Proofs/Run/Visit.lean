import Coordination.Proofs.Gate.Balance
import Coordination.Proofs.Ledger.Entry
import Coordination.Proofs.Run.Log

/-!
# What a visit does to a record

In a run with output keys the record of the run changes only when a member
settles: a success is committed with all that the task yielded, and a failure
recorded, in the very step in which the member settles (`Member.Moved`).

* `Member.visitBy_visited`, `Member.visit_atGate`: all that a visit can be, in
  either order and at the gate of a parallel run;
* `Member.Visited.movesTo`: all that it does to the record, to its member and
  to the values of the session, provided that the member's task leaves the
  record alone.
-/

namespace Coordination

variable {σ : Type}

/-! ## Floors -/

/-- What visits keep of a floor: the values of the session, whether outputs
are published, and whose ledger the record is in. -/
structure Floor.Kept (before after : Floor) : Prop where
  state : after.state = before.state
  keyed : after.keyed = before.keyed
  own : after.own.isSome = before.own.isSome

/-- What is done around the stretch of a member, at the gate and in the journal:
visits keep more of the floor than that, namely the ledger. -/
structure Floor.Around (before after : Floor) : Prop extends before.Kept after where
  ledger : after.ledger = before.ledger

namespace Floor

theorem Kept.refl (floor : Floor) : floor.Kept floor := ⟨rfl, rfl, rfl⟩

theorem Kept.trans {a b c : Floor} (h : a.Kept b) (h' : b.Kept c) : a.Kept c :=
  ⟨h'.state.trans h.state, h'.keyed.trans h.keyed, h'.own.trans h.own⟩

theorem Kept.own_eq_none {before after : Floor} (h : before.Kept after) (hown : after.own = none) :
    before.own = none := by
  rw [← Option.not_isSome_iff_eq_none, ← h.own, hown]
  simp

@[simp] theorem ledger_setLedger (floor : Floor) (ledger : Ledger) :
    (floor.setLedger ledger).ledger = ledger := by
  cases h : floor.own <;> simp [Floor.ledger, setLedger, h]

theorem kept_setLedger (floor : Floor) (ledger : Ledger) : floor.Kept (floor.setLedger ledger) := by
  cases h : floor.own <;> refine ⟨?_, ?_, ?_⟩ <;> simp [setLedger, h]

theorem kept_stamp (floor : Floor) : floor.Kept floor.stamp.2 := ⟨rfl, rfl, rfl⟩

theorem kept_notice (floor : Floor) (notice : Notice) : floor.Kept (floor.notice notice) :=
  ⟨rfl, rfl, rfl⟩

theorem kept_measure (floor : Floor) (measurements : List Measurement) :
    floor.Kept (floor.measure measurements) := ⟨rfl, rfl, rfl⟩

theorem kept_withWorld (floor : Floor) (world : World) : floor.Kept { floor with world } :=
  ⟨rfl, rfl, rfl⟩

theorem kept_withGate (floor : Floor) (gate : Gate Nat) : floor.Kept { floor with gate } :=
  ⟨rfl, rfl, rfl⟩

@[simp] theorem ledger_stamp (floor : Floor) : floor.stamp.2.ledger = floor.ledger := rfl

@[simp] theorem ledger_measure (floor : Floor) (measurements : List Measurement) :
    (floor.measure measurements).ledger = floor.ledger := rfl

theorem Around.refl (floor : Floor) : floor.Around floor := ⟨.refl floor, rfl⟩

theorem around_measure (floor : Floor) (gate : Gate Nat) (measurements : List Measurement) :
    floor.Around ({ floor with gate }.measure measurements) := ⟨⟨rfl, rfl, rfl⟩, rfl⟩

theorem around_notice (floor : Floor) (notice : Notice) : floor.Around (floor.notice notice) :=
  ⟨floor.kept_notice notice, rfl⟩

/-- A task that spares the record of an id, or cannot reach the ledger of the
run, leaves the record as it is. -/
theorem get?_ledger_withWorld (floor : Floor) {world : World} {id : String}
    (h : floor.own = none → world.ledger.get? id = floor.world.ledger.get? id) :
    ({ floor with world } : Floor).ledger.get? id = floor.ledger.get? id := by
  cases hown : floor.own with
  | none => simpa [Floor.ledger, hown] using h hown
  | some ledger => simp [Floor.ledger, hown]

end Floor

/-! ## Members -/

theorem Phase.settlement?_eq_some {phase : Phase} {settlement : Settlement} :
    phase.settlement? = some settlement ↔ phase = .settled settlement := by
  cases phase <;> simp [settlement?]

/-- Whether a draft is the one of a member. -/
structure Draft.Of (plan : Plan) (id : String) (index : Nat) (definition : Definition)
    (draft : Draft) : Prop where
  taskName : draft.taskName = definition.name
  taskNamespace : draft.taskNamespace = definition.namespaceOr plan.namespace
  sessionId : draft.sessionId = Context.childId id index
  outputKey : draft.outputKey = definition.outputKey
  index : draft.index = index

namespace Member

/-- What a visit does with the task of a member: it gives it one stretch, or none. -/
def Polled (poll : Poll σ) (before after : Member σ) : Prop :=
  after.definition = before.definition ∧ (after.process = before.process ∨
    ∃ turn context world, after.process = (poll turn context world).process)

section Polled

variable (scope : Scope) (index : Nat) (poll : Poll σ) (floor : Floor) (member : Member σ)

@[simp] theorem process_fail (draft : Option Draft) (events : List Event) (error : TaskError) :
    (fail scope floor member draft events error).2.process = member.process := rfl

@[simp] theorem definition_fail (draft : Option Draft) (events : List Event) (error : TaskError) :
    (fail scope floor member draft events error).2.definition = member.definition := rfl

@[simp] theorem process_succeed (draft : Option Draft) (events : List Event) :
    (succeed scope floor member draft events).2.process = member.process := by
  unfold succeed
  split
  · rfl
  · simp only
    split <;> rfl

@[simp] theorem definition_succeed (draft : Option Draft) (events : List Event) :
    (succeed scope floor member draft events).2.definition = member.definition := by
  unfold succeed
  split
  · rfl
  · simp only
    split <;> rfl

theorem proceed_polled (access : Access) (events : List Event) :
    Polled poll member (proceed scope index poll floor member access events).2 := by
  unfold proceed
  cases access with
  | own draft context =>
    refine ⟨?_, .inr ⟨scope.turn.below index, context, floor.world, ?_⟩⟩ <;>
    · simp only
      split <;> simp
  | shared instruction =>
    refine ⟨?_, .inr ⟨scope.turn.below index,
      (scope.context.withState floor.state).withInstruction instruction, floor.world, ?_⟩⟩ <;>
    · simp only
      split <;> simp

theorem start_polled : Polled poll member (start scope index poll floor member).2 := by
  unfold start
  split
  · simp only
    split
    · exact ⟨rfl, .inl rfl⟩
    · split
      · exact ⟨rfl, .inl rfl⟩
      · exact proceed_polled ..
  · split
    · exact ⟨rfl, .inl rfl⟩
    · exact proceed_polled ..

@[simp] theorem snd_freeSlot (after : Floor × Member σ) :
    (freeSlot scope index after).2 = after.2 := by
  unfold freeSlot
  split <;> rfl

end Polled

/-- A member of a run with output keys stands as its task has behaved so far. -/
def Coherent (plan : Plan) (id : String) (index : Nat) (member : Member (Traced σ)) : Prop :=
  match member.phase with
  | .idle | .waiting => member.process.past = []
  | .running access events =>
    (∃ draft context, access = .own draft context ∧
      draft.Of plan id index member.definition) ∧ events = member.process.events
  | .settled ⟨events, none⟩ => events = member.process.events ∧ member.process.Ended
  | .settled ⟨events, some message⟩ =>
    events = member.process.events ++ [.failure plan.name member.definition.name message]

/-- What a visit does to a member and to the record of its run. -/
inductive Moved (plan : Plan) (id : String) (index : Nat) (member : Member (Traced σ))
    (record : Record) : Member (Traced σ) → Record → Prop
  /-- The member does not settle, and the record stays as it is. -/
  | onward {after : Member (Traced σ)} (hdefinition : after.definition = member.definition)
      (hsettlement : after.phase.settlement? = member.phase.settlement?)
      (hcoherent : after.Coherent plan id index) : Moved plan id index member record after record
  /-- The member succeeds, and all that its task yielded is committed. -/
  | succeeded {after : Member (Traced σ)} {now : Timestamp} {draft : Draft}
      (hunsettled : member.phase.settlement? = none)
      (hdefinition : after.definition = member.definition)
      (hdraft : draft.Of plan id index member.definition)
      (hphase : after.phase = .settled ⟨after.process.events, none⟩)
      (hended : after.process.Ended) :
    Moved plan id index member record after (record.commit now draft (textOf after.process.events))
  /-- The member fails, and the failure is recorded. -/
  | failed {after : Member (Traced σ)} {now : Timestamp} {draft : Draft} {message : String}
      (hunsettled : member.phase.settlement? = none)
      (hdefinition : after.definition = member.definition)
      (hdraft : draft.Of plan id index member.definition)
      (hphase : after.phase = .settled ⟨after.process.events ++
        [.failure plan.name member.definition.name message], some message⟩) :
    Moved plan id index member record after
      (record.append now (Ledger.fail now draft message))

/-- What a visit leaves: the record moved on with the member, and the rest of
the floor as far as visits keep it. -/
def MovesTo (scope : Scope) (index : Nat) (floor : Floor) (member : Member (Traced σ))
    (record : Record) (after : Floor × Member (Traced σ)) : Prop :=
  ∃ record', after.1.ledger.get? scope.context.session.id = some record' ∧
    Moved scope.plan scope.context.session.id index member record after.2 record' ∧
    floor.Kept after.1

variable {scope : Scope} {index : Nat} {floor : Floor} {member : Member (Traced σ)}
  {record : Record}

theorem MovesTo.of_kept {floor' : Floor} {after : Floor × Member (Traced σ)}
    (h : MovesTo scope index floor' member record after) (hkept : floor.Kept floor') :
    MovesTo scope index floor member record after := by
  obtain ⟨record', hget, hmoved, hkept'⟩ := h
  exact ⟨record', hget, hmoved, hkept.trans hkept'⟩

/-- What is done around a stretch concerns neither the record nor the member. -/
theorem MovesTo.around {after : Floor × Member (Traced σ)} {left : Floor}
    (h : MovesTo scope index floor member record after) (hleft : after.1.Around left) :
    MovesTo scope index floor member record (left, after.2) := by
  obtain ⟨record', hget, hmoved, hkept⟩ := h
  exact ⟨record', hleft.ledger ▸ hget, hmoved, hkept.trans hleft.toKept⟩

/-- Recording a failure appends it to the record. -/
theorem recordFailure_of_get? (floor : Floor)
    (hrecord : floor.ledger.get? scope.context.session.id = some record) (draft : Draft)
    (message : String) :
    ∃ now, (recordFailure scope floor draft message).ledger.get? scope.context.session.id =
        some (record.append now (Ledger.fail now draft message)) ∧
      floor.Kept (recordFailure scope floor draft message) := by
  have hstamped : floor.stamp.2.ledger.get? scope.context.session.id = some record := hrecord
  refine ⟨floor.stamp.1, ?_, ?_⟩
  · simp only [recordFailure, Ledger.recordFailure_of_get? hstamped, Floor.ledger_setLedger]
    simp
  · simp only [recordFailure, Ledger.recordFailure_of_get? hstamped]
    exact floor.kept_stamp.trans (Floor.kept_setLedger _ _)

/-- A failure with a draft is recorded. -/
theorem fail_movesTo (current : Member (Traced σ))
    (hrecord : floor.ledger.get? scope.context.session.id = some record)
    {draft : Draft} (hdraft : draft.Of scope.plan scope.context.session.id index member.definition)
    (hunsettled : member.phase.settlement? = none)
    (hdefinition : current.definition = member.definition) (error : TaskError) :
    MovesTo scope index floor member record
      (fail scope floor current (some draft) current.process.events error) := by
  obtain ⟨now, hget, hkept⟩ :=
    recordFailure_of_get? (floor.notice (.subTaskFailed error.message)) hrecord draft error.message
  refine ⟨_, hget, .failed hunsettled hdefinition hdraft ?_, (floor.kept_notice _).trans hkept⟩
  rw [← hdefinition]
  rfl

/-- A good end is committed, or recorded as a failure if the ledger refuses the output. -/
theorem succeed_movesTo (current : Member (Traced σ))
    (hrecord : floor.ledger.get? scope.context.session.id = some record)
    {draft : Draft} (hdraft : draft.Of scope.plan scope.context.session.id index member.definition)
    (hunsettled : member.phase.settlement? = none)
    (hdefinition : current.definition = member.definition) (hended : current.process.Ended) :
    MovesTo scope index floor member record
      (succeed scope floor current (some draft) current.process.events) := by
  have hstamped : floor.stamp.2.ledger.get? scope.context.session.id = some record := hrecord
  simp only [succeed, Ledger.find_of_get? hstamped]
  by_cases hfits : Ledger.Fits floor.stamp.2.ledger.maxValueBytes draft
      (textOf current.process.events)
  · simp only [Ledger.commit_of_fits hstamped hfits]
    refine ⟨record.commit floor.stamp.1 draft (textOf current.process.events), by simp,
      .succeeded hunsettled hdefinition hdraft rfl hended, ?_⟩
    exact floor.kept_stamp.trans ((Floor.kept_setLedger _ _).trans (Floor.kept_measure ..))
  · obtain ⟨key, -, hcommit⟩ := Ledger.commit_of_not_fits floor.stamp.1 hstamped hfits
    simp only [hcommit]
    exact (fail_movesTo current hstamped hdraft hunsettled hdefinition _).of_kept floor.kept_stamp

/-- A stretch of a member that works in a session of its own. -/
theorem proceed_movesTo (behave : σ → Poll σ)
    (hrecord : floor.ledger.get? scope.context.session.id = some record)
    {draft : Draft} (hdraft : draft.Of scope.plan scope.context.session.id index member.definition)
    (context : Context) (hunsettled : member.phase.settlement? = none)
    (hspares : floor.own = none →
      (proceed scope index (Traced.poll behave member.process) floor member (.own draft context)
        member.process.events).2.process.Spares scope.context.session.id) :
    MovesTo scope index floor member record
      (proceed scope index (Traced.poll behave member.process) floor member (.own draft context)
        member.process.events) := by
  have hevents := member.process.events_poll behave (scope.turn.below index) context floor.world
  have hended := member.process.ended_poll behave (scope.turn.below index) context floor.world
  have hspares' := member.process.spares_poll behave (scope.turn.below index) context floor.world
    scope.context.session.id
  -- From here on only what the trace says of the stretch matters, not what was done in it.
  simp only [proceed] at hspares ⊢
  generalize Traced.poll behave member.process (scope.turn.below index) context
    floor.world = advance at hevents hended hspares' hspares ⊢
  rw [← hevents] at hspares ⊢
  cases houtcome : advance.outcome with
  | pending =>
    simp only [houtcome] at hspares ⊢
    have hget := floor.get?_ledger_withWorld fun hown => hspares' (hspares hown)
    refine ⟨record, hget.trans hrecord, .onward rfl hunsettled.symm ?_, floor.kept_withWorld _⟩
    exact ⟨⟨draft, _, rfl, hdraft⟩, rfl⟩
  | ended =>
    simp only [houtcome] at hspares ⊢
    have hget := floor.get?_ledger_withWorld fun hown => hspares' (by simpa using hspares hown)
    have := succeed_movesTo { member with process := advance.process }
      (hget.trans hrecord) hdraft hunsettled rfl (hended houtcome)
    exact this.of_kept (floor.kept_withWorld _)
  | failed error =>
    simp only [houtcome] at hspares ⊢
    have hget := floor.get?_ledger_withWorld fun hown => hspares' (by simpa using hspares hown)
    have := fail_movesTo { member with process := advance.process }
      (hget.trans hrecord) hdraft hunsettled rfl error
    exact this.of_kept (floor.kept_withWorld _)

theorem draft_of (scope : Scope) (index : Nat) (definition : Definition) (now : Timestamp) :
    (draft scope index definition now).Of scope.plan scope.context.session.id index definition :=
  ⟨rfl, rfl, rfl, rfl, rfl⟩

/-- The start of a member with its first stretch. -/
theorem start_movesTo (behave : σ → Poll σ) (hkeyed : floor.keyed = true)
    (hrecord : floor.ledger.get? scope.context.session.id = some record)
    (hunsettled : member.phase.settlement? = none) (hfresh : member.process.past = [])
    (hspares : floor.own = none →
      (start scope index (Traced.poll behave member.process) floor member).2.process.Spares
        scope.context.session.id) :
    MovesTo scope index floor member record
      (start scope index (Traced.poll behave member.process) floor member) := by
  have hevents : member.process.events = [] := by simp [Traced.events, hfresh]
  have hstamped : floor.stamp.2.ledger.get? scope.context.session.id = some record := hrecord
  have hdraft := draft_of scope index member.definition floor.stamp.1
  have houtputs : floor.stamp.2.ledger.outputsOf scope.context.session.id = .ok record.outputs :=
    Ledger.outputsOf_of_get? hstamped
  simp only [start, hkeyed, if_true, houtputs] at hspares ⊢
  refine MovesTo.of_kept ?_ floor.kept_stamp
  cases hexpand : expand member.definition (floor.stamp.2.state.overlay record.outputs) with
  | error error =>
    have := fail_movesTo member hstamped hdraft hunsettled rfl error
    rwa [hevents] at this
  | ok instruction =>
    simp only [hexpand] at hspares
    rw [← hevents] at hspares ⊢
    exact proceed_movesTo behave hstamped hdraft _ hunsettled hspares

/-! ## Visits -/

/-- All that a visit can be. -/
inductive Visited (scope : Scope) (index : Nat) (poll : Poll σ) (floor : Floor)
    (member : Member σ) : Floor × Member σ → Prop
  | stays (hphase : ∀ access events, member.phase ≠ .running access events) :
    Visited scope index poll floor member (floor, member)
  | waits (left : Floor) (hphase : member.phase = .idle) (hleft : floor.Around left) :
    Visited scope index poll floor member (left, { member with phase := .waiting })
  | starts (entered left : Floor) (hphase : member.phase = .idle ∨ member.phase = .waiting)
      (hentered : floor.Around entered)
      (hleft : (start scope index poll entered member).1.Around left) :
    Visited scope index poll floor member (left, (start scope index poll entered member).2)
  | proceeds (access : Access) (events : List Event) (left : Floor)
      (hphase : member.phase = .running access events)
      (hleft : (proceed scope index poll floor member access events).1.Around left) :
    Visited scope index poll floor member
      (left, (proceed scope index poll floor member access events).2)

/-- All that a visit in a parallel run can be, and what it does at the gate. -/
inductive AtGate (scope : Scope) (index : Nat) (poll : Poll σ) (floor : Floor)
    (member : Member σ) : Floor × Member σ → Prop
  | stays (hphase : ∀ access events, member.phase ≠ .running access events) :
    AtGate scope index poll floor member (floor, member)
  | waits (gate : Gate Nat) (measurements : List Measurement) (hphase : member.phase = .idle)
      (hgate : floor.gate.enter index = (false, gate)) :
    AtGate scope index poll floor member
      ({ floor with gate }.measure measurements, { member with phase := .waiting })
  | starts (gate : Gate Nat) (measurements : List Measurement)
      (hphase : member.phase = .idle ∨ member.phase = .waiting)
      (hgate : floor.gate.Admits index gate) :
    AtGate scope index poll floor member (freeSlot scope index
      (start scope index poll ({ floor with gate }.measure measurements) member))
  | proceeds (access : Access) (events : List Event)
      (hphase : member.phase = .running access events) :
    AtGate scope index poll floor member
      (freeSlot scope index (proceed scope index poll floor member access events))

section Visited

variable (scope : Scope) (index : Nat) (poll : Poll σ) (floor : Floor) (member : Member σ)

theorem visit_atGate : AtGate scope index poll floor member
    (visit scope index poll floor member) := by
  unfold visit
  cases hphase : member.phase with
  | idle =>
    simp only
    split
    next henter => exact .starts _ _ (.inl hphase) (.inl henter)
    next henter => exact .waits _ _ hphase henter
  | waiting =>
    have hstays : AtGate scope index poll floor member (floor, member) :=
      .stays fun access events => by simp [hphase]
    simp only
    split
    · split
      next hclaim => exact .starts _ _ (.inr hphase) (.inr hclaim)
      next => exact hstays
    · exact hstays
  | running access events => exact .proceeds access events hphase
  | settled settlement => exact .stays fun access events => by simp [hphase]

theorem around_freeSlot (after : Floor × Member σ) :
    after.1.Around (freeSlot scope index after).1 := by
  unfold freeSlot
  split
  · exact Floor.around_measure ..
  · exact .refl _

theorem AtGate.visited {scope : Scope} {index : Nat} {poll : Poll σ} {floor : Floor}
    {member : Member σ} {after : Floor × Member σ}
    (h : AtGate scope index poll floor member after) :
    Visited scope index poll floor member after := by
  cases h with
  | stays hphase => exact .stays hphase
  | waits gate measurements hphase => exact .waits _ hphase (floor.around_measure ..)
  | starts gate measurements hphase =>
    rw [← Prod.eta (freeSlot _ _ _), snd_freeSlot]
    exact .starts _ _ hphase (floor.around_measure ..) (around_freeSlot ..)
  | proceeds access events hphase =>
    rw [← Prod.eta (freeSlot _ _ _), snd_freeSlot]
    exact .proceeds access events _ hphase (around_freeSlot ..)

theorem visitInLine_visited : Visited scope index poll floor member
    (visitInLine scope index poll floor member) := by
  have hstarts : ∀ notice, member.phase = .idle ∨ member.phase = .waiting →
      Visited scope index poll floor member (start scope index poll (floor.notice notice) member) :=
    fun notice hphase => .starts _ _ hphase (floor.around_notice notice) (.refl _)
  unfold visitInLine
  cases hphase : member.phase with
  | idle => exact hstarts _ (.inl hphase)
  | waiting => exact hstarts _ (.inr hphase)
  | running access events => exact .proceeds access events _ hphase (.refl _)
  | settled settlement => exact .stays fun access events => by simp [hphase]

/-- All that a visit can be, in either order. -/
theorem visitBy_visited : Visited scope index poll floor member
    (visitBy scope index poll floor member) := by
  unfold visitBy
  split
  · exact (visit_atGate ..).visited
  · exact visitInLine_visited ..

/-- A visit gives the task of its member one stretch, or none. -/
theorem Visited.polled {scope : Scope} {index : Nat} {poll : Poll σ} {floor : Floor}
    {member : Member σ} {after : Floor × Member σ}
    (h : Visited scope index poll floor member after) : Polled poll member after.2 := by
  cases h with
  | stays | waits => exact ⟨rfl, .inl rfl⟩
  | starts => exact start_polled ..
  | proceeds => exact proceed_polled ..

end Visited

/-- What a visit does in a run with output keys, if the member's task leaves
the record alone or cannot reach the ledger. -/
theorem Visited.movesTo {scope : Scope} {index : Nat} {floor : Floor} {member : Member (Traced σ)}
    {record : Record} {behave : σ → Poll σ} {after : Floor × Member (Traced σ)}
    (h : Visited scope index (Traced.poll behave member.process) floor member after)
    (hkeyed : floor.keyed = true)
    (hrecord : floor.ledger.get? scope.context.session.id = some record)
    (hcoherent : member.Coherent scope.plan scope.context.session.id index)
    (hspares : floor.own = none → after.2.process.Spares scope.context.session.id) :
    MovesTo scope index floor member record after := by
  cases h with
  | stays => exact ⟨record, hrecord, .onward rfl rfl hcoherent, .refl floor⟩
  | waits left hphase hleft =>
    have hfresh : member.process.past = [] := by simpa only [Coherent, hphase] using hcoherent
    refine ⟨record, hleft.ledger ▸ hrecord, .onward rfl ?_ hfresh, hleft.toKept⟩
    rw [hphase]
    rfl
  | starts entered left hphase hentered hleft =>
    have hfresh : member.process.past = [] := by
      rcases hphase with hphase | hphase <;> simpa only [Coherent, hphase] using hcoherent
    have hunsettled : member.phase.settlement? = none := by
      rcases hphase with hphase | hphase <;> rw [hphase] <;> rfl
    have hstart := start_movesTo behave (hentered.keyed.trans hkeyed)
      (hentered.ledger ▸ hrecord) hunsettled hfresh fun hown => hspares (hentered.own_eq_none hown)
    exact (hstart.around hleft).of_kept hentered.toKept
  | proceeds access events left hphase hleft =>
    simp only [Coherent, hphase] at hcoherent
    obtain ⟨⟨draft, context, rfl, hdraft⟩, rfl⟩ := hcoherent
    have hunsettled : member.phase.settlement? = none := by rw [hphase]; rfl
    exact (proceed_movesTo behave hrecord hdraft context hunsettled hspares).around hleft

end Member

theorem Visit.Of.visited {behave : σ → Poll σ} {plan : Plan} {context : Context}
    {stretch : Stretch σ} {visit : Visit σ} (h : visit.Of behave plan context stretch) :
    Member.Visited visit.scope visit.index (behave visit.member.process) visit.floor visit.member
      visit.after :=
  h.after ▸ Member.visitBy_visited ..

theorem Visit.Of.atGate {behave : σ → Poll σ} {plan : Plan} {context : Context}
    {stretch : Stretch σ} {visit : Visit σ} (h : visit.Of behave plan context stretch)
    {workers : Nat} (horder : visit.scope.plan.order = .parallel workers) :
    Member.AtGate visit.scope visit.index (behave visit.member.process) visit.floor visit.member
      visit.after := by
  rw [h.after, Member.visitBy, horder]
  exact Member.visit_atGate ..

end Coordination
