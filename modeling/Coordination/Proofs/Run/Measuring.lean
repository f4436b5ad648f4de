import Coordination.Proofs.Run.InFlight
import Coordination.Proofs.Run.Licence
import Coordination.Proofs.Run.SharedLedger

/-!
# What a visit measures

A visit measures what is done at the gate, and the commit if the success of its member is
appended to the record (`Visit.appended`). In between the member's task is given its
stretch, and what is measured then is heard from it (`Visit.heard`). The measurements at the
gate tell how the member goes from one phase to another (`Phase.Moves`).

* `Member.succeed_measures`: a commit, and its measurements;
* `Member.proceed_metered`, `Member.start_metered`: a stretch of a member, and its start;
* `Member.visitBy_told`, `Visit.Of.told`: a whole visit, in either order.
-/

namespace Coordination

variable {σ : Type}

/-! ## Stretches -/

/-- What was measured in a stretch of a task, if the journal went on. -/
def Exchange.measured (exchange : Exchange σ) : List Measurement :=
  exchange.advance.world.journal.measurements.drop exchange.world.journal.measurements.length

/-- Whether the journal went on in a stretch of a task. -/
def Exchange.Extends (exchange : Exchange σ) : Prop :=
  exchange.world.Measures exchange.advance.world exchange.measured

theorem World.Measures.drop_eq {before after : World} {measured : List Measurement}
    (h : before.Measures after measured) :
    after.journal.measurements.drop before.journal.measurements.length = measured := by
  rw [h, List.drop_left]

theorem Exchange.extends_of_measures {exchange : Exchange σ} {measured : List Measurement}
    (h : exchange.world.Measures exchange.advance.world measured) :
    exchange.Extends ∧ exchange.measured = measured := by
  have hmeasured : exchange.measured = measured := h.drop_eq
  exact ⟨by rwa [Exchange.Extends, hmeasured], hmeasured⟩

/-! ## Commits -/

/-- The success that a member has appended to the record of its run in settling, with the
record as it is then. -/
def Member.appended (id : String) (after : Floor × Member σ) : Option (Record × Execution) :=
  if after.2.phase.settlement?.any (·.isSuccess) then do
    let record ← after.1.ledger.get? id
    return (record, ← record.executions.getLast?)
  else none

/-- Whether a sub-task works in a session of its own. -/
def Access.isOwn : Access → Bool
  | .own .. => true
  | .shared _ => false

/-- What is measured of a success that is appended to a record. -/
def committed : Option (Record × Execution) → List Measurement
  | some (record, execution) => Ledger.commitMeasurements record execution
  | none => []

/-- The shared ledger as the stretches of a task have left it. -/
def Exchange.ledgerLeft (ledger : Ledger) (exchanges : List (Exchange σ)) : Ledger :=
  (exchanges.getLast?.map (·.advance.world.ledger)).getD ledger

/-- The task as the stretches that it was given have left it. -/
def Exchange.taskLeft (task : σ) (exchanges : List (Exchange σ)) : σ :=
  (exchanges.getLast?.map (·.advance.process)).getD task

@[simp] theorem Exchange.taskLeft_singleton (task : σ) (exchange : Exchange σ) :
    taskLeft task [exchange] = exchange.advance.process := rfl

@[simp] theorem Exchange.ledgerLeft_singleton (ledger : Ledger) (exchange : Exchange σ) :
    ledgerLeft ledger [exchange] = exchange.advance.world.ledger := rfl

/-- What is so at first, and of what every stretch leaves, is so at the end. -/
theorem Exchange.ledgerLeft_of {P : Ledger → Prop} {ledger : Ledger}
    {exchanges : List (Exchange σ)} (hledger : P ledger)
    (hleft : ∀ exchange ∈ exchanges, P exchange.advance.world.ledger) :
    P (ledgerLeft ledger exchanges) := by
  rw [ledgerLeft]
  cases hlast : exchanges.getLast? with
  | none => exact hledger
  | some exchange => exact hleft exchange (List.mem_of_getLast? hlast)

theorem Exchange.taskLeft_of {P : σ → Prop} {task : σ} {exchanges : List (Exchange σ)}
    (htask : P task) (hleft : ∀ exchange ∈ exchanges, P exchange.advance.process) :
    P (taskLeft task exchanges) := by
  rw [taskLeft]
  cases hlast : exchanges.getLast? with
  | none => exact htask
  | some exchange => exact hleft exchange (List.mem_of_getLast? hlast)

/-- What a visit makes of the task of its member: which stretch it is given, if any, in which
session, and what it leaves in the shared ledger. -/
structure Member.Handled (behave : σ → Poll σ) (sessions : String → Prop) (id : String)
    (floor : Floor) (member : Member (Traced σ)) (after : Floor × Member (Traced σ))
    (exchanges : List (Exchange σ)) : Prop where
  past : after.2.process.past = member.process.past ++ exchanges
  once : exchanges.length ≤ 1
  task : after.2.process.task = Exchange.taskLeft member.process.task exchanges
  works : ∀ exchange ∈ exchanges,
    exchange.advance = behave member.process.task exchange.turn exchange.context exchange.world ∧
      exchange.world.ledger = floor.world.ledger ∧ sessions exchange.context.session.id
  ledger : Ledger.Noted id (Exchange.ledgerLeft floor.world.ledger exchanges)
    after.1.world.ledger
  session : ∀ access events, after.2.phase = .running access events →
    sessions (access.sessionId id)

/-- What a stretch makes of a member, if it is given one, and what is measured: what its task
measures, and the commit if its success is appended to the record. -/
structure Member.Metered (behave : σ → Poll σ) (sessions : String → Prop) (id : String)
    (keyed : Bool) (floor : Floor) (member : Member (Traced σ))
    (after : Floor × Member (Traced σ)) (exchanges : List (Exchange σ)) : Prop
    extends Handled behave sessions id floor member after exchanges where
  own : ∀ access events, after.2.phase = .running access events → access.isOwn = keyed
  measures : (∀ exchange ∈ exchanges, exchange.Extends) →
    floor.world.Measures after.1.world (exchanges.flatMap Exchange.measured ++
      committed (if keyed then Member.appended id after else none))

namespace Floor

@[simp] theorem journal_setLedger (floor : Floor) (ledger : Ledger) :
    (floor.setLedger ledger).world.journal = floor.world.journal := by
  cases h : floor.own <;> simp [setLedger, h]

end Floor

namespace Member

section Settling

variable (scope : Scope) (floor : Floor) (member : Member σ)

theorem recordFailure_measures (draft : Draft) (message : String) :
    floor.world.Measures (recordFailure scope floor draft message).world [] := by
  have hsame : (recordFailure scope floor draft message).world.journal.measurements =
      floor.world.journal.measurements := by
    simp only [recordFailure]
    split
    · rw [Floor.journal_setLedger]
      rfl
    · rfl
  rw [World.Measures, hsame, List.append_nil]

theorem fail_measures (draft : Option Draft) (events : List Event) (error : TaskError) :
    floor.world.Measures (fail scope floor member draft events error).1.world [] := by
  cases draft with
  | none => exact .refl floor.world
  | some draft => exact recordFailure_measures scope (floor.notice _) draft _

@[simp] theorem appended_fail (id : String) (draft : Option Draft) (events : List Event)
    (error : TaskError) : appended id (fail scope floor member draft events error) = none := rfl

/-- A good end is measured if it is committed. -/
theorem succeed_measures (draft : Draft) (events : List Event) :
    let after := succeed scope floor member (some draft) events
    floor.world.Measures after.1.world
      (committed (appended scope.context.session.id after)) := by
  simp only [succeed]
  split
  next record execution ledger hfound hcommitted =>
    have hget := Ledger.get?_of_find hfound
    obtain ⟨rfl, rfl⟩ := Ledger.commit_eq_ok hget hcommitted
    have happended : ∀ measurements, committed (appended scope.context.session.id
        ((floor.stamp.2.setLedger (floor.stamp.2.ledger.put scope.context.session.id
          (record.commit floor.stamp.1 draft (textOf events)))).measure measurements,
            { member with phase := .settled ⟨events, none⟩ })) =
        Ledger.commitMeasurements record
          (Ledger.succeed record floor.stamp.1 draft (textOf events)) := by
      simp [appended, Phase.settlement?, Settlement.isSuccess, committed,
        Ledger.commitMeasurements]
    simp only [happended]
    have hstamped : floor.world.Measures (floor.stamp.2.setLedger (floor.stamp.2.ledger.put
        scope.context.session.id (record.commit floor.stamp.1 draft (textOf events)))).world
          [] := by
      rw [World.Measures, Floor.journal_setLedger, List.append_nil]
      rfl
    exact hstamped.trans (World.measures_measure _ _)
  next => exact fail_measures scope floor.stamp.2 member (some draft) events _
  next => exact fail_measures scope floor.stamp.2 member (some draft) events _

end Settling

/-! ## Stretches of members -/

theorem Handled.of_same {behave : σ → Poll σ} {sessions : String → Prop} {id : String}
    {floor entered : Floor} {member : Member (Traced σ)} {after : Floor × Member (Traced σ)}
    {exchanges : List (Exchange σ)}
    (h : Handled behave sessions id entered member after exchanges)
    (hledger : entered.world.ledger = floor.world.ledger) :
    Handled behave sessions id floor member after exchanges where
  past := h.past
  once := h.once
  task := h.task
  works := fun exchange hmem => by
    obtain ⟨hadvance, hworld, hsession⟩ := h.works exchange hmem
    exact ⟨hadvance, hworld.trans hledger, hsession⟩
  ledger := hledger ▸ h.ledger
  session := h.session

section Stretches

variable (behave : σ → Poll σ) (sessions : String → Prop) (scope : Scope) (index : Nat)
  (floor : Floor) (member : Member (Traced σ))

variable {behave sessions scope index floor member} in
/-- What was done before a stretch without measuring, and without operating on the shared
ledger, does not matter. -/
theorem Metered.of_same {id : String} {keyed : Bool} {entered : Floor}
    {after : Floor × Member (Traced σ)} {exchanges : List (Exchange σ)}
    (h : Metered behave sessions id keyed entered member after exchanges)
    (hledger : entered.world.ledger = floor.world.ledger)
    (hmeasures : floor.world.Measures entered.world []) :
    Metered behave sessions id keyed floor member after exchanges where
  toHandled := h.toHandled.of_same hledger
  own := h.own
  measures := fun hextends => by simpa using hmeasures.trans (h.measures hextends)

theorem fail_metered (keyed : Bool) (draft : Option Draft) (events : List Event)
    (error : TaskError) :
    Metered behave sessions scope.context.session.id keyed floor member
      (fail scope floor member draft events error) [] where
  past := (List.append_nil _).symm
  once := Nat.zero_le 1
  task := rfl
  works := fun _ hmem => absurd hmem List.not_mem_nil
  ledger := fail_noted scope floor member draft events error
  session := fun _ _ hphase => by cases hphase
  own := fun _ _ hphase => by cases hphase
  measures := fun _ => by simpa [committed] using fail_measures scope floor member draft events error

variable {behave sessions floor member} in
/-- A member that was given one stretch, whatever was made of it afterwards. -/
theorem Metered.of_stretch {id : String} {keyed : Bool} {exchange : Exchange σ}
    {after : Floor × Member (Traced σ)}
    (hadvance : exchange.advance =
      behave member.process.task exchange.turn exchange.context exchange.world)
    (hworld : exchange.world = floor.world) (hsession : sessions exchange.context.session.id)
    (hprocess : after.2.process = ⟨exchange.advance.process, member.process.past ++ [exchange]⟩)
    (hledger : Ledger.Noted id exchange.advance.world.ledger after.1.world.ledger)
    (hphase : ∀ access events, after.2.phase = .running access events →
      sessions (access.sessionId id) ∧ access.isOwn = keyed)
    (hmeasures : exchange.advance.world.Measures after.1.world
      (committed (if keyed then appended id after else none))) :
    Metered behave sessions id keyed floor member after [exchange] where
  past := by rw [hprocess]
  once := Nat.le_refl 1
  task := by
    rw [hprocess]
    rfl
  works := by
    intro _ hmem
    rw [List.mem_singleton.1 hmem]
    exact ⟨hadvance, congrArg (·.ledger) hworld, hsession⟩
  ledger := hledger
  session := fun access events hrunning => (hphase access events hrunning).1
  own := fun access events hrunning => (hphase access events hrunning).2
  measures := fun hextends => by
    have hstretch := hextends exchange List.mem_cons_self
    rw [Exchange.Extends, hworld] at hstretch
    rw [List.flatMap_singleton]
    exact hstretch.trans hmeasures

/-- A stretch of a member that has started. -/
theorem proceed_metered (access : Access) (events : List Event)
    (hsession : sessions (access.sessionId scope.context.session.id)) :
    ∃ exchanges, Metered behave sessions scope.context.session.id access.isOwn floor member
      (proceed scope index (Traced.poll behave member.process) floor member access events)
      exchanges := by
  -- Whoever settles works in no session any more.
  have hsettled : ∀ {after : Floor × Member (Traced σ)} {p : Access → Prop},
      after.2.phase.settlement?.isSome →
        ∀ access events, after.2.phase = .running access events → p access :=
    fun hsettled access events hphase => by simp [hphase, Phase.settlement?] at hsettled
  cases access with
  | own draft context =>
    refine ⟨[⟨scope.turn.below index, context, floor.world,
      behave member.process.task (scope.turn.below index) context floor.world⟩], ?_⟩
    simp only [proceed, Traced.poll]
    split
    · refine .of_stretch rfl rfl hsession rfl .unchanged (fun access events hphase => ?_) ?_
      · obtain ⟨rfl, -⟩ := Phase.running.inj hphase
        exact ⟨hsession, rfl⟩
      · simpa [appended, Phase.settlement?, committed] using .refl _
    · exact .of_stretch rfl rfl hsession (process_succeed ..)
        (succeed_noted scope { floor with world := _ } _ _ _ :) (hsettled (settled_succeed ..))
        (succeed_measures ..)
    · exact .of_stretch rfl rfl hsession rfl
        (fail_noted scope { floor with world := _ } _ (some draft) _ _ :)
        (hsettled (settled_fail ..))
        (fail_measures scope { floor with world := _ } _ (some draft) _ _)
  | shared instruction =>
    refine ⟨[⟨scope.turn.below index,
      (scope.context.withState floor.state).withInstruction instruction, floor.world,
      behave member.process.task (scope.turn.below index)
        ((scope.context.withState floor.state).withInstruction instruction) floor.world⟩], ?_⟩
    -- Without a draft, neither end of the task is for the ledger.
    simp only [proceed, Traced.poll]
    split
    · refine .of_stretch rfl rfl hsession rfl .unchanged (fun access events hphase => ?_) (.refl _)
      obtain ⟨rfl, -⟩ := Phase.running.inj hphase
      exact ⟨hsession, rfl⟩
    · exact .of_stretch rfl rfl hsession rfl .unchanged (hsettled (settled_succeed ..)) (.refl _)
    · exact .of_stretch rfl rfl hsession rfl .unchanged (hsettled (settled_fail ..)) (.refl _)

/-- The session in which a member of a run begins. -/
def startId (keyed : Bool) (id : String) (index : Nat) : String :=
  if keyed then Context.childId id index else id

/-- The start of a member. -/
theorem start_metered
    (hsession : sessions (startId floor.keyed scope.context.session.id index)) :
    ∃ exchanges, Metered behave sessions scope.context.session.id floor.keyed floor member
      (start scope index (Traced.poll behave member.process) floor member) exchanges := by
  have hstamp : floor.world.Measures floor.stamp.2.world [] := .refl floor.world
  unfold start
  cases hkeyed : floor.keyed with
  | true =>
    rw [startId, hkeyed, if_pos rfl] at hsession
    simp only [if_true]
    split
    · exact ⟨[], (fail_metered behave sessions scope _ member _ _ _ _).of_same rfl hstamp⟩
    · split
      · exact ⟨[], (fail_metered behave sessions scope _ member _ _ _ _).of_same rfl hstamp⟩
      next outputs _ _ instruction _ =>
        obtain ⟨exchanges, hmetered⟩ := proceed_metered behave sessions scope index floor.stamp.2
          member (.own (draft scope index member.definition floor.stamp.1)
            ((scope.context.child (Context.childId scope.context.session.id index)
              (floor.state.overlay outputs)).withInstruction instruction)) [] hsession
        exact ⟨exchanges, hmetered.of_same rfl hstamp⟩
  | false =>
    rw [startId, hkeyed, if_neg Bool.false_ne_true] at hsession
    simp only [Bool.false_eq_true, if_false]
    split
    · exact ⟨[], fail_metered behave sessions scope floor member _ _ _ _⟩
    · exact proceed_metered behave sessions scope index floor member (.shared _) [] hsession

end Stretches

end Member

/-! ## At the gate -/

/-- Whether a measurement concerns those that wait for a slot, or hold one. -/
def Measurement.isLevel (measurement : Measurement) : Bool :=
  measurement.series = .queueDepth || measurement.series = .activeExecutions

theorem isLevel_of_mem_committed (appended : Option (Record × Execution))
    (measurement : Measurement) (h : measurement ∈ committed appended) :
    measurement.isLevel = false := by
  rcases appended with _ | ⟨record, execution⟩
  · cases h
  · simp only [committed, Ledger.commitMeasurements, List.mem_append, List.mem_singleton] at h
    rcases h with h | rfl
    · split at h
      · rw [List.mem_singleton.1 h]
        rfl
      · cases h
    · rfl

namespace Phase

/-- For how many slots a member waits in a phase: for one, side by side with others. -/
def queued : Order → Phase → Nat
  | .parallel _, .waiting => 1
  | _, _ => 0

/-- How many slots it holds. -/
def active : Order → Phase → Nat
  | .parallel _, .running .. => 1
  | _, _ => 0

/-- Whether measurements at the gate tell how a member goes from one phase to another. -/
structure Moves (plan : Plan) (before after : Phase) (gate : List Measurement) : Prop where
  levels : ∀ measurement ∈ gate, measurement.isLevel
  queue : ∀ level, Measurement.levelFrom? .queueDepth plan.name
    (level + before.queued plan.order) gate = some (level + after.queued plan.order)
  active : ∀ level, Measurement.levelFrom? .activeExecutions plan.name
    (level + before.active plan.order) gate = some (level + after.active plan.order)

/-- One after another there is no gate. -/
theorem moves_sequential {plan : Plan} (horder : plan.order = .sequential) (before after : Phase) :
    Moves plan before after [] where
  levels := fun _ hmem => absurd hmem List.not_mem_nil
  queue := fun level => by simp [horder, queued]
  active := fun level => by simp [horder, active]

theorem Moves.refl (plan : Plan) (phase : Phase) : Moves plan phase phase [] where
  levels := fun _ hmem => absurd hmem List.not_mem_nil
  queue := fun _ => rfl
  active := fun _ => rfl

variable {plan : Plan} {workers : Nat}

theorem moves_waiting (horder : plan.order = .parallel workers) :
    Moves plan .idle .waiting [.waitBegan plan.name] where
  levels := by simp [Measurement.isLevel, Measurement.series]
  queue := fun level => by simp [horder, queued]
  active := fun level => by simp [horder, active]

/-- What is measured as a slot is taken by a member of this phase. -/
def entering (name : String) : Phase → List Measurement
  | .waiting => [.slotTaken name, .waitEnded name]
  | _ => [.slotTaken name]

/-- What is measured once a stretch has left a member in this phase. -/
def leaving (name : String) : Phase → List Measurement
  | .settled _ => [.slotFreed name]
  | _ => []

theorem moves_started (horder : plan.order = .parallel workers) {before after : Phase}
    (hbefore : before = .idle ∨ before = .waiting) (hafter : after.hasStarted = true) :
    Moves plan before after (before.entering plan.name ++ after.leaving plan.name) where
  levels := by
    rcases hbefore with rfl | rfl <;> cases after <;>
      simp [entering, leaving, Measurement.isLevel, Measurement.series]
  queue := fun level => by
    rcases hbefore with rfl | rfl <;> cases after <;>
      simp [entering, leaving, horder, queued, hasStarted] at hafter ⊢
  active := fun level => by
    rcases hbefore with rfl | rfl <;> cases after <;>
      simp [entering, leaving, horder, active, hasStarted] at hafter ⊢

theorem moves_proceeded (horder : plan.order = .parallel workers) (access : Access)
    (events : List Event) {after : Phase} (hafter : after.hasStarted = true) :
    Moves plan (.running access events) after (after.leaving plan.name) where
  levels := by cases after <;> simp [leaving, Measurement.isLevel, Measurement.series]
  queue := fun level => by cases after <;> simp [leaving, horder, queued, hasStarted] at hafter ⊢
  active := fun level => by cases after <;> simp [leaving, horder, active, hasStarted] at hafter ⊢

end Phase

/-! ## Visits -/

namespace Member

/-- Whether the success of a member is appended to the record, if a visit brings it. -/
def publishes (keyed : Bool) (member : Member σ) : Bool :=
  match member.phase with
  | .running access _ => access.isOwn
  | .settled _ => false
  | _ => keyed

/-- What a visit makes of a member, with what is measured at the gate before and after the
stretch. -/
structure Told (behave : σ → Poll σ) (sessions : String → Prop) (scope : Scope) (floor : Floor)
    (member : Member (Traced σ)) (after : Floor × Member (Traced σ))
    (exchanges : List (Exchange σ)) (opening closing : List Measurement) : Prop
    extends Handled behave sessions scope.context.session.id floor member after exchanges where
  own : ∀ access events, after.2.phase = .running access events →
    access.isOwn = member.publishes floor.keyed
  measures : (∀ exchange ∈ exchanges, exchange.Extends) →
    floor.world.Measures after.1.world (opening ++ (exchanges.flatMap Exchange.measured ++
      committed (if member.publishes floor.keyed then appended scope.context.session.id after
        else none)) ++ closing)
  moves : Phase.Moves scope.plan member.phase after.2.phase (opening ++ closing)

section Visits

variable {behave : σ → Poll σ} {sessions : String → Prop} {scope : Scope} {index : Nat}
  {floor : Floor} {member : Member (Traced σ)}

theorem told_of_unvisited {left : Floor} {phase : Phase} {opening : List Measurement}
    (hledger : left.world.ledger = floor.world.ledger)
    (hmeasures : floor.world.Measures left.world opening)
    (hphase : member.publishes floor.keyed = false ∨ phase.settlement? = none)
    (hrunning : ∀ access events, phase ≠ .running access events)
    (hmoves : Phase.Moves scope.plan member.phase phase opening) :
    Told behave sessions scope floor member (left, { member with phase }) [] opening [] where
  past := (List.append_nil _).symm
  once := Nat.zero_le 1
  task := rfl
  works := fun _ hmem => absurd hmem List.not_mem_nil
  ledger := hledger ▸ .unchanged
  session := fun access events hsame => absurd hsame (hrunning access events)
  own := fun access events hsame => absurd hsame (hrunning access events)
  measures := fun _ => by
    rcases hphase with hphase | hphase
    · simpa [hphase, committed] using hmeasures
    · simpa [appended, hphase, committed] using hmeasures
  moves := by rwa [List.append_nil]

/-- What a stretch makes of a member, with what is measured before it. -/
theorem Metered.told {keyed : Bool} {entered : Floor} {after : Floor × Member (Traced σ)}
    {exchanges : List (Exchange σ)} {opening : List Measurement}
    (h : Metered behave sessions scope.context.session.id keyed entered member after exchanges)
    (hkeyed : member.publishes floor.keyed = keyed)
    (hledger : entered.world.ledger = floor.world.ledger)
    (hopening : floor.world.Measures entered.world opening)
    (hmoves : Phase.Moves scope.plan member.phase after.2.phase opening) :
    Told behave sessions scope floor member after exchanges opening [] where
  toHandled := h.toHandled.of_same hledger
  own := hkeyed ▸ h.own
  measures := fun hextends => by
    rw [hkeyed, List.append_nil]
    exact hopening.trans (h.measures hextends)
  moves := by rwa [List.append_nil]

/-- The same at the gate, where a slot may be given back after the stretch. -/
theorem Metered.told_freeSlot {keyed : Bool} {entered : Floor} {after : Floor × Member (Traced σ)}
    {exchanges : List (Exchange σ)} {opening : List Measurement}
    (h : Metered behave sessions scope.context.session.id keyed entered member after exchanges)
    (hkeyed : member.publishes floor.keyed = keyed)
    (hledger : entered.world.ledger = floor.world.ledger)
    (hopening : floor.world.Measures entered.world opening)
    (hmoves : Phase.Moves scope.plan member.phase after.2.phase
      (opening ++ after.2.phase.leaving scope.plan.name)) :
    Told behave sessions scope floor member (freeSlot scope index after) exchanges opening
      (after.2.phase.leaving scope.plan.name) where
  past := by
    rw [snd_freeSlot]
    exact h.past
  once := h.once
  task := by
    rw [snd_freeSlot]
    exact h.task
  works := (h.toHandled.of_same hledger).works
  ledger := by
    have hfreed : (freeSlot scope index after).1.world.ledger = after.1.world.ledger := by
      unfold freeSlot
      split <;> rfl
    rw [hfreed]
    exact (h.toHandled.of_same hledger).ledger
  session := by
    rw [snd_freeSlot]
    exact h.session
  own := by
    rw [snd_freeSlot, hkeyed]
    exact h.own
  measures := fun hextends => by
    have hclosing : after.1.world.Measures (freeSlot scope index after).1.world
        (after.2.phase.leaving scope.plan.name) := by
      unfold freeSlot
      cases after.2.phase <;> first | exact .refl _ | exact World.measures_measure _ _
    have happended : appended scope.context.session.id (freeSlot scope index after) =
        appended scope.context.session.id after := by
      rw [appended, snd_freeSlot, (around_freeSlot scope index after).ledger, appended]
    rw [hkeyed, happended]
    exact (hopening.trans (h.measures hextends)).trans hclosing
  moves := by rwa [snd_freeSlot]

/-- Who is not visited stays as it is. -/
theorem told_of_stays
    (hphase : member.publishes floor.keyed = false ∨ member.phase.settlement? = none)
    (hrunning : ∀ access events, member.phase ≠ .running access events) :
    Told behave sessions scope floor member (floor, member) [] [] [] :=
  told_of_unvisited rfl (.refl floor.world) hphase hrunning (.refl _ _)

section Orders

variable (hstart : sessions (startId floor.keyed scope.context.session.id index))
  (hrunning : ∀ access events, member.phase = .running access events →
    sessions (access.sessionId scope.context.session.id))
include hstart

/-- Whoever is let in at the gate starts, whether it has waited or not. -/
theorem start_told {workers : Nat} (horder : scope.plan.order = .parallel workers)
    (gate : Gate Nat) (hphase : member.phase = .idle ∨ member.phase = .waiting) :
    ∃ exchanges opening closing, Told behave sessions scope floor member
      (freeSlot scope index (start scope index (Traced.poll behave member.process)
        ({ floor with gate }.measure (member.phase.entering scope.plan.name)) member))
      exchanges opening closing := by
  obtain ⟨exchanges, hmetered⟩ := start_metered behave sessions scope index
    ({ floor with gate }.measure (member.phase.entering scope.plan.name)) member hstart
  have hkeyed : member.publishes floor.keyed = floor.keyed := by
    rcases hphase with hphase | hphase <;> simp [publishes, hphase]
  exact ⟨exchanges, _, _, hmetered.told_freeSlot hkeyed rfl (World.measures_measure _ _)
    (Phase.moves_started horder hphase (start_started ..).2)⟩

/-- One after another, nobody waits. -/
theorem startInLine_told (horder : scope.plan.order = .sequential) (notice : Notice)
    (hphase : member.phase = .idle ∨ member.phase = .waiting) :
    ∃ exchanges opening closing, Told behave sessions scope floor member
      (start scope index (Traced.poll behave member.process) (floor.notice notice) member)
      exchanges opening closing := by
  obtain ⟨exchanges, hmetered⟩ := start_metered behave sessions scope index
    (floor.notice notice) member hstart
  have hkeyed : member.publishes floor.keyed = floor.keyed := by
    rcases hphase with hphase | hphase <;> simp [publishes, hphase]
  exact ⟨exchanges, _, _, hmetered.told hkeyed rfl (.refl floor.world)
    (Phase.moves_sequential horder _ _)⟩

include hrunning

theorem visit_told {workers : Nat} (horder : scope.plan.order = .parallel workers) :
    ∃ exchanges opening closing, Told behave sessions scope floor member
      (visit scope index (Traced.poll behave member.process) floor member)
      exchanges opening closing := by
  unfold visit
  cases hphase : member.phase with
  | idle =>
    have hstarts := fun gate => @start_told _ behave sessions scope index floor member hstart _
      horder gate (.inl hphase)
    rw [hphase] at hstarts
    simp only
    split
    · exact hstarts _
    · exact ⟨_, _, _, told_of_unvisited rfl (World.measures_measure _ _) (.inr rfl)
        (fun _ _ hsame => by cases hsame) (hphase ▸ Phase.moves_waiting horder)⟩
  | waiting =>
    have hstarts := fun gate => @start_told _ behave sessions scope index floor member hstart _
      horder gate (.inr hphase)
    have hstays : ∃ exchanges opening closing, Told behave sessions scope floor member
        (floor, member) exchanges opening closing :=
      ⟨_, _, _, told_of_stays (.inr (by rw [hphase]; rfl)) (by simp [hphase])⟩
    rw [hphase] at hstarts
    simp only
    split
    · split
      · exact hstarts _
      · exact hstays
    · exact hstays
  | running access events =>
    obtain ⟨exchanges, hmetered⟩ := proceed_metered behave sessions scope index floor member
      access events (hrunning access events hphase)
    refine ⟨exchanges, _, _, hmetered.told_freeSlot (by simp [publishes, hphase]) rfl
      (.refl floor.world) ?_⟩
    rw [hphase]
    exact Phase.moves_proceeded horder access events (proceed_started ..).2
  | settled settlement =>
    exact ⟨_, _, _, told_of_stays (.inl (by simp [publishes, hphase])) (by simp [hphase])⟩

theorem visitInLine_told (horder : scope.plan.order = .sequential) :
    ∃ exchanges opening closing, Told behave sessions scope floor member
      (visitInLine scope index (Traced.poll behave member.process) floor member)
      exchanges opening closing := by
  unfold visitInLine
  cases hphase : member.phase with
  | idle => exact startInLine_told hstart horder _ (.inl hphase)
  | waiting => exact startInLine_told hstart horder _ (.inr hphase)
  | running access events =>
    obtain ⟨exchanges, hmetered⟩ := proceed_metered behave sessions scope index floor member
      access events (hrunning access events hphase)
    exact ⟨exchanges, _, _, hmetered.told (by simp [publishes, hphase]) rfl (.refl floor.world)
      (Phase.moves_sequential horder _ _)⟩
  | settled settlement =>
    exact ⟨_, _, _, told_of_stays (.inl (by simp [publishes, hphase])) (by simp [hphase])⟩

end Orders

variable (behave) (scope) (index) (floor) in
/-- A visit, in either order. -/
theorem visitBy_told (hstart : sessions (startId floor.keyed scope.context.session.id index))
    (hrunning : ∀ access events, member.phase = .running access events →
      sessions (access.sessionId scope.context.session.id)) :
    ∃ exchanges opening closing, Told behave sessions scope floor member
      (visitBy scope index (Traced.poll behave member.process) floor member)
      exchanges opening closing := by
  unfold visitBy
  split
  next workers horder => exact visit_told hstart hrunning horder
  next horder => exact visitInLine_told hstart hrunning horder

end Visits

end Member

namespace Visit

/-- The stretches that the task of the visited member is given. -/
def exchanges (visit : Visit (Traced σ)) : List (Exchange σ) :=
  visit.after.2.process.past.drop visit.member.process.past.length

/-- What is measured in them. -/
def heard (visit : Visit (Traced σ)) : List Measurement :=
  visit.exchanges.flatMap Exchange.measured

/-- The success that the visited member appends to the record of its run, with the record
as it is then. -/
def appended (visit : Visit (Traced σ)) : Option (Record × Execution) :=
  if visit.member.publishes visit.floor.keyed then
    Member.appended visit.scope.context.session.id visit.after
  else none

theorem Of.told {behave : σ → Poll σ} {plan : Plan} {context : Context}
    {stretch : Stretch (Traced σ)} {visit : Visit (Traced σ)} {sessions : String → Prop}
    (h : visit.Of (Traced.poll behave) plan context stretch)
    (hstart : sessions (Member.startId visit.floor.keyed context.session.id visit.index))
    (hrunning : ∀ access events, visit.member.phase = .running access events →
      sessions (access.sessionId context.session.id)) :
    ∃ opening closing, Member.Told behave sessions visit.scope visit.floor visit.member visit.after
      visit.exchanges opening closing := by
  have hid : visit.scope.context.session.id = context.session.id := by rw [h.scope]; rfl
  rw [← hid] at hstart hrunning
  obtain ⟨exchanges, opening, closing, htold⟩ := Member.visitBy_told behave visit.scope
    visit.index visit.floor hstart hrunning
  rw [← h.after] at htold
  have hexchanges : visit.exchanges = exchanges := by
    rw [Visit.exchanges, htold.past, List.drop_left]
  exact ⟨opening, closing, hexchanges ▸ htold⟩

end Visit

end Coordination
