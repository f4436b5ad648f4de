import Coordination.Body
import Coordination.Gate
import Coordination.Template
import Coordination.Workflow

/-!
# The members of a run

A member is one sub-task of a workflow that is being run. It asks for a slot,
starts, and settles. In a run with output keys it starts in a session of its
own, made of the run's values and the outputs published so far; its success is
committed to the ledger and its failure recorded there. In any other run it
works on the run's own session.

A member settles in the very stretch in which its task ends: the commit, the
record and the settlement are one step.
-/

namespace Coordination

/-- How a sub-task settled. -/
structure Settlement where
  events : List Event
  /-- The message of the failure, if it failed. -/
  error : Option String
  deriving DecidableEq, Repr

/-- Whether a sub-task succeeded. -/
def Settlement.isSuccess (settlement : Settlement) : Bool := settlement.error.isNone

/-- What a started sub-task works on. -/
inductive Access where
  /-- A session of its own; the draft is for the ledger. -/
  | own (draft : Draft) (context : Context)
  /-- The session of the run, with an instruction of its own. -/
  | shared (instruction : Option String)
  deriving DecidableEq, Repr

/-- Where a member stands. -/
inductive Phase where
  /-- It has not asked for a slot. -/
  | idle
  /-- It waits for a slot. -/
  | waiting
  /-- It has started, and yielded these events. -/
  | running (access : Access) (events : List Event)
  | settled (settlement : Settlement)
  deriving DecidableEq, Repr

/-- How the member settled, if it did. -/
def Phase.settlement? : Phase → Option Settlement
  | settled settlement => some settlement
  | _ => none

/-- A sub-task of a workflow that is being run. -/
structure Member (σ : Type) where
  definition : Definition
  phase : Phase
  process : σ

/-- What is fixed while the members of a run are visited. -/
structure Scope where
  plan : Plan
  /-- The context of the run; the values of its session stand in the `Floor`. -/
  context : Context
  turn : Turn

/-- What the members of a run have in common. -/
structure Floor where
  /-- The values of the run's session. -/
  state : KeyMap String
  /-- Whether sub-tasks publish outputs. -/
  keyed : Bool
  /-- The run's own ledger, unless it uses the shared one. -/
  own : Option Ledger
  gate : Gate Nat
  world : World
  deriving DecidableEq, Repr

namespace Floor

/-- The ledger of the run. -/
def ledger (floor : Floor) : Ledger := floor.own.getD floor.world.ledger

/-- Changes the ledger of the run. -/
def setLedger (floor : Floor) (ledger : Ledger) : Floor :=
  match floor.own with
  | some _ => { floor with own := some ledger }
  | none => { floor with world := { floor.world with ledger } }

/-- A time stamp. -/
def stamp (floor : Floor) : Timestamp × Floor :=
  (floor.world.stamp.1, { floor with world := floor.world.stamp.2 })

/-- More measurements. -/
def measure (floor : Floor) (measurements : List Measurement) : Floor :=
  { floor with world := floor.world.measure measurements }

/-- One more notice. -/
def notice (floor : Floor) (notice : Notice) : Floor :=
  { floor with world := floor.world.notice notice }

end Floor

namespace Member

variable {σ : Type}

/-- The notice by which the scope of a member is opened. -/
def scopeNotice (workflowId : String) (index : Nat) (definition : Definition) : Notice :=
  .scope workflowId index definition.name (definition.outputKey.getD "")

/-- The instruction of a sub-task, filled in from values. -/
def expand (definition : Definition) (state : KeyMap String) :
    Except TaskError (Option String) :=
  match definition.instruction with
  | none => .ok none
  | some template =>
    match Template.substitute template state with
    | .ok instruction => .ok (some instruction)
    | .error error => .error (.instruction error)

/-- Records a failure in the ledger, or gives notice that this is not possible. -/
def recordFailure (scope : Scope) (floor : Floor) (draft : Draft) (message : String) : Floor :=
  let (now, floor) := floor.stamp
  match floor.ledger.recordFailure now scope.context.session.id draft message with
  | .ok (_, ledger) => floor.setLedger ledger
  | .error error => floor.notice (.failureNotRecorded error.message)

/-- Settles a member as failed. The draft is for the ledger, if it is to know. -/
def fail (scope : Scope) (floor : Floor) (member : Member σ) (draft : Option Draft)
    (events : List Event) (error : TaskError) : Floor × Member σ :=
  let message := error.message
  let floor := floor.notice (.subTaskFailed message)
  let floor :=
    match draft with
    | some draft => recordFailure scope floor draft message
    | none => floor
  let event := Event.failure scope.plan.name member.definition.name message
  (floor, { member with phase := .settled ⟨events ++ [event], some message⟩ })

/-- Settles a member whose task ended well. The ledger may still refuse its output. -/
def succeed (scope : Scope) (floor : Floor) (member : Member σ) (draft : Option Draft)
    (events : List Event) : Floor × Member σ :=
  match draft with
  | none => (floor, { member with phase := .settled ⟨events, none⟩ })
  | some draft =>
    let id := scope.context.session.id
    let (now, floor) := floor.stamp
    match floor.ledger.find id, floor.ledger.commit now id draft (textOf events) with
    | .ok record, .ok (execution, ledger) =>
      let floor := (floor.setLedger ledger).measure (Ledger.commitMeasurements record execution)
      (floor, { member with phase := .settled ⟨events, none⟩ })
    | .error error, _ => fail scope floor member (some draft) events (.commit error)
    | _, .error error => fail scope floor member (some draft) events (.commit error)

/-- Gives a started member a stretch to run. -/
def proceed (scope : Scope) (index : Nat) (poll : Poll σ) (floor : Floor) (member : Member σ)
    (access : Access) (events : List Event) : Floor × Member σ :=
  match access with
  | .own draft context =>
    let advance := poll (scope.turn.below index) context floor.world
    let floor := { floor with world := advance.world }
    let member := { member with process := advance.process }
    let events := events ++ advance.events
    match advance.outcome with
    | .pending =>
      (floor, { member with phase := .running (.own draft (context.withState advance.state)) events })
    | .ended => succeed scope floor member (some draft) events
    | .failed error => fail scope floor member (some draft) events error
  | .shared instruction =>
    let context := (scope.context.withState floor.state).withInstruction instruction
    let advance := poll (scope.turn.below index) context floor.world
    let floor := { floor with state := advance.state, world := advance.world }
    let member := { member with process := advance.process }
    let events := events ++ advance.events
    match advance.outcome with
    | .pending => (floor, { member with phase := .running (.shared instruction) events })
    | .ended => succeed scope floor member none events
    | .failed error => fail scope floor member none events error

/-- The draft of a member of a run with output keys. -/
def draft (scope : Scope) (index : Nat) (definition : Definition) (now : Timestamp) : Draft where
  index
  taskName := definition.name
  taskNamespace := definition.namespaceOr scope.plan.namespace
  sessionId := Context.childId scope.context.session.id index
  outputKey := definition.outputKey
  startedAt := now

/-- Starts a member that got its slot and gives it its first stretch. -/
def start (scope : Scope) (index : Nat) (poll : Poll σ) (floor : Floor) (member : Member σ) :
    Floor × Member σ :=
  if floor.keyed then
    let (now, floor) := floor.stamp
    let draft := draft scope index member.definition now
    match floor.ledger.outputsOf scope.context.session.id with
    | .error error => fail scope floor member (some draft) [] (.commit error)
    | .ok outputs =>
      let state := floor.state.overlay outputs
      match expand member.definition state with
      | .error error => fail scope floor member (some draft) [] error
      | .ok instruction =>
        let context := (scope.context.child draft.sessionId state).withInstruction instruction
        proceed scope index poll floor member (.own draft context) []
  else
    match expand member.definition floor.state with
    | .error error => fail scope floor member none [] error
    | .ok instruction => proceed scope index poll floor member (.shared instruction) []

/-- Gives the slot of a member back if it has settled. -/
def freeSlot (scope : Scope) (index : Nat) (after : Floor × Member σ) : Floor × Member σ :=
  match after.2.phase with
  | .settled _ =>
    ({ after.1 with gate := after.1.gate.release index }.measure [.slotFreed scope.plan.name],
      after.2)
  | _ => after

/-- Visits a member of a parallel run: it asks for a slot, starts or goes on,
and gives its slot back once it has settled. -/
def visit (scope : Scope) (index : Nat) (poll : Poll σ) (floor : Floor) (member : Member σ) :
    Floor × Member σ :=
  match member.phase with
  | .idle =>
    match floor.gate.enter index with
    | (true, gate) =>
      freeSlot scope index
        (start scope index poll ({ floor with gate }.measure [.slotTaken scope.plan.name]) member)
    | (false, gate) =>
      ({ floor with gate }.measure [.waitBegan scope.plan.name], { member with phase := .waiting })
  | .waiting =>
    if scope.turn.admits [index] then
      match floor.gate.claim index with
      | (true, gate) =>
        freeSlot scope index
          (start scope index poll
            ({ floor with gate }.measure [.slotTaken scope.plan.name, .waitEnded scope.plan.name])
            member)
      | (false, _) => (floor, member)
    else (floor, member)
  | .running access events =>
    freeSlot scope index (proceed scope index poll floor member access events)
  | .settled _ => (floor, member)

/-- Visits a member of a sequential run: it starts or goes on. -/
def visitInLine (scope : Scope) (index : Nat) (poll : Poll σ) (floor : Floor)
    (member : Member σ) : Floor × Member σ :=
  match member.phase with
  | .running access events => proceed scope index poll floor member access events
  | .settled _ => (floor, member)
  | _ =>
    start scope index poll
      (floor.notice (scopeNotice scope.context.session.id index member.definition)) member

/-- Visits the members of a parallel run in their order. -/
def sweep (scope : Scope) : Nat → Floor → List (Member σ × Poll σ) → Floor × List (Member σ)
  | _, floor, [] => (floor, [])
  | index, floor, (member, poll) :: rest =>
    let (floor, member) := visit scope index poll floor member
    let (floor, members) := sweep scope (index + 1) floor rest
    (floor, member :: members)

/-- Visits the members of a sequential run in their order, up to the first
that has not succeeded. -/
def walk (scope : Scope) : Nat → Floor → List (Member σ × Poll σ) → Floor × List (Member σ)
  | _, floor, [] => (floor, [])
  | index, floor, (member, poll) :: rest =>
    let (floor, member) := visitInLine scope index poll floor member
    match member.phase.settlement? with
    | some ⟨_, none⟩ =>
      let (floor, members) := walk scope (index + 1) floor rest
      (floor, member :: members)
    | _ => (floor, member :: rest.map Prod.fst)

end Member

end Coordination
