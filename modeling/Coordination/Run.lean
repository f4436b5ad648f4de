import Coordination.Member
import Coordination.Report

/-!
# Runs

A run carries a workflow out. It opens with the first stretch it is given,
visits its members in every stretch, and closes as soon as its members have
settled: side by side, when all have; one after another, when all have or one
has failed. A run side by side may be cancelled, and then abandons the members
that have not settled.

`Run.poll` is one stretch, over whatever the members do.
-/

namespace Coordination

/-- Whether a run has begun or ended. -/
inductive Stage where
  | fresh
  /-- Under way, with the gate and the run's own ledger, if it has one. -/
  | «open» (gate : Gate Nat) (own : Option Ledger)
  | closed
  deriving DecidableEq, Repr

/-- A workflow that is being carried out. -/
structure Run (σ : Type) where
  plan : Plan
  stage : Stage
  members : List (Member σ)

namespace Run

variable {σ : Type}

/-- A run before its start. -/
def ofWorkflow (workflow : Workflow σ) : Run σ where
  plan := workflow.plan
  stage := .fresh
  members := workflow.members.map fun member => ⟨member.1, .idle, member.2⟩

/-- Whether some sub-task publishes its output. -/
def isKeyed (run : Run σ) : Bool :=
  run.members.any fun member => member.definition.outputKey.isSome

/-- How the members settled that did, in their order. -/
def settlements (members : List (Member σ)) : List Settlement :=
  members.filterMap fun member => member.phase.settlement?

/-- The number of members that succeeded. -/
def succeeded (members : List (Member σ)) : Nat := (settlements members).countP (·.isSuccess)

/-- The number of members that failed. -/
def failed (members : List (Member σ)) : Nat :=
  (settlements members).length - succeeded members

/-- The events of the members that settled, in the order of the members. -/
def events (members : List (Member σ)) : List Event := (settlements members).flatMap (·.events)

/-- The first member that failed: its place, its definition and the message. -/
def firstFailure? (members : List (Member σ)) : Option (Nat × Definition × String) :=
  members.zipIdx.findSome? fun (member, index) => do
    let settlement ← member.phase.settlement?
    return (index, member.definition, ← settlement.error)

/-- Starts the record of a run that publishes outputs. -/
def createRecord (plan : Plan) (context : Context) (floor : Floor) : Except LedgerError Floor :=
  if floor.keyed then do
    let (now, floor) := floor.stamp
    let session := context.session
    let (_, ledger) ← floor.ledger.create now session.id session.user plan.name plan.namespace
    return floor.setLedger ledger
  else .ok floor

/-- The notice that a run begins. -/
def openNotice (run : Run σ) (id : String) : Notice :=
  match run.plan.order with
  | .parallel maxWorkers =>
    .fanOutStarted id run.plan.name run.members.length maxWorkers run.isKeyed
  | .sequential => .pipelineStarted id run.plan.name run.members.length run.isKeyed

/-- What a run begins with, before its record. -/
def lobby (run : Run σ) (context : Context) (world : World) : Floor where
  state := context.state
  keyed := run.isKeyed
  own := if run.isKeyed && !run.plan.sharesLedger then some (.empty run.plan.maxValueBytes) else none
  gate := Gate.ofCapacity 0
  world := world.notice (run.openNotice context.session.id)

/-- Puts up the gate of a parallel run and opens the scopes of its members. -/
def putUpGate (run : Run σ) (context : Context) (floor : Floor) : Except PolicyError Floor :=
  match run.plan.order with
  | .sequential => .ok floor
  | .parallel maxWorkers => do
    let gate ← Gate.new maxWorkers
    let floor := { floor with gate }.measure [.slots run.plan.name maxWorkers]
    return run.members.zipIdx.foldl (fun floor (member, index) =>
      floor.notice (Member.scopeNotice context.session.id index member.definition)) floor

/-- Opens a run: its record first, then its gate. -/
def «open» (run : Run σ) (context : Context) (world : World) :
    Except (RunError × World) Floor :=
  let lobby := run.lobby context world
  match createRecord run.plan context lobby with
  | .error error => .error (.ledger error, lobby.world)
  | .ok floor =>
    match run.putUpGate context floor with
    | .error error => .error (.policy error, floor.world)
    | .ok floor => .ok floor

/-- Brings the record of a run to its end, if it has one. -/
def settleRecord (id : String) (verdict : Verdict) (floor : Floor) :
    Except LedgerError (Option Record × Floor) :=
  if floor.keyed then do
    let (now, floor) := floor.stamp
    let (record, ledger) ← floor.ledger.settle now id verdict
    return (some record, floor.setLedger ledger)
  else .ok (none, floor)

/-- Publishes the outputs of a record into the session of the run. -/
def publish (record : Option Record) (floor : Floor) : Floor :=
  match record with
  | some record => { floor with state := floor.state.overlay record.outputs }
  | none => floor

/-- The end of a parallel run whose members have all settled. -/
def concludeParallel (id : String) (floor : Floor) (members : List (Member σ)) :
    Except LedgerError Report × Floor :=
  let succeeded := succeeded members
  let failed := failed members
  let events := events members
  if floor.keyed then
    if 0 < succeeded then
      match settleRecord id .completed floor with
      | .error error => (.error error, floor)
      | .ok (record, floor) =>
        let outputs := (record.map (·.outputs.size)).getD 0
        ( .ok
            { status := (record.map (·.status)).getD .completed
              succeeded, failed, events
              error := record.bind (·.errorMessage)
              record },
          (publish record floor).notice (.fanOutPublished id succeeded failed outputs))
    else
      match settleRecord id (.failed Report.allFailedMessage) floor with
      | .error error => (.error error, floor)
      | .ok (record, floor) =>
        ( .ok
            { status := (record.map (·.status)).getD .failed
              succeeded, failed, events
              error := record.bind (·.errorMessage)
              record },
          floor.notice (.fanOutFailed id failed Report.allFailedMessage))
  else
    let status := if 0 < failed ∧ succeeded = 0 then RunStatus.failed else .completed
    ( .ok
        { status, succeeded, failed, events
          error := if status = .failed then some Report.allFailedMessage else none
          record := none },
      floor.notice (.fanOutSettled id succeeded failed))

/-- The end of a sequential run at its first failure. -/
def concludeStopped (id : String) (floor : Floor) (members : List (Member σ))
    (failure : Nat × Definition × String) : Except LedgerError Report × Floor :=
  let (index, definition, error) := failure
  let message := s!"sub-task '{definition.name}' failed: {error}"
  let floor := floor.notice (.pipelineStopped id index message)
  match settleRecord id (.failed message) floor with
  | .error error => (.error error, floor)
  | .ok (record, floor) =>
    ( .ok
        { status := .failed
          succeeded := succeeded members
          failed := 1
          events := events members
          error := some message
          record },
      floor)

/-- The end of a sequential run whose members have all succeeded. -/
def concludeCompleted (id : String) (floor : Floor) (members : List (Member σ)) :
    Except LedgerError Report × Floor :=
  let succeeded := succeeded members
  match settleRecord id .completed floor with
  | .error error => (.error error, floor)
  | .ok (record, floor) =>
    ( .ok
        { status := .completed
          succeeded
          failed := 0
          events := events members
          error := none
          record },
      (publish record floor).notice (.pipelineCompleted id succeeded))

/-- The end of a run, if its members have come to one. -/
def conclude (order : Order) (id : String) (floor : Floor) (members : List (Member σ)) :
    Option (Except LedgerError Report × Floor) :=
  let allSettled := members.all fun member => member.phase.settlement?.isSome
  match order with
  | .parallel _ => if allSettled then some (concludeParallel id floor members) else none
  | .sequential =>
    match firstFailure? members with
    | some failure => some (concludeStopped id floor members failure)
    | none => if allSettled then some (concludeCompleted id floor members) else none

/-- A run after a stretch. -/
structure Step (σ : Type) where
  run : Run σ
  /-- The values of the run's session. -/
  state : KeyMap String
  world : World
  /-- What came of the run, if it has ended. -/
  result : Option (Except RunError Report)

/-- Visits the members of a run that is under way, and ends it if they have come to an end. -/
def visitAll (run : Run σ) (polls : List (Poll σ)) (turn : Turn) (context : Context)
    (floor : Floor) : Step σ :=
  let scope : Scope := ⟨run.plan, context, turn⟩
  let pairs := run.members.zip polls
  let (floor, members) :=
    match run.plan.order with
    | .parallel _ => Member.sweep scope 0 floor pairs
    | .sequential => Member.walk scope 0 floor pairs
  match conclude run.plan.order context.session.id floor members with
  | none => ⟨⟨run.plan, .open floor.gate floor.own, members⟩, floor.state, floor.world, none⟩
  | some (result, floor) =>
    ⟨⟨run.plan, .closed, members⟩, floor.state, floor.world, some (result.mapError .ledger)⟩

/-- Gives a run a stretch; `polls` are what the members do, in their order. -/
def poll (run : Run σ) (polls : List (Poll σ)) (turn : Turn) (context : Context)
    (world : World) : Step σ :=
  match run.stage with
  | .fresh =>
    match run.open context world with
    | .error (error, world) => ⟨{ run with stage := .closed }, context.state, world, some (.error error)⟩
    | .ok floor => run.visitAll polls turn context floor
  | .open gate own =>
    run.visitAll polls turn context ⟨context.state, run.isKeyed, own, gate, world⟩
  | .closed => ⟨run, context.state, world, none⟩

/-- A task that is dropped before its end: what that does to the surroundings. -/
abbrev Abandon := World → World

/-- Abandons a member of a parallel run that has not settled. -/
def abandonMember (workflow : String) (world : World) (member : Member σ × Abandon) : World :=
  match member.1.phase with
  | .waiting => world.measure [.waitEnded workflow]
  | .running .. => (member.2 world).measure [.slotFreed workflow]
  | _ => world

/-- Abandons a member of a sequential run that has not settled. -/
def abandonInLine (world : World) (member : Member σ × Abandon) : World :=
  match member.1.phase with
  | .running .. => member.2 world
  | _ => world

/-- Drops a run before its end: the members that have not settled, in their order. -/
def abandon (run : Run σ) (abandons : List Abandon) (world : World) : World :=
  match run.stage with
  | .open .. =>
    match run.plan.order with
    | .parallel _ => (run.members.zip abandons).foldl (abandonMember run.plan.name) world
    | .sequential => (run.members.zip abandons).foldl abandonInLine world
  | _ => world

/-- Cancels a run at its deadline: abandons the members that have not settled
and marks the record. -/
def cancel (run : Run σ) (abandons : List Abandon) (deadline : Nat) (context : Context)
    (world : World) : Except RunError Report × World :=
  let world := run.abandon abandons world
  let id := context.session.id
  let succeeded := succeeded run.members
  let failed := failed run.members
  let abandoned := run.members.length - (settlements run.members).length
  let own :=
    match run.stage with
    | .open _ own => own
    | _ => none
  match settleRecord id .cancelled ⟨context.state, run.isKeyed, own, Gate.ofCapacity 0, world⟩ with
  | .error error => (.error (.ledger error), world)
  | .ok (record, floor) =>
    ( .ok
        { status := .cancelled
          succeeded, failed
          events := events run.members
          error := none
          record },
      (floor.notice (.fanOutTimedOut id deadline succeeded failed abandoned)).world)

end Run

end Coordination
