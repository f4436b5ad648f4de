import Coordination.Gate

/-!
# The desk at a gate

A desk keeps the requests for admission to a gate. A request does nothing
until it is first asked. It may come with a signal that calls it off. Waking
marks the requests for which something changed since they were last asked.

`Desk.apply` carries out one step: make a request, ask it, call it off, drop
it, or give back the slot that it got.
-/

namespace Coordination

/-- A request for admission that has not been answered for good. -/
structure Request where
  id : String
  /-- Whether its signal was given; none if it has no signal. -/
  signal : Option Bool
  /-- Whether it was asked before, and so waits at the gate. -/
  asked : Bool
  /-- Whether something changed for it since it was last asked. -/
  woken : Bool
  deriving DecidableEq, Repr

namespace Request

/-- Whether the request was called off. -/
def isCalledOff (request : Request) : Bool := request.signal = some true

end Request

/-- A gate and the requests made of it. -/
structure Desk where
  /-- The name under which measurements are made. -/
  label : String
  gate : Gate String
  /-- The requests that are open, in the order in which they were made. -/
  requests : List Request
  deriving DecidableEq, Repr

namespace Desk

/-- What a step is answered. -/
inductive Reply where
  | created
  | pending
  | admitted
  | cancelled
  | fired
  | noSignal
  | dropped
  | released
  | noRequest
  | noSlot
  deriving DecidableEq, Repr

/-- The answer to a request that was called off. -/
def cancelledMessage : String := "admission cancelled"

/-- The name of a reply. -/
def Reply.name : Reply → String
  | created => "created"
  | pending => "pending"
  | admitted => "admitted"
  | cancelled => cancelledMessage
  | fired => "fired"
  | noSignal => "no-cancel"
  | dropped => "dropped"
  | released => "released"
  | noRequest => "no-such-waiter"
  | noSlot => "no-such-permit"

/-- A step at a desk. -/
inductive Step where
  /-- Makes a request, with a signal that may have been given already. -/
  | create (id : String) (signal : Option Bool)
  /-- Makes a request and asks it. -/
  | acquire (id : String) (signal : Option Bool)
  | poll (id : String)
  | cancel (id : String)
  | drop (id : String)
  | release (id : String)
  deriving DecidableEq, Repr

/-- The desk of a gate without requests. -/
def ofGate (label : String) (gate : Gate String) : Desk := ⟨label, gate, []⟩

/-- The open request of an id. -/
def request? (desk : Desk) (id : String) : Option Request :=
  desk.requests.find? fun request => request.id = id

/-- The desk without the request of an id. -/
def close (desk : Desk) (id : String) : Desk :=
  { desk with requests := desk.requests.filter fun request => request.id ≠ id }

/-- The desk with a change to the request of an id. -/
def update (desk : Desk) (id : String) (change : Request → Request) : Desk :=
  { desk with
    requests := desk.requests.map fun request =>
      if request.id = id then change request else request }

/-- Wakes the waiting requests that a new state of the gate hands a slot. -/
def wake (desk : Desk) (gate : Gate String) : Desk :=
  let fresh := gate.handed.filter fun id => id ∉ desk.gate.handed
  { desk with
    gate
    requests := desk.requests.map fun request =>
      if request.id ∈ fresh then { request with woken := true } else request }

/-- Makes a request unless its id names a request or a held slot. -/
def create (desk : Desk) (id : String) (signal : Option Bool) : Desk :=
  if (desk.request? id).isSome || desk.gate.holders.contains id then desk
  else { desk with requests := desk.requests ++ [⟨id, signal, false, false⟩] }

/-- Asks a request for the first time. A free slot counts before the signal. -/
def firstAsk (desk : Desk) (request : Request) : Reply × Desk × List Measurement :=
  if 0 < desk.gate.free then
    (.admitted, { desk.close request.id with gate := (desk.gate.enter request.id).2 },
      [.slotTaken desk.label])
  else if request.isCalledOff then
    (.cancelled, desk.close request.id, [.waitBegan desk.label, .waitEnded desk.label])
  else
    (.pending,
      { desk.update request.id fun request => { request with asked := true, woken := false } with
        gate := (desk.gate.enter request.id).2 },
      [.waitBegan desk.label])

/-- Asks a request that waits. The signal counts before a slot that was handed. -/
def askAgain (desk : Desk) (request : Request) : Reply × Desk × List Measurement :=
  if request.isCalledOff then
    (.cancelled, (desk.close request.id).wake (desk.gate.leave request.id),
      [.waitEnded desk.label])
  else
    match desk.gate.claim request.id with
    | (true, gate) =>
      (.admitted, { desk.close request.id with gate },
        [.slotTaken desk.label, .waitEnded desk.label])
    | (false, _) =>
      (.pending, desk.update request.id fun request => { request with woken := false }, [])

/-- Asks the request of an id. -/
def poll (desk : Desk) (id : String) : Reply × Desk × List Measurement :=
  match desk.request? id with
  | none => (.noRequest, desk, [])
  | some request => if request.asked then desk.askAgain request else desk.firstAsk request

/-- Gives the signal of a request. -/
def cancel (desk : Desk) (id : String) : Reply × Desk :=
  match (desk.request? id).bind (·.signal) with
  | some false =>
    (.fired, desk.update id fun request =>
      { request with signal := some true, woken := request.woken || request.asked })
  | _ => (.noSignal, desk)

/-- Drops a request. -/
def drop (desk : Desk) (id : String) : Reply × Desk × List Measurement :=
  match desk.request? id with
  | none => (.noRequest, desk, [])
  | some request =>
    if request.asked then
      (.dropped, (desk.close id).wake (desk.gate.leave id), [.waitEnded desk.label])
    else (.dropped, desk.close id, [])

/-- Gives a slot back. -/
def release (desk : Desk) (id : String) : Reply × Desk × List Measurement :=
  if desk.gate.holders.contains id then
    (.released, desk.wake (desk.gate.release id), [.slotFreed desk.label])
  else (.noSlot, desk, [])

/-- Carries out a step: its answer, the desk after it, and what was measured. -/
def apply (desk : Desk) : Step → Reply × Desk × List Measurement
  | .create id signal => (.created, desk.create id signal, [])
  | .acquire id signal => (desk.create id signal).poll id
  | .poll id => desk.poll id
  | .cancel id => let (reply, desk) := desk.cancel id; (reply, desk, [])
  | .drop id => desk.drop id
  | .release id => desk.release id

/-- The ids of the woken requests, in ascending order. -/
def woken (desk : Desk) : List String :=
  (KeyMap.ofList ((desk.requests.filter (·.woken)).map fun request => (request.id, ()))).keys

/-- The steps that clear the desk: all requests, then all slots, by ascending id. -/
def closing (desk : Desk) : List Step :=
  let ascending (ids : List String) : List String :=
    (KeyMap.ofList (ids.map fun id => (id, ()))).keys
  (ascending (desk.requests.map (·.id))).map .drop ++
    (ascending desk.gate.holders).map .release

/-- Carries out steps one after another: the answers, each with the desk after
its step, and all that was measured. -/
def run (desk : Desk) : List Step → List (Reply × Desk) × List Measurement
  | [] => ([], [])
  | step :: steps =>
    let (reply, desk, measured) := desk.apply step
    let (replies, later) := desk.run steps
    ((reply, desk) :: replies, measured ++ later)

end Desk

end Coordination
