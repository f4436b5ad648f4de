import Coordination.Clock

/-!
# Scripts

A script is a sub-task written down as a list of actions. It delivers the
events that it emits one by one, all at its end, or as one text.

* `Script.body`: what a script does;
* `Script.pauses`: how often it waits.
-/

namespace Coordination

namespace Script

/-- A text, possibly one that depends on the context. -/
inductive Expr where
  | literal (text : String)
  /-- The value of the session at a key. -/
  | value (key : String)
  | instruction
  | sessionId
  | user
  | app
  /-- The number of values in the session. -/
  | size
  /-- All values of the session. -/
  | snapshot
  deriving DecidableEq, Repr

/-- What stands for a value that is not there. -/
def absent : String := "<none>"

/-- The text in a context. -/
def Expr.eval (context : Context) : Expr → String
  | literal text => text
  | value key => (context.state.get? key).getD absent
  | instruction => context.instruction.getD absent
  | sessionId => context.session.id
  | user => context.session.user
  | app => context.session.app
  | size => toString context.state.size
  | snapshot =>
    String.intercalate ";" (context.state.entries.map fun entry => entry.1 ++ "=" ++ entry.2)

/-- An event to be. -/
structure Emission where
  author : String
  parts : List Expr
  metadata : List (String × Json)

/-- The event in a context. -/
def Emission.event (emission : Emission) (context : Context) : Event where
  author := emission.author
  parts := emission.parts.map (·.eval context)
  error := none
  metadata := .ofList emission.metadata

/-- An action of a script. -/
inductive Action where
  | pause (millis : Nat)
  | log (text : String)
  | set (key : String) (value : Expr)
  /-- Operates on the shared ledger and logs how that went. -/
  | operate (op : Ledger.Op) (describe : Ledger.Reply → String)
  | fail (error : TaskError)
  | emit (emission : Emission)

/-- How a script delivers its events. -/
inductive Delivery where
  /-- Each when it is emitted. -/
  | streamed
  /-- All of them once the script has ended. -/
  | collected
  /-- All their texts as one event by an author, once the script has ended. -/
  | text (author : String)
  deriving DecidableEq, Repr

end Script

/-- A sub-task written down as a list of actions. -/
structure Script where
  /-- The name under which notes are made. -/
  task : String
  delivery : Script.Delivery
  actions : List Script.Action

namespace Script

/-- Yields events and ends. -/
def deliver (events : List Event) : Body := events.foldr .emit .finish

/-- The events that were held back, as they are delivered at the end. -/
def Delivery.held (delivery : Delivery) (events : List Event) : List Event :=
  match delivery with
  | streamed | collected => events
  | text author => [.text author (String.join (events.flatMap (·.parts)))]

/-- The error of a failed action, as it is delivered. -/
def Delivery.error (delivery : Delivery) (error : TaskError) : TaskError :=
  match delivery with
  | streamed | collected => error
  | text _ => .failed ⟨error.message, error.chain⟩

/-- What the rest of a script does, with the events held back so far. -/
def rest (script : Script) (held : List Event) : List Action → Body
  | [] => .note script.task "end" (deliver (script.delivery.held held))
  | .pause 0 :: actions => script.rest held actions
  | .pause millis :: actions => .pause millis (script.rest held actions)
  | .log text :: actions => .note script.task text (script.rest held actions)
  | .set key value :: actions =>
    .look fun context => .write key (value.eval context) (script.rest held actions)
  | .operate op describe :: actions =>
    .operate op fun reply => .note script.task ("store:" ++ describe reply) (script.rest held actions)
  | .fail error :: actions =>
    .note script.task "fail" (.fail (script.delivery.error error) (script.rest held actions))
  | .emit emission :: actions =>
    .look fun context =>
      match script.delivery with
      | .streamed => .emit (emission.event context) (script.rest held actions)
      | _ => script.rest (held ++ [emission.event context]) actions

/-- What a script does. -/
def body (script : Script) : Body := .note script.task "start" (script.rest [] script.actions)

/-- How often a script waits. -/
def pauses (script : Script) : Nat :=
  script.actions.countP fun
    | .pause millis => 0 < millis
    | _ => false

end Script

namespace Workflow

/-- The workflow over what its scripts do. -/
def bodies (workflow : Workflow (Task Script)) : Workflow (Task Body) :=
  ⟨workflow.plan, Task.mapMembers Script.body workflow.members⟩

/-- Runs a workflow of scripts by the clock, a parallel one within a time if one is given. -/
def runScripts (workflow : Workflow (Task Script)) (timeout : Option Nat) (context : Context)
    (world : World) : Option Finish :=
  workflow.bodies.run (Task.totalMembers Script.pauses workflow.members) timeout context world

end Workflow

end Coordination
