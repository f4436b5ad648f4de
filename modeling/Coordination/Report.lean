import Coordination.Error
import Coordination.Event
import Coordination.Record

/-!
# Reports

What a run of a workflow tells its caller.
-/

namespace Coordination

/-- What came of a run. -/
structure Report where
  status : RunStatus
  succeeded : Nat
  failed : Nat
  /-- The events of the sub-tasks, in the order of the sub-tasks. -/
  events : List Event
  error : Option String
  /-- The record of the run, if it kept one. -/
  record : Option Record
  deriving DecidableEq, Repr

namespace Report

/-- The message of a run in which every sub-task failed. -/
def allFailedMessage : String := "All parallel sub-tasks failed"

/-- Whether the run completed. -/
def isSuccess (report : Report) : Bool := report.status = .completed

/-- The published outputs, if the run kept a record. -/
def outputs (report : Report) : Option (KeyMap String) := report.record.map (·.outputs)

/-- All texts of the events. -/
def text (report : Report) : String := textOf report.events

/-- The events that report failures. -/
def failures (report : Report) : List Event := report.events.filter Event.isError

/-- The failure that a run is to the workflow around it, if it failed. -/
def failure? (report : Report) : Option TaskError :=
  if report.status = .failed then
    some (.ofMessage (report.error.getD allFailedMessage))
  else none

/-- What a run yields as a sub-task: the events, and then the failure if there is one. -/
def yields : Except RunError Report → List Event × Option TaskError
  | .ok report => (report.events, report.failure?)
  | .error error => ([], some (.failed error.failure))

end Report

end Coordination
