import Coordination.KeyMap
import Coordination.Timestamp

/-!
# Records of workflows

What is kept of one run of a workflow: who runs it, where it stands, the
outputs published so far and one execution for each sub-task that settled.
-/

namespace Coordination

/-- Where a workflow stands. It leaves `running` once and for good. -/
inductive RunStatus where
  | running
  | completed
  | failed
  | cancelled
  deriving DecidableEq, Repr

namespace RunStatus

/-- The name of a status. -/
def name : RunStatus → String
  | running => "running"
  | completed => "completed"
  | failed => "failed"
  | cancelled => "cancelled"

/-- Whether nothing more is to come. -/
def isSettled : RunStatus → Bool
  | running => false
  | _ => true

/-- All statuses. -/
def all : List RunStatus := [running, completed, failed, cancelled]

end RunStatus

/-- How an execution of a sub-task ended. -/
inductive ExecutionStatus where
  | success
  | failed
  deriving DecidableEq, Repr

namespace ExecutionStatus

/-- The name of a status. -/
def name : ExecutionStatus → String
  | success => "success"
  | failed => "failed"

/-- All statuses. -/
def all : List ExecutionStatus := [success, failed]

end ExecutionStatus

/-- An execution that has started. -/
structure Draft where
  /-- The place of the sub-task in its workflow. -/
  index : Nat
  taskName : String
  taskNamespace : String
  sessionId : String
  outputKey : Option String
  startedAt : Timestamp
  deriving DecidableEq, Repr

/-- An execution that has ended. -/
structure Execution extends Draft where
  completedAt : Timestamp
  status : ExecutionStatus
  /-- The length of the published output in bytes; zero if there is none. -/
  outputSize : Nat
  error : Option String
  /-- The place among the successful executions, counted from one. -/
  completionOrder : Option Nat
  deriving DecidableEq, Repr

/-- Whether the execution succeeded. -/
def Execution.isSuccess (e : Execution) : Bool := e.status = .success

/-- What is kept of one run of a workflow. -/
structure Record where
  id : String
  owner : String
  workflowName : String
  «namespace» : String
  /-- The published outputs by key. -/
  outputs : KeyMap String
  /-- The executions that ended, in the order of their ends. -/
  executions : List Execution
  status : RunStatus
  errorMessage : Option String
  createdAt : Timestamp
  updatedAt : Timestamp
  completedAt : Option Timestamp
  /-- The number of successful executions. -/
  completions : Nat
  deriving DecidableEq, Repr

/-- How a workflow is brought to its end. -/
inductive Verdict where
  | completed
  | failed (message : String)
  | cancelled
  deriving DecidableEq, Repr

namespace Verdict

/-- The status that a verdict gives. -/
def status : Verdict → RunStatus
  | completed => .completed
  | failed _ => .failed
  | cancelled => .cancelled

/-- The message that a verdict leaves. -/
def message : Verdict → Option String
  | failed message => some message
  | _ => none

end Verdict

namespace Record

/-- The record of a workflow that starts now. -/
def start (now : Timestamp) (id owner workflowName «namespace» : String) : Record where
  id
  owner
  workflowName
  «namespace»
  outputs := .empty
  executions := []
  status := .running
  errorMessage := none
  createdAt := now
  updatedAt := now
  completedAt := none
  completions := 0

/-- The record with an output. -/
def publish (record : Record) (now : Timestamp) (key value : String) : Record :=
  { record with outputs := record.outputs.insert key value, updatedAt := now }

/-- The record with one more execution. -/
def append (record : Record) (now : Timestamp) (execution : Execution) : Record :=
  { record with executions := record.executions ++ [execution], updatedAt := now }

/-- The record at its end. -/
def settle (record : Record) (now : Timestamp) (verdict : Verdict) : Record :=
  { record with
    status := verdict.status
    errorMessage := verdict.message
    completedAt := some now
    updatedAt := now }

end Record

end Coordination
