import Coordination.Json.Value

/-!
# What a run lets others observe

Measurements and notices, each a value of the domain with its outward form
beside it, and notes that sub-tasks leave. A `Journal` holds all of them in
the order in which they were made.
-/

namespace Coordination

/-- How a measurement changes the series that it belongs to. -/
inductive Change where
  /-- A level is set to a value. -/
  | set (value : Nat)
  /-- A level rises by one. -/
  | rise
  /-- A level falls by one. -/
  | fall
  /-- A counter goes up by one. -/
  | count
  /-- A duration is added to a distribution. -/
  | sample
  deriving DecidableEq, Repr

/-- Something measured. -/
inductive Measurement where
  /-- The number of slots of a gate became known. -/
  | slots (workflow : String) (capacity : Nat)
  /-- A sub-task began to wait for a slot. -/
  | waitBegan (workflow : String)
  /-- A sub-task no longer waits for a slot. -/
  | waitEnded (workflow : String)
  /-- A sub-task took a slot. -/
  | slotTaken (workflow : String)
  /-- A sub-task gave its slot back. -/
  | slotFreed (workflow : String)
  /-- An output was published. -/
  | outputWritten (workflow «namespace» : String)
  /-- A commit waited for its turn. -/
  | turnAwaited (workflow : String)
  deriving DecidableEq, Repr

/-- The kinds of series. -/
inductive SeriesKind where
  | counter
  | histogram
  | gauge
  deriving DecidableEq, Repr

/-- What a series measures. -/
structure Series where
  kind : SeriesKind
  name : String
  unit : Option String
  description : String
  deriving DecidableEq, Repr

namespace Series

/-- Published outputs. -/
def stateWrites : Series :=
  ⟨.counter, "fanout_state_writes_total", none, "Output values committed to the aggregation store"⟩

/-- Waits for the turn to commit. -/
def lockWait : Series :=
  ⟨.histogram, "fanout_lock_wait_seconds", some "seconds", "Wait for a workflow's commit lock"⟩

/-- Sub-tasks that wait. -/
def queueDepth : Series :=
  ⟨.gauge, "fanout_queue_depth", none, "Sub-tasks waiting for an admission slot"⟩

/-- Sub-tasks that hold a slot. -/
def activeExecutions : Series :=
  ⟨.gauge, "fanout_active_executions", none, "Sub-tasks holding an admission slot"⟩

/-- Slots. -/
def maxWorkers : Series :=
  ⟨.gauge, "fanout_max_workers", none, "Configured admission slots"⟩

/-- All series, in the order in which they are described. -/
def all : List Series := [stateWrites, lockWait, queueDepth, activeExecutions, maxWorkers]

/-- The upper bounds, in microseconds, by which waits to commit are grouped. -/
def lockWaitBuckets : List Nat := [1, 5, 10, 50, 100, 500, 1000, 5000, 10000, 50000, 100000]

end Series

namespace Measurement

/-- The series that a measurement belongs to. -/
def series : Measurement → Series
  | slots .. => .maxWorkers
  | waitBegan _ | waitEnded _ => .queueDepth
  | slotTaken _ | slotFreed _ => .activeExecutions
  | outputWritten .. => .stateWrites
  | turnAwaited _ => .lockWait

/-- What a measurement does to its series. -/
def change : Measurement → Change
  | slots _ capacity => .set capacity
  | waitBegan _ | slotTaken _ => .rise
  | waitEnded _ | slotFreed _ => .fall
  | outputWritten .. => .count
  | turnAwaited _ => .sample

/-- The labels of a measurement. -/
def labels : Measurement → List (String × String)
  | slots workflow _ | waitBegan workflow | waitEnded workflow | slotTaken workflow
  | slotFreed workflow | turnAwaited workflow => [("workflow", workflow)]
  | outputWritten workflow «namespace» => [("workflow", workflow), ("namespace", «namespace»)]

end Measurement

/-- How grave a notice is. -/
inductive Level where
  | info
  | warn
  | error
  deriving DecidableEq, Repr

/-- Something worth a line in a log. -/
inductive Notice where
  /-- The scope of one sub-task of a run was opened. -/
  | scope (workflowId : String) (index : Nat) (task outputKey : String)
  | fanOutStarted (workflowId workflow : String) (subTasks maxWorkers : Nat) (keyed : Bool)
  /-- A run without output keys came to its end. -/
  | fanOutSettled (workflowId : String) (succeeded failed : Nat)
  | fanOutPublished (workflowId : String) (succeeded failed outputs : Nat)
  /-- No sub-task of the run succeeded. -/
  | fanOutFailed (workflowId : String) (failed : Nat) (message : String)
  | fanOutTimedOut (workflowId : String) (deadline succeeded failed abandoned : Nat)
  | pipelineStarted (workflowId workflow : String) (subTasks : Nat) (keyed : Bool)
  | pipelineStopped (workflowId : String) (index : Nat) (message : String)
  | pipelineCompleted (workflowId : String) (succeeded : Nat)
  | subTaskFailed (error : String)
  | failureNotRecorded (error : String)
  | workflowBuilt (workflow workflowType : String) (subTasks : Nat)
  deriving DecidableEq, Repr

namespace Notice

/-- How grave a notice is; none for a scope. -/
def level : Notice → Option Level
  | scope .. => none
  | fanOutStarted .. | fanOutSettled .. | fanOutPublished .. | pipelineStarted ..
  | pipelineCompleted .. | workflowBuilt .. => some .info
  | fanOutTimedOut .. | subTaskFailed _ => some .warn
  | fanOutFailed .. | pipelineStopped .. | failureNotRecorded _ => some .error

/-- The wording of a notice, or the name of a scope. -/
def message : Notice → String
  | scope .. => "sub_task"
  | fanOutStarted .. => "Starting parallel fan-out"
  | fanOutSettled .. => "Parallel fan-out settled"
  | fanOutPublished .. => "Parallel fan-out completed, outputs published"
  | fanOutFailed _ _ message => message
  | fanOutTimedOut .. => "Parallel fan-out timed out, in-flight sub-tasks abandoned"
  | pipelineStarted .. => "Starting sequential pipeline"
  | pipelineStopped _ _ message => "Sequential pipeline stopped: " ++ message
  | pipelineCompleted .. => "Sequential pipeline completed"
  | subTaskFailed _ => "Sub-task failed"
  | failureNotRecorded _ => "Failed to record sub-task failure"
  | workflowBuilt .. => "Built workflow from config"

/-- What a notice tells beside its wording. -/
def fields : Notice → List (String × Json)
  | scope workflowId index task outputKey =>
    [("workflow_id", .string workflowId), ("index", .ofNat index), ("task", .string task),
      ("output_key", .string outputKey)]
  | fanOutStarted workflowId workflow subTasks maxWorkers keyed =>
    [("workflow_id", .string workflowId), ("workflow", .string workflow),
      ("sub_tasks", .ofNat subTasks), ("max_workers", .ofNat maxWorkers), ("keyed", .bool keyed)]
  | fanOutSettled workflowId succeeded failed =>
    [("workflow_id", .string workflowId), ("succeeded", .ofNat succeeded),
      ("failed", .ofNat failed)]
  | fanOutPublished workflowId succeeded failed outputs =>
    [("workflow_id", .string workflowId), ("succeeded", .ofNat succeeded),
      ("failed", .ofNat failed), ("outputs", .ofNat outputs)]
  | fanOutFailed workflowId failed _ =>
    [("workflow_id", .string workflowId), ("failed", .ofNat failed)]
  | fanOutTimedOut workflowId deadline succeeded failed abandoned =>
    [("workflow_id", .string workflowId), ("deadline_ms", .ofNat deadline),
      ("succeeded", .ofNat succeeded), ("failed", .ofNat failed), ("abandoned", .ofNat abandoned)]
  | pipelineStarted workflowId workflow subTasks keyed =>
    [("workflow_id", .string workflowId), ("workflow", .string workflow),
      ("sub_tasks", .ofNat subTasks), ("keyed", .bool keyed)]
  | pipelineStopped workflowId index _ =>
    [("workflow_id", .string workflowId), ("index", .ofNat index)]
  | pipelineCompleted workflowId succeeded =>
    [("workflow_id", .string workflowId), ("succeeded", .ofNat succeeded)]
  | subTaskFailed error => [("error", .string error)]
  | failureNotRecorded error => [("error", .string error)]
  | workflowBuilt workflow workflowType subTasks =>
    [("workflow", .string workflow), ("workflow_type", .string workflowType),
      ("sub_tasks", .ofNat subTasks)]

end Notice

/-- What a sub-task left in writing: when, in which session, who and what. -/
structure Note where
  time : Nat
  sessionId : String
  task : String
  text : String
  deriving DecidableEq, Repr

/-- All that was observed, in the order in which it was made. -/
structure Journal where
  measurements : List Measurement
  notices : List Notice
  notes : List Note
  deriving DecidableEq, Repr

namespace Journal

/-- The journal before the first entry. -/
def empty : Journal := ⟨[], [], []⟩

/-- The journal with more measurements. -/
def measure (journal : Journal) (measurements : List Measurement) : Journal :=
  { journal with measurements := journal.measurements ++ measurements }

/-- The journal with one more notice. -/
def notice (journal : Journal) (notice : Notice) : Journal :=
  { journal with notices := journal.notices ++ [notice] }

/-- The journal with one more note. -/
def note (journal : Journal) (note : Note) : Journal :=
  { journal with notes := journal.notes ++ [note] }

end Journal

end Coordination
