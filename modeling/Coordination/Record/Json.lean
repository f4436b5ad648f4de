import Coordination.Json.Fields
import Coordination.Record

/-!
# The JSON form of records
-/

namespace Coordination

namespace Timestamp

/-- The JSON form of a point in time: its text. -/
def toJson (t : Timestamp) : Json := .string t.write

/-- The point in time that a value is the form of. -/
def ofJson? (value : Json) : Option Timestamp := do read (← Json.asString value)

end Timestamp

namespace RunStatus

/-- The JSON form of a status: its name. -/
def toJson (status : RunStatus) : Json := .string status.name

/-- The status that a value is the form of. -/
def ofJson? : Json → Option RunStatus := Json.asName (all.map fun status => (status.name, status))

end RunStatus

namespace ExecutionStatus

/-- The JSON form of a status: its name. -/
def toJson (status : ExecutionStatus) : Json := .string status.name

/-- The status that a value is the form of. -/
def ofJson? : Json → Option ExecutionStatus :=
  Json.asName (all.map fun status => (status.name, status))

end ExecutionStatus

namespace Execution

/-- The JSON form of an execution. -/
def toJson (e : Execution) : Json :=
  .ofMembers
    [("index", .ofNat e.index), ("task_name", .string e.taskName),
      ("task_namespace", .string e.taskNamespace), ("session_id", .string e.sessionId),
      ("output_key", .ofOption .string e.outputKey), ("started_at", e.startedAt.toJson),
      ("completed_at", e.completedAt.toJson), ("status", e.status.toJson),
      ("output_size_bytes", .ofNat e.outputSize), ("error", .ofOption .string e.error),
      ("completion_order", .ofOption .ofNat e.completionOrder)]

/-- The execution that a value is the form of. -/
def ofJson? (value : Json) : Option Execution := do
  let slots ← Json.Slots.read
    [["index"], ["task_name"], ["task_namespace"], ["session_id"], ["output_key"], ["started_at"],
      ["completed_at"], ["status"], ["output_size_bytes"], ["error"], ["completion_order"]] value
  return {
    index := ← slots.required 0 (Json.asNat Text.maxWord)
    taskName := ← slots.required 1 Json.asString
    taskNamespace := ← slots.required 2 Json.asString
    sessionId := ← slots.required 3 Json.asString
    outputKey := ← slots.optional 4 Json.asString
    startedAt := ← slots.required 5 Timestamp.ofJson?
    completedAt := ← slots.required 6 Timestamp.ofJson?
    status := ← slots.required 7 ExecutionStatus.ofJson?
    outputSize := ← slots.required 8 (Json.asNat Text.maxWord)
    error := ← slots.optional 9 Json.asString
    completionOrder := ← slots.optional 10 (Json.asNat Text.maxHalfWord) }

end Execution

namespace Record

/-- The JSON form of a record. -/
def toJson (r : Record) : Json :=
  .ofMembers
    [("id", .string r.id), ("owner", .string r.owner), ("workflow_name", .string r.workflowName),
      ("namespace", .string r.namespace), ("outputs", .ofKeyMap .string r.outputs),
      ("executions", .array (r.executions.map Execution.toJson)), ("status", r.status.toJson),
      ("error_message", .ofOption .string r.errorMessage), ("created_at", r.createdAt.toJson),
      ("updated_at", r.updatedAt.toJson),
      ("completed_at", .ofOption Timestamp.toJson r.completedAt),
      ("completions", .ofNat r.completions)]

/-- The record that a value is the form of. -/
def ofJson? (value : Json) : Option Record := do
  let slots ← Json.Slots.read
    [["id"], ["owner"], ["workflow_name"], ["namespace"], ["outputs"], ["executions"], ["status"],
      ["error_message"], ["created_at"], ["updated_at"], ["completed_at"], ["completions"]] value
  return {
    id := ← slots.required 0 Json.asString
    owner := ← slots.required 1 Json.asString
    workflowName := ← slots.required 2 Json.asString
    «namespace» := ← slots.required 3 Json.asString
    outputs := ← slots.required 4 (Json.asKeyMap Json.asString)
    executions := ← slots.required 5 (Json.asList Execution.ofJson?)
    status := ← slots.required 6 RunStatus.ofJson?
    errorMessage := ← slots.optional 7 Json.asString
    createdAt := ← slots.required 8 Timestamp.ofJson?
    updatedAt := ← slots.required 9 Timestamp.ofJson?
    completedAt := ← slots.optional 10 Timestamp.ofJson?
    completions := ← slots.orElse 11 0 (Json.asNat Text.maxHalfWord) }

end Record

end Coordination
