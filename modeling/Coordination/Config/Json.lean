import Coordination.Config
import Coordination.Json.Fields

/-!
# The JSON form of configurations
-/

namespace Coordination

namespace WorkflowType

/-- The JSON form of a type: its name. -/
def toJson (type : WorkflowType) : Json := .string type.name

/-- The type that a value is the form of. -/
def ofJson? : Json → Option WorkflowType := Json.asName (all.map fun type => (type.name, type))

end WorkflowType

namespace Definition

/-- The JSON form of a sub-task. What is not there is left out. -/
def toJson (definition : Definition) : Json :=
  let optional (name : String) (value : Option String) : List (String × Json) :=
    value.toList.map fun text => (name, .string text)
  .ofMembers
    ([("name", .string definition.name)] ++ optional "namespace" definition.namespace ++
      optional "output_key" definition.outputKey ++
      optional "instruction" definition.instruction)

/-- The sub-task that a value is the form of. -/
def ofJson? (value : Json) : Option Definition := do
  let slots ← Json.Slots.read [["name"], ["namespace"], ["output_key"], ["instruction"]] value
  return {
    name := ← slots.required 0 Json.asString
    «namespace» := ← slots.orElse 1 none (Json.Slots.nullable Json.asString)
    outputKey := ← slots.orElse 2 none (Json.Slots.nullable Json.asString)
    instruction := ← slots.orElse 3 none (Json.Slots.nullable Json.asString) }

end Definition

namespace Config

/-- The JSON form of a configuration. -/
def toJson (config : Config) : Json :=
  .ofMembers
    [("name", .string config.name), ("description", .string config.description),
      ("namespace", .string config.namespace), ("type", config.type.toJson),
      ("max_workers", .ofNat config.maxWorkers), ("max_value_bytes", .ofNat config.maxValueBytes),
      ("sub_tasks", .array (config.subTasks.map Definition.toJson))]

/-- The configuration that a value is the form of. -/
def ofJson? (value : Json) : Option Config := do
  let slots ← Json.Slots.read
    [["name"], ["description"], ["namespace"], ["type", "workflow_type"], ["max_workers"],
      ["max_value_bytes"], ["sub_tasks"]] value
  let name ← slots.required 0 Json.asString
  let default := ofName name
  return {
    name
    description := ← slots.orElse 1 default.description Json.asString
    «namespace» := ← slots.orElse 2 default.namespace Json.asString
    type := ← slots.orElse 3 default.type WorkflowType.ofJson?
    maxWorkers := ← slots.orElse 4 default.maxWorkers (Json.asNat Text.maxWord)
    maxValueBytes := ← slots.orElse 5 default.maxValueBytes (Json.asNat Text.maxWord)
    subTasks := ← slots.orElse 6 default.subTasks (Json.asList Definition.ofJson?) }

end Config

end Coordination
