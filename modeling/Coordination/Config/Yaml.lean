import Coordination.Config
import Coordination.Yaml.Fields
import Coordination.Yaml.Node.OfTokens

/-!
# Configurations as YAML

* `Config.ofYaml`: the configuration that a text is;
* `Config.ofFile`: the same from the bytes of a file.
-/

namespace Coordination

open Yaml (Document Node)

/-- The sub-task that a node describes. -/
def Definition.ofNode? (document : Document) (node : Node) : Option Definition := do
  let slots ← document.slots [["name"], ["namespace"], ["output_key"], ["instruction"]] node
  return {
    name := ← document.required slots 0 Node.asText
    «namespace» := ← document.orElse slots 1 none Node.asText?
    outputKey := ← document.orElse slots 2 none Node.asText?
    instruction := ← document.orElse slots 3 none Node.asText? }

/-- The type that a node names. -/
def WorkflowType.ofNode? : Node → Option WorkflowType :=
  Node.asName (all.map fun type => (type.name, type))

namespace Config

/-- The configuration that a document is. -/
def ofDocument? (document : Document) : Option Config := do
  let slots ← document.slots
    [["name"], ["description"], ["namespace"], ["type", "workflow_type"], ["max_workers"],
      ["max_value_bytes"], ["sub_tasks"]] document.root
  let name ← document.required slots 0 Node.asText
  let default := ofName name
  return {
    name
    description := ← document.orElse slots 1 default.description Node.asText
    «namespace» := ← document.orElse slots 2 default.namespace Node.asText
    type := ← document.orElse slots 3 default.type WorkflowType.ofNode?
    maxWorkers := ← document.orElse slots 4 default.maxWorkers Node.asWord
    maxValueBytes := ← document.orElse slots 5 default.maxValueBytes Node.asWord
    subTasks := ← document.orElse slots 6 default.subTasks fun node => do
      (← node.asItems).mapM (Definition.ofNode? document) }

/-- The configuration that a text is. -/
def ofYaml (text : String) : Except ConfigError Config :=
  match Document.ofText text.toList with
  | .ok (some document) =>
    match ofDocument? document with
    | some config => .ok config
    | none => .error .malformed
  | _ => .error .malformed

/-- The configuration that a file is, given its bytes if there is such a file. -/
def ofFile : Option ByteArray → Except ConfigError Config
  | none => .error (.unreadable .missing)
  | some bytes =>
    match String.fromUTF8? bytes with
    | none => .error (.unreadable .notUtf8)
    | some text => ofYaml text

end Config

end Coordination
