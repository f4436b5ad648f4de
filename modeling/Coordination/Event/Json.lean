import Coordination.Event
import Coordination.Json.Fields

/-!
# The JSON form of events
-/

namespace Coordination

/-- The greatest number of arrays and objects inside one another in metadata. -/
def Event.maxMetadataDepth : Nat := 125

/-- Metadata: an object, of which each member is taken as data. -/
def Event.readMetadata : Json → Option (KeyMap Json)
  | .object members =>
    if Json.depthOfMembers members ≤ maxMetadataDepth then
      (Json.normalizeMembers members).map .ofList
    else none
  | _ => none

namespace EventError

/-- The JSON form of an error mark. -/
def toJson (error : EventError) : Json :=
  .ofMembers [("code", .string error.code), ("message", .string error.message)]

/-- The error mark that a value is the form of. -/
def ofJson? (value : Json) : Option EventError := do
  let slots ← Json.Slots.read [["code"], ["message"]] value
  return ⟨← slots.required 0 Json.asString, ← slots.required 1 Json.asString⟩

end EventError

namespace Event

/-- The JSON form of an event. An error mark and metadata that are not there are left out. -/
def toJson (event : Event) : Json :=
  .ofMembers
    ([("author", .string event.author), ("parts", .array (event.parts.map .string))] ++
      event.error.toList.map (fun error => ("error", error.toJson)) ++
      if event.metadata.isEmpty then [] else [("metadata", .ofKeyMap id event.metadata)])

/-- The event that a value is the form of. -/
def ofJson? (value : Json) : Option Event := do
  let slots ← Json.Slots.read [["author"], ["parts"], ["error"], ["metadata"]] value
  return {
    author := ← slots.required 0 Json.asString
    parts := ← slots.required 1 (Json.asList Json.asString)
    error := ← slots.orElse 2 none (Json.Slots.nullable EventError.ofJson?)
    metadata := ← slots.orElse 3 .empty readMetadata }

end Event

end Coordination
