import Coordination.Json.Value

/-!
# Events

What a sub-task yields while it runs: an author, texts in order, an error mark
if the event reports a failure, and metadata.
-/

namespace Coordination

/-- The error mark of an event. -/
structure EventError where
  code : String
  message : String
  deriving DecidableEq, Repr

/-- Something that a sub-task has to say. -/
structure Event where
  author : String
  parts : List String
  error : Option EventError
  metadata : KeyMap Json
  deriving DecidableEq, Repr

/-- Why metadata cannot be attached to an event. -/
inductive MetadataError where
  /-- An object in it has a key that is not a text. -/
  | keyNotText
  deriving DecidableEq, Repr

/-- The wording of an error. -/
def MetadataError.message : MetadataError → String
  | .keyNotText => "key must be a string"

namespace Event

/-- The code of the events that report a failed sub-task. -/
def failureCode : String := "SUB_TASK_ERROR"

/-- An event without content. -/
def empty (author : String) : Event := ⟨author, [], none, .empty⟩

/-- An event of one text. -/
def text (author content : String) : Event := ⟨author, [content], none, .empty⟩

/-- The event by which `author` reports that a sub-task failed. -/
def failure (author subTask message : String) : Event where
  author
  parts := [s!"Error in sub-task {subTask}: {message}"]
  error := some ⟨failureCode, message⟩
  metadata := .ofList [("sub_task", .string subTask), ("error", .bool true)]

/-- The event with one more text. -/
def withPart (event : Event) (part : String) : Event :=
  { event with parts := event.parts ++ [part] }

/-- The event with a piece of metadata. -/
def withMetadata (event : Event) (key : String) (value : Json) : Except MetadataError Event :=
  match value.normalize with
  | some value => .ok { event with metadata := event.metadata.insert key value }
  | none => .error .keyNotText

/-- The texts of the event that are not empty. -/
def fragments (event : Event) : List String := event.parts.filter fun part => !part.isEmpty

/-- Whether the event reports a failure. -/
def isError (event : Event) : Bool := event.error.isSome

end Event

/-- The texts of events that are not empty, a line break between any two. -/
def textOf (events : List Event) : String :=
  String.intercalate "\n" (events.flatMap Event.fragments)

end Coordination
