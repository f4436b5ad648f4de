import Coordination.Json.Token

/-!
# The value of a JSON text

Tokens are put together into one value with a stack of the arrays and objects
that are still open.
-/

namespace Coordination.Json

/-- An array or object that is still open, its parts in reverse. -/
inductive Frame where
  | array (reversed : List Json)
  /-- An object, with the key of the member whose value is being read. -/
  | object (reversed : List (Option String × Json)) (key : Option String)

/-- What has to come next. -/
inductive Expect where
  /-- A value. -/
  | value
  /-- A value or the end of the array just opened. -/
  | firstItem
  /-- A key or the end of the object just opened. -/
  | firstKey
  | key
  | colon
  /-- A comma or the end of what is open. -/
  | more
  deriving DecidableEq, Repr

/-- What has been read of a value. -/
inductive Build where
  /-- Still open. -/
  | going (expect : Expect) (stack : List Frame)
  /-- The whole value. -/
  | whole (value : Json)

namespace Build

/-- Puts a complete value where it belongs. -/
def put (value : Json) : List Frame → Build
  | [] => .whole value
  | .array reversed :: stack => .going .more (.array (value :: reversed) :: stack)
  | .object reversed key :: stack => .going .more (.object ((key, value) :: reversed) none :: stack)

/-- A value that is one token. -/
def scalar? : Token → Option Json
  | .null => some .null
  | .bool value => some (.bool value)
  | .number value => some (.number value)
  | .string (some value) => some (.string value)
  | .string none => some .unreadable
  | _ => none

/-- Reads a token where a value has to start. -/
def value? (token : Token) (stack : List Frame) : Option Build :=
  match token with
  | .openArray => some (.going .firstItem (.array [] :: stack))
  | .openObject => some (.going .firstKey (.object [] none :: stack))
  | token => (scalar? token).map fun value => put value stack

/-- Reads a token where a key has to stand. -/
def key? (token : Token) (stack : List Frame) : Option Build :=
  match token, stack with
  | .string key, .object reversed _ :: stack => some (.going .colon (.object reversed key :: stack))
  | _, _ => none

/-- Reads one token. -/
def step? (build : Build) (token : Token) : Option Build :=
  match build with
  | .whole _ => none
  | .going expect stack =>
    match expect, token, stack with
    | .firstItem, .closeArray, .array _ :: stack => some (put (.array []) stack)
    | .value, token, stack => value? token stack
    | .firstItem, token, stack => value? token stack
    | .firstKey, .closeObject, .object _ _ :: stack => some (put (.object []) stack)
    | .firstKey, token, stack => key? token stack
    | .key, token, stack => key? token stack
    | .colon, .colon, stack => some (.going .value stack)
    | .more, .comma, .array reversed :: stack => some (.going .value (.array reversed :: stack))
    | .more, .comma, .object reversed key :: stack =>
      some (.going .key (.object reversed key :: stack))
    | .more, .closeArray, .array reversed :: stack => some (put (.array reversed.reverse) stack)
    | .more, .closeObject, .object reversed _ :: stack =>
      some (put (.object reversed.reverse) stack)
    | _, _, _ => none

end Build

/-- The value of a JSON text; none if it is no JSON text. -/
def parse (text : String) : Option Json := do
  match ← (← tokens text).foldlM Build.step? (.going .value []) with
  | .whole value => some value
  | .going _ _ => none

end Coordination.Json
