import Coordination.Json.Value
import Coordination.Slots
import Coordination.Text.Digit

/-!
# Reading values of a fixed shape

A value with declared fields is written as an object, or as an array of its
fields in their order. `Slots.read` matches what stands in the text to the
declared fields.
-/

namespace Coordination.Json

/-- A text. -/
def asString : Json → Option String
  | .string text => some text
  | _ => none

/-- A number written as an integer, from zero up to `max`. -/
def asNat (max : Nat) : Json → Option Nat
  | .number ⟨false, n, none⟩ => if n ≤ max then some n else none
  | _ => none

/-- A list of values. -/
def asList {α : Type} (read : Json → Option α) : Json → Option (List α)
  | .array items => items.mapM read
  | _ => none

/-- The members of an object, the last one where keys repeat. -/
def asKeyMap {α : Type} (read : Json → Option α) : Json → Option (KeyMap α)
  | .object members => do
    let entries ← members.mapM fun (key, value) => do return (← key, ← read value)
    return .ofList entries
  | _ => none

/-- One of some names: as a text, or as the only key of an object without a value. -/
def asName {α : Type} (names : List (String × α)) : Json → Option α
  | .string name => names.lookup name
  | .object [(some name, .null)] => names.lookup name
  | _ => none

/-- What stands for each declared field. -/
structure Slots where
  values : List (Option Json)
  /-- Whether the fields stand in their order, without names. -/
  positional : Bool

namespace Slots

/-- Matches a value to declared fields, each with the names it goes by. -/
def read (fields : List (List String)) : Json → Option Slots
  | .object members => do
    let members ← members.mapM fun (key, value) => do return (← key, value)
    return ⟨← Coordination.Slots.ofMembers fields members, false⟩
  | .array items =>
    if items.length ≤ fields.length then some ⟨items.map some, true⟩ else none
  | _ => none

/-- What stands for the field of an index. -/
def get? (slots : Slots) (index : Nat) : Option Json := slots.values[index]?.join

/-- A field that has to be there. -/
def required {α : Type} (slots : Slots) (index : Nat) (read : Json → Option α) : Option α := do
  read (← slots.get? index)

/-- A field with a default. -/
def orElse {α : Type} (slots : Slots) (index : Nat) (default : α) (read : Json → Option α) :
    Option α :=
  match slots.get? index with
  | none => some default
  | some value => read value

/-- A value that may be null. -/
def nullable {α : Type} (read : Json → Option α) : Json → Option (Option α)
  | .null => some none
  | value => (read value).map some

/-- A field that may be null, or left out where fields have names. -/
def optional {α : Type} (slots : Slots) (index : Nat) (read : Json → Option α) :
    Option (Option α) :=
  match slots.get? index with
  | none => if slots.positional then none else some none
  | some value => nullable read value

end Slots

end Coordination.Json
