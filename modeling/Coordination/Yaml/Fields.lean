import Coordination.Slots
import Coordination.Yaml.Node

/-!
# Reading nodes of a fixed shape

What a scalar means is said by the place it is read for: as a text, every
scalar is what it says, but a plain `null` is no text where none is needed.
-/

namespace Coordination.Yaml

/-- The words for nothing. -/
def nullWords : List String := ["null", "Null", "NULL", "~"]

/-- The number without a sign that a text is: hexadecimal, octal or binary behind its mark, or
decimal without a zero in front. -/
def wordOf? (text : String) : Option Nat :=
  let digits :=
    match text.toList with
    | '+' :: rest => rest
    | all => all
  let number :=
    match digits with
    | '0' :: 'x' :: rest => Text.ofDigits? 16 rest
    | '0' :: 'o' :: rest => Text.ofDigits? 8 rest
    | '0' :: 'b' :: rest => Text.ofDigits? 2 rest
    | ['0'] => some 0
    | '0' :: _ => none
    | all => Text.ofDigits? 10 all
  number.filter (· ≤ Text.maxWord)

namespace Node

/-- A text: what any scalar says. -/
def asText : Node → Option String
  | scalar _ _ text => some text
  | _ => none

/-- A text, or none for a plain scalar that is empty or a word for nothing. With the tag of
nothing it has to be such a word; with another tag it is a text. -/
def asText? : Node → Option (Option String)
  | scalar none .plain text => some (if text = "" ∨ text ∈ nullWords then none else some text)
  | scalar (some tag) .plain text =>
    if tag ≠ .core "null" then some (some text) else if text ∈ nullWords then some none else none
  | node => node.asText.map some

/-- A number without a sign: a plain scalar, or a literal one with the tag of integers. -/
def asWord : Node → Option Nat
  | scalar _ .plain text => wordOf? text
  | scalar (some tag) .literal text => if tag = .core "int" then wordOf? text else none
  | _ => none

/-- One of some names: as a scalar, or as a tag with nothing behind it. -/
def asName {α : Type} (names : List (String × α)) : Node → Option α
  | scalar tag style text =>
    match tag.bind Tag.local? with
    | none => names.lookup text
    | some name =>
      if style = .plain ∧ (text = "" ∨ text ∈ nullWords) then names.lookup name else none
  | _ => none

/-- The items of a sequence; a value left out has none. -/
def asItems : Node → Option (List Node)
  | sequence _ items => some items
  | scalar _ .plain "" => some []
  | _ => none

/-- The members of a mapping; a value left out has none. -/
def asMembers : Node → Option (List (Node × Node))
  | mapping _ members => some members
  | scalar _ .plain "" => some []
  | _ => none

end Node

namespace Document

/-- What a node says of declared fields; the keys of all its members are scalars. -/
def slots (document : Document) (fields : List (List String)) (node : Node) :
    Option (List (Option Node)) := do
  let members ← (document.follow node).asMembers
  Slots.ofMembers fields
    (← members.mapM fun (key, value) => do return (← (document.follow key).asText, value))

/-- A field that has to be there. -/
def required {α : Type} (document : Document) (slots : List (Option Node)) (index : Nat)
    (read : Node → Option α) : Option α := do
  read (document.follow (← slots[index]?.join))

/-- A field with a default. -/
def orElse {α : Type} (document : Document) (slots : List (Option Node)) (index : Nat)
    (default : α) (read : Node → Option α) : Option α :=
  match slots[index]?.join with
  | none => some default
  | some node => read (document.follow node)

end Document

end Coordination.Yaml
