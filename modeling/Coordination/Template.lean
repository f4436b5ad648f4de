import Coordination.Error
import Coordination.Identifier
import Coordination.KeyMap

/-!
# Instruction templates

A template is a text with placeholders: an identifier directly between an
opening and a closing brace. Every other brace stands for itself. Filling in a
template puts the value of each placeholder's name in its place, in one pass:
the values are not looked at again.
-/

namespace Coordination.Template

/-- A piece of a template. -/
inductive Segment where
  /-- A character that stands for itself. -/
  | char (c : Char)
  /-- A placeholder and the name in it. -/
  | hole (name : String)
  deriving DecidableEq, Repr

/-- An opening brace and the characters after it, all standing for themselves. -/
def plain (reversed : List Char) : List Segment :=
  ('\x7b' :: reversed.reverse).map .char

/-- Splits a text into segments. The first argument is what was read since an
opening brace that may still turn out to start a placeholder, in reverse. -/
def split : Option (List Char) → List Char → List Segment
  | none, [] => []
  | some name, [] => plain name
  | none, c :: rest =>
    if c = '\x7b' then split (some []) rest else .char c :: split none rest
  | some name, c :: rest =>
    if c = '\x7d' ∧ name ≠ [] then .hole (String.ofList name.reverse) :: split none rest
    else if c = '\x7b' then plain name ++ split (some []) rest
    else if Identifier.goesOn name c then split (some (c :: name)) rest
    else plain name ++ .char c :: split none rest

/-- The segments of a template. -/
def segments (template : String) : List Segment := split none template.toList

/-- The name in a placeholder. -/
def Segment.name? : Segment → Option String
  | .char _ => none
  | .hole name => some name

/-- The names in the placeholders, each once, in the order of their first appearance. -/
def placeholders (template : String) : List String :=
  ((segments template).filterMap Segment.name?).eraseDups

/-- Puts a segment after a text, a placeholder as the value of its name. -/
def Segment.appendTo (state : KeyMap String) (text : String) : Segment → Except TemplateError String
  | .char c => .ok (text.push c)
  | .hole name =>
    match state.get? name with
    | some value => .ok (text ++ value)
    | none => .error (.missingKey name state.keys)

/-- The template with the value of its name in place of each placeholder; an
error that names the first placeholder without a value, if there is one. -/
def substitute (template : String) (state : KeyMap String) : Except TemplateError String :=
  (segments template).foldlM (Segment.appendTo state) ""

end Coordination.Template
