import Coordination.Yaml.Tag

/-!
# Tokens

What a YAML text consists of once indentation has been turned into marks that
open and close collections.
-/

namespace Coordination.Yaml

/-- How a scalar is written. -/
inductive Style where
  | plain
  | quoted
  | literal
  | folded
  deriving DecidableEq, Repr

/-- A part of a text. -/
inductive Token where
  | version (major minor : Nat)
  /-- What a handle stands for in tags. -/
  | handle (handle stem : List Char)
  | documentStart
  | documentEnd
  | streamEnd
  /-- The start of a sequence by indentation. -/
  | blockSequence
  /-- The start of a mapping by indentation. -/
  | blockMapping
  /-- The end of a sequence or mapping by indentation. -/
  | blockEnd
  | openSequence
  | closeSequence
  | openMapping
  | closeMapping
  | comma
  | dash
  | key
  | value
  | alias (name : List Char)
  | anchor (name : List Char)
  | tag (name : TagName)
  | scalar (style : Style) (text : List Char)
  deriving DecidableEq, Repr

end Coordination.Yaml
