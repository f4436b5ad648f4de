/-!
# Faults

Why a YAML text cannot be read.
-/

namespace Coordination.Yaml

/-- Why a text cannot be read. -/
inductive Fault where
  /-- A character that may not stand in a text. -/
  | control
  /-- A character that starts nothing. -/
  | start
  /-- A tab where only spaces may indent. -/
  | tab
  /-- A key without its colon. -/
  | colon
  /-- An entry, a key or a value where none may start. -/
  | misplaced
  /-- A colon inside a word between brackets. -/
  | flowColon
  /-- A quoted scalar that does not end. -/
  | unterminated
  /-- A document mark inside a quoted scalar. -/
  | documentMark
  /-- An escape that stands for no character. -/
  | escape
  /-- What follows the mark of a block scalar. -/
  | header
  /-- A tag, or the handle of one. -/
  | tag
  /-- The name of an anchor or an alias. -/
  | anchor
  /-- A line with a percent sign in front. -/
  | directive
  /-- A token that does not fit what came before. -/
  | unexpected
  /-- More collections inside each other than may be. -/
  | depth
  deriving DecidableEq, Repr

end Coordination.Yaml
