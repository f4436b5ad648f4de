import Coordination.Yaml.Glyph

/-!
# Gaps

What stands between two words of a plain or quoted scalar. Blanks within a line
are kept. Around the end of a line they are not: one end of a line is read as
a space, and of more than one the first is left out.
-/

namespace Coordination.Yaml

/-- What stands between two words of a scalar. -/
inductive Gap where
  /-- Blanks within a line, in reverse. -/
  | blanks (reversed : List Char)
  /-- Ends of lines: the first, unless an escape hides it, and the others in reverse. -/
  | lines (first : Option Char) (reversed : List Char)
  deriving DecidableEq, Repr

namespace Gap

/-- No gap. -/
def empty : Gap := blanks []

/-- A gap that is an end of a line behind a backslash. -/
def escaped : Gap := lines none []

/-- Whether a line ends in the gap. -/
def isBroken : Gap → Bool
  | blanks _ => false
  | lines _ _ => true

/-- The gap with one more glyph, a blank or the end of a line. -/
def push (gap : Gap) (g : Glyph) : Gap :=
  match gap with
  | blanks reversed => if g.isBreak then lines (some g.char) [] else blanks (g.char :: reversed)
  | lines first reversed => if g.isBreak then lines first (g.char :: reversed) else gap

/-- What the gap is read as. -/
def text : Gap → List Char
  | blanks reversed => reversed.reverse
  | lines (some '\n') [] => [' ']
  | lines (some '\n') reversed => reversed.reverse
  | lines first reversed => first.toList ++ reversed.reverse

end Gap

end Coordination.Yaml
