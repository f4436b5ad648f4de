import Coordination.Yaml.Fault
import Coordination.Yaml.Gap

/-!
# Plain scalars

A scalar without quotes goes on as long as nothing starts something else: a
colon at the end of a word, a comment behind a gap, a structuring mark between
brackets, a document mark, or a line that is indented too little.
-/

namespace Coordination.Yaml

/-- A plain scalar that has been read. -/
structure Plain where
  text : List Char
  /-- Whether a line ends behind it. -/
  isBroken : Bool
  /-- The place behind it and the gap that follows. -/
  rest : List Glyph
  deriving DecidableEq, Repr

namespace Plain

/-- Whether the scalar is over in front of a glyph that is no blank: behind a gap, if its line is
indented too little or if a comment or a document mark starts there, and anywhere at the end of a
key or at a structuring mark between brackets. -/
def isOver (flow : Bool) (floor : Nat) (inWord : Bool) (g : Glyph) (rest : List Glyph) : Bool :=
  (!inWord && ((!flow && g.column < floor) || g.char = '#' || atDocumentMark (g :: rest))) ||
    (g.char = ':' && atWordEnd rest) || (flow && isFlowMark g.char)

/-- Whether a colon stands at a glyph between brackets that belongs to nothing. -/
def isStrayColon (flow : Bool) (g : Glyph) (rest : List Glyph) : Bool :=
  flow && g.char = ':' && rest.head?.any fun next => isFlowMark next.char || next.char = '?'

/-- Reads on, with `reversed` and then `gap` behind and `inWord` true inside a word. The lines
of the scalar start at the column `floor` or further right. -/
def readFrom (flow : Bool) (floor : Nat) (reversed : List Char) (gap : Gap) (inWord : Bool) :
    List Glyph → Except Fault Plain
  | [] => .ok ⟨reversed.reverse, gap.isBroken, []⟩
  | g :: rest =>
    if g.isBlank || g.isBreak then
      if gap.isBroken && g.column < floor && g.char = '\t' then .error .tab
      else readFrom flow floor reversed (gap.push g) false rest
    else if isOver flow floor inWord g rest then .ok ⟨reversed.reverse, gap.isBroken, g :: rest⟩
    else if isStrayColon flow g rest then .error .flowColon
    else readFrom flow floor (g.char :: (gap.text.reverse ++ reversed)) .empty true rest

/-- The plain scalar at this place. -/
def read (flow : Bool) (floor : Nat) (glyphs : List Glyph) : Except Fault Plain :=
  readFrom flow floor [] .empty true glyphs

end Plain

end Coordination.Yaml
