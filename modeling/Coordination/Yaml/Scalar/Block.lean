import Coordination.Yaml.Fault
import Coordination.Yaml.Glyph

/-!
# Block scalars

A block scalar is a run of lines that are indented further than what holds
them. A literal one keeps its lines. A folded one joins those that start
without a blank: the end of a line is read as a space, or left out before
empty lines. How the last ends of lines are read is said behind the mark.
-/

namespace Coordination.Yaml.Block

/-- What becomes of the ends of lines behind the last line that is not empty. -/
inductive Chomp where
  | strip
  /-- The first stays. -/
  | clip
  | keep
  deriving DecidableEq, Repr

/-- What is said behind the mark of a block scalar. -/
structure Header where
  chomp : Chomp
  /-- The indentation, relative to what holds the scalar; none where the text shows it. -/
  indent : Option Nat
  deriving DecidableEq, Repr

/-- How the ends of lines are to be read, if this is said here. -/
def chomp? : List Glyph → Option (Chomp × List Glyph)
  | [] => none
  | g :: rest =>
    if g.char = '+' then some (.keep, rest) else if g.char = '-' then some (.strip, rest) else none

/-- The indentation, if it is said here. -/
def readIndent : List Glyph → Except Fault (Option Nat × List Glyph)
  | [] => .ok (none, [])
  | g :: rest =>
    if g.char = '0' then .error .header
    else if g.char.isDigit then .ok (some (g.char.toNat - '0'.toNat), rest)
    else .ok (none, g :: rest)

/-- What is said at this place, in either order, and the place at the start of the next line. -/
def Header.read (glyphs : List Glyph) : Except Fault (Header × List Glyph) := do
  let (header, rest) ←
    match chomp? glyphs with
    | some (chomp, rest) => do
      let (indent, rest) ← readIndent rest
      pure (Header.mk chomp indent, rest)
    | none => do
      let (indent, rest) ← readIndent glyphs
      match indent.bind fun _ => chomp? rest with
      | some (chomp, rest) => pure (Header.mk chomp indent, rest)
      | none => pure (Header.mk .clip indent, rest)
  match skipToLineEnd? rest with
  | some rest => return (header, rest.tail)
  | none => throw .header

/-- The lines of a block scalar that have been read. -/
structure Lines where
  reversed : List Char
  /-- The end of the last line that is not empty. -/
  last : Option Char
  /-- The ends of the empty lines behind it, in reverse. -/
  empty : List Char
  /-- Whether the last line starts with a blank. -/
  startsBlank : Bool
  deriving DecidableEq, Repr

namespace Lines

/-- No lines. -/
def none : Lines := ⟨[], Option.none, [], false⟩

/-- The lines with the first character of one more. -/
def start (lines : Lines) (folded : Bool) (g : Glyph) : Lines :=
  let joined :=
    if folded && lines.last = some '\n' && !lines.startsBlank && !g.isBlank then
      if lines.empty = [] then ' ' :: lines.reversed else lines.empty ++ lines.reversed
    else lines.empty ++ lines.last.toList ++ lines.reversed
  ⟨g.char :: joined, Option.none, [], g.isBlank⟩

/-- The text of the lines. -/
def text (lines : Lines) : Chomp → List Char
  | .strip => lines.reversed.reverse
  | .clip => (lines.last.toList ++ lines.reversed).reverse
  | .keep => (lines.empty ++ lines.last.toList ++ lines.reversed).reverse

end Lines

/-- Where in a block scalar a glyph stands. -/
inductive Part where
  /-- In front of the text of a line. -/
  | margin
  | line
  deriving DecidableEq, Repr

/-- The lines from here on. They are indented by `indent`, or by as much as the first of them and
the empty lines before it show, which is `floor` or more; so far these show `widest`. -/
def readLines (folded : Bool) (floor : Nat) (part : Part) (indent : Option Nat) (widest : Nat)
    (lines : Lines) : List Glyph → Except Fault (Lines × List Glyph)
  | [] => .ok (lines, [])
  | g :: rest =>
    match part with
    | .line =>
      if g.isBreak then
        readLines folded floor .margin indent widest { lines with last := some g.char } rest
      else
        readLines folded floor .line indent widest
          { lines with reversed := g.char :: lines.reversed } rest
    | .margin =>
      let inMargin := indent.all fun indent => g.column < indent
      if inMargin && g.char = ' ' then readLines folded floor .margin indent widest lines rest
      else if inMargin && g.char = '\t' then .error .tab
      else
        let widest := max widest g.column
        if g.isBreak then
          readLines folded floor .margin indent widest
            { lines with empty := g.char :: lines.empty } rest
        else
          let indent := indent.getD (max widest floor)
          if g.column = indent then
            readLines folded floor .line (some indent) widest (lines.start folded g) rest
          else .ok (lines, g :: rest)

/-- The text of the block scalar behind its mark, and the place behind it. What holds the scalar
is indented by less than `floor`. -/
def read (folded : Bool) (floor : Nat) (glyphs : List Glyph) :
    Except Fault (List Char × List Glyph) := do
  let (header, rest) ← Header.read glyphs
  let indent := header.indent.map fun indent => max floor 1 - 1 + indent
  let (lines, rest) ← readLines folded (max floor 1) .margin indent 0 .none rest
  return (lines.text header.chomp, rest)

end Coordination.Yaml.Block
