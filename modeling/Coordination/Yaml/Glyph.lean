/-!
# Glyphs

A YAML text is read by where its characters stand, so each character comes with
its line and column. `Glyph.layout` spreads a text out: every way to end a line
with carriage returns, line feeds and next-line characters becomes one line
feed; the line and paragraph separators end a line too and stay what they are.

A place in a text is the list of the glyphs from there on.
-/

namespace Coordination.Yaml

/-- Whether a character may stand in a text at all. -/
def isAllowed (c : Char) : Bool :=
  c = '\t' || c = '\n' || c = '\r' || (0x20 ≤ c.toNat && c.toNat ≤ 0x7E) || c.toNat = 0x85 ||
    (0xA0 ≤ c.toNat && c.toNat ≤ 0xD7FF) || (0xE000 ≤ c.toNat && c.toNat ≤ 0xFFFD) ||
    0x10000 ≤ c.toNat

/-- Whether a character is a letter, a digit, a dash or an underscore, all of ASCII. -/
def isWordChar (c : Char) : Bool := c.isAlphanum || c = '-' || c = '_'

/-- The characters that structure a collection in brackets. -/
def isFlowMark (c : Char) : Bool := c = ',' || c = '[' || c = ']' || c = '\x7b' || c = '\x7d'

/-- A character and where it stands. -/
structure Glyph where
  char : Char
  line : Nat
  column : Nat
  /-- The number of characters before this one. -/
  index : Nat
  deriving DecidableEq, Repr

namespace Glyph

/-- Spreads out a text that starts at this line, column and index. -/
def layoutFrom (line column index : Nat) : List Char → List Glyph
  | [] => []
  | '\r' :: '\n' :: rest => ⟨'\n', line, column, index⟩ :: layoutFrom (line + 1) 0 (index + 2) rest
  | c :: rest =>
    if c = '\r' ∨ c = '\n' ∨ c = '\u0085' then
      ⟨'\n', line, column, index⟩ :: layoutFrom (line + 1) 0 (index + 1) rest
    else if c = '\u2028' ∨ c = '\u2029' then
      ⟨c, line, column, index⟩ :: layoutFrom (line + 1) 0 (index + 1) rest
    else ⟨c, line, column, index⟩ :: layoutFrom line (column + 1) (index + 1) rest

/-- Spreads out a text. -/
def layout (text : List Char) : List Glyph := layoutFrom 0 0 0 text

/-- Whether a line ends with this glyph. -/
def isBreak (g : Glyph) : Bool := g.char = '\n' || g.char = '\u2028' || g.char = '\u2029'

/-- Whether a glyph is a space or a tab. -/
def isBlank (g : Glyph) : Bool := g.char = ' ' || g.char = '\t'

end Glyph

/-- Whether the next glyph is this character. -/
def nextIs (c : Char) : List Glyph → Bool
  | [] => false
  | g :: _ => g.char = c

/-- Whether a line ends here. -/
def atLineEnd : List Glyph → Bool
  | [] => true
  | g :: _ => g.isBreak

/-- Whether a word ends here: with a blank or the line. -/
def atWordEnd : List Glyph → Bool
  | [] => true
  | g :: _ => g.isBlank || g.isBreak

/-- Whether three of a character stand alone at the start of a line. -/
def atTriple (c : Char) : List Glyph → Bool
  | g₀ :: g₁ :: g₂ :: rest =>
    g₀.column = 0 && g₀.char = c && g₁.char = c && g₂.char = c && atWordEnd rest
  | _ => false

/-- Whether a mark between documents stands here. -/
def atDocumentMark (glyphs : List Glyph) : Bool := atTriple '-' glyphs || atTriple '.' glyphs

/-- The place behind spaces and tabs. -/
def skipBlanks (glyphs : List Glyph) : List Glyph := glyphs.dropWhile Glyph.isBlank

/-- The place at the end of the line, if nothing but blanks and a comment stands before it. -/
def skipToLineEnd? (glyphs : List Glyph) : Option (List Glyph) :=
  let glyphs := skipBlanks glyphs
  let glyphs := if nextIs '#' glyphs then glyphs.dropWhile fun g => !g.isBreak else glyphs
  if atLineEnd glyphs then some glyphs else none

/-- The longest run of glyphs with a property, as text, and the place behind it. -/
def takeText (p : Char → Bool) (glyphs : List Glyph) : List Char × List Glyph :=
  ((glyphs.takeWhile fun g => p g.char).map Glyph.char, glyphs.dropWhile fun g => p g.char)

end Coordination.Yaml
