import Coordination.Yaml.Gap
import Coordination.Yaml.Tag

/-!
# Quoted scalars

Between single quotes a quote is written twice. Between double quotes a
backslash starts an escape: a letter for a character, a letter and the number
of a character, or the end of a line, which is then left out.
-/

namespace Coordination.Yaml.Quoted

/-- The character that an escape of one letter stands for. -/
def escape? (c : Char) : Option Char :=
  [('0', '\x00'), ('a', '\x07'), ('b', '\x08'), ('t', '\t'), ('\t', '\t'), ('n', '\n'),
    ('v', '\x0b'), ('f', '\x0c'), ('r', '\r'), ('e', '\x1b'), (' ', ' '), ('"', '"'), ('/', '/'),
    ('\\', '\\'), ('N', '\u0085'), ('_', '\u00a0'), ('L', '\u2028'), ('P', '\u2029')].lookup c

/-- How many digits follow the letter of an escape by number. -/
def digitCount? (c : Char) : Option Nat := [('x', 2), ('u', 4), ('U', 8)].lookup c

/-- The text between single quotes from here on. -/
def readSingle (reversed : List Char) (gap : Gap) :
    List Glyph → Except Fault (List Char × List Glyph)
  | [] => .error .unterminated
  | g :: rest =>
    let done := gap.text.reverse ++ reversed
    if atDocumentMark (g :: rest) then .error .documentMark
    else if g.isBlank || g.isBreak then readSingle reversed (gap.push g) rest
    else if g.char = '\'' then
      match rest with
      | next :: behind =>
        if next.char = '\'' then readSingle ('\'' :: done) .empty behind
        else .ok (done.reverse, rest)
      | [] => .ok (done.reverse, [])
    else readSingle (g.char :: done) .empty rest

/-- What is due inside double quotes. -/
inductive Due where
  | text
  /-- What follows a backslash. -/
  | escape
  /-- `left + 1` more digits of a number. -/
  | digits (left value : Nat)
  deriving DecidableEq, Repr

/-- The text between double quotes from here on. -/
def readDouble (due : Due) (reversed : List Char) (gap : Gap) :
    List Glyph → Except Fault (List Char × List Glyph)
  | [] => .error .unterminated
  | g :: rest =>
    match due with
    | .text =>
      let done := gap.text.reverse ++ reversed
      if atDocumentMark (g :: rest) then .error .documentMark
      else if g.isBlank || g.isBreak then readDouble .text reversed (gap.push g) rest
      else if g.char = '"' then .ok (done.reverse, rest)
      else if g.char = '\\' then readDouble .escape done .empty rest
      else readDouble .text (g.char :: done) .empty rest
    | .escape =>
      if g.isBreak then readDouble .text reversed .escaped rest
      else
        match escape? g.char, digitCount? g.char with
        | some c, _ => readDouble .text (c :: reversed) .empty rest
        | none, some count => readDouble (.digits (count - 1) 0) reversed .empty rest
        | none, none => .error .escape
    | .digits left value =>
      match Text.hexDigit? g.char with
      | none => .error .escape
      | some digit =>
        let value := value * 16 + digit
        match left with
        | left + 1 => readDouble (.digits left value) reversed .empty rest
        | 0 =>
          if value.isValidChar then readDouble .text (Char.ofNat value :: reversed) .empty rest
          else .error .escape

/-- The text from behind an opening quote, and the place behind the closing one. -/
def read (single : Bool) (glyphs : List Glyph) : Except Fault (List Char × List Glyph) :=
  if single then readSingle [] .empty glyphs else readDouble .text [] .empty glyphs

end Coordination.Yaml.Quoted
