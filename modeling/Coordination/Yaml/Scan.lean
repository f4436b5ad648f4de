import Coordination.Yaml.Scalar.Block
import Coordination.Yaml.Scalar.Plain
import Coordination.Yaml.Scalar.Quoted
import Coordination.Yaml.Token

/-!
# The tokens of a YAML text

Two things are not said by the glyph at hand. Indentation opens and closes
collections, and what turns out to be a key has been read before its colon
shows it. So a `Scan` holds the columns of the block collections that are open,
and for each level of brackets the last place where a key may have started.

* `Scan.step`: one token further;
* `tokens`: all tokens of a text.
-/

namespace Coordination.Yaml

/-- A place where a key without a mark of its own may have started. -/
structure KeyStart where
  /-- The number of tokens in front of the key. -/
  tokens : Nat
  line : Nat
  column : Nat
  index : Nat
  /-- Whether nothing but a key can stand there. -/
  isRequired : Bool
  deriving DecidableEq, Repr

/-- How many characters a key without a mark may have. -/
def maxKeyLength : Nat := 1024

/-- Whether a key that started there may still end at this glyph. -/
def KeyStart.reaches (key : KeyStart) (g : Glyph) : Bool :=
  g.line ≤ key.line && g.index ≤ key.index + maxKeyLength

/-- A text that has been read up to some place. -/
structure Scan where
  rest : List Glyph
  /-- The tokens so far, in reverse. -/
  reversed : List Token
  /-- The number of these tokens. -/
  count : Nat
  /-- The columns of the open block collections, innermost first. -/
  blocks : List Nat
  /-- The place where a key may have started, within the innermost brackets. -/
  key : Option KeyStart
  /-- The same outside of each open pair of brackets, innermost first. -/
  outer : List (Option KeyStart)
  /-- Whether a key may start here. -/
  allowsKey : Bool
  deriving DecidableEq, Repr

namespace Scan

/-- Nothing has been read. -/
def start (text : List Char) : Scan := ⟨Glyph.layout text, [], 0, [], none, [], true⟩

/-- Whether the place is inside brackets. -/
def inFlow (s : Scan) : Bool := !s.outer.isEmpty

/-- The least column that is inside the innermost block collection. -/
def floor (s : Scan) : Nat :=
  match s.blocks with
  | [] => 0
  | column :: _ => column + 1

/-- One more token. -/
def push (s : Scan) (token : Token) : Scan :=
  { s with reversed := token :: s.reversed, count := s.count + 1 }

/-- One more token, with `index` tokens in front of it. -/
def insert (s : Scan) (index : Nat) (token : Token) : Scan :=
  { s with reversed := s.reversed.insertIdx (s.count - index) token, count := s.count + 1 }

/-- One more token of one glyph. -/
def mark (s : Scan) (token : Token) : Scan := { s.push token with rest := s.rest.tail }

/-- Opens a block collection at a column that is further in, with `index` tokens in front. -/
def indent (s : Scan) (column index : Nat) (token : Token) : Scan :=
  if s.inFlow || column < s.floor then s
  else { s.insert index token with blocks := column :: s.blocks }

/-- Closes the block collections of which `isLeft` is true. -/
def unindent (s : Scan) (isLeft : Nat → Bool) : Scan :=
  if s.inFlow then s
  else
    { (s.blocks.takeWhile isLeft).foldl (fun s _ => s.push .blockEnd) s with
      blocks := s.blocks.dropWhile isLeft }

/-- Gives up the place where a key may have started. -/
def dropKey (s : Scan) : Except Fault Scan :=
  match s.key with
  | some key => if key.isRequired then .error .colon else .ok { s with key := none }
  | none => .ok s

/-- Notes that a key may start at this glyph. -/
def saveKey (s : Scan) (g : Glyph) : Except Fault Scan :=
  if s.allowsKey then do
    let s ← s.dropKey
    let isRequired := !s.inFlow && s.floor = g.column + 1
    return { s with key := some ⟨s.count, g.line, g.column, g.index, isRequired⟩ }
  else .ok s

/-- What is left of a place where a key may have started, once this glyph is reached. -/
def keepKey (g : Glyph) : Option KeyStart → Except Fault (Option KeyStart)
  | none => .ok none
  | some key =>
    if key.reaches g then .ok (some key) else if key.isRequired then .error .colon else .ok none

/-- Gives up the keys that do not reach to this glyph. -/
def dropKeys (s : Scan) (g : Glyph) : Except Fault Scan := do
  return { s with key := ← keepKey g s.key, outer := ← s.outer.mapM (keepKey g) }

/-- The next glyph that is no blank, no end of a line and no part of a comment, and whether a
key may start there. A tab counts as a blank where no key may start. -/
def skip (flow allowsKey inComment : Bool) : List Glyph → Bool × List Glyph
  | [] => (allowsKey, [])
  | g :: rest =>
    if g.isBreak then skip flow (allowsKey || !flow) false rest
    else if inComment then skip flow allowsKey true rest
    else if g.char = ' ' || (g.char = '\t' && (flow || !allowsKey)) ||
        (g.char = '\ufeff' && g.column = 0) then
      skip flow allowsKey false rest
    else if g.char = '#' then skip flow allowsKey true rest
    else (allowsKey, g :: rest)

/-- The scan at the start of the next token. -/
def skipGap (s : Scan) : Scan :=
  let (allowsKey, rest) := skip s.inFlow s.allowsKey false s.rest
  { s with allowsKey, rest }

/-- The end of the collections and keys of a document. -/
def endDocument (s : Scan) : Except Fault Scan := do
  return { ← (s.unindent fun _ => true).dropKey with allowsKey := false }

/-! ## Tokens -/

/-- A number of a version, of nine digits at most. -/
def readVersionNumber (glyphs : List Glyph) : Except Fault (Nat × List Glyph) :=
  let (digits, rest) := takeText Char.isDigit glyphs
  if digits = [] ∨ 9 < digits.length then .error .directive
  else .ok (digits.foldl (fun n c => n * 10 + (c.toNat - '0'.toNat)) 0, rest)

/-- The version that a document is written in. -/
def readVersion (glyphs : List Glyph) : Except Fault (Token × List Glyph) := do
  let (major, rest) ← readVersionNumber (skipBlanks glyphs)
  if !nextIs '.' rest then throw .directive
  let (minor, rest) ← readVersionNumber rest.tail
  return (.version major minor, rest)

/-- What a handle stands for. -/
def readHandleDirective (glyphs : List Glyph) : Except Fault (Token × List Glyph) := do
  let (handle, rest) ← readHandle (skipBlanks glyphs)
  if !(TagName.isHandle handle || handle = ['!']) || !rest.head?.any Glyph.isBlank then
    throw .directive
  let (stem, rest) ← readTagText true (skipBlanks rest)
  if !atWordEnd rest then throw .directive
  return (.handle handle stem, rest)

/-- A line with a percent sign in front. -/
def directive (s : Scan) : Except Fault Scan := do
  let s ← s.endDocument
  let (name, rest) := takeText isWordChar s.rest.tail
  if name = [] || !atWordEnd rest then throw .directive
  let (token, rest) ←
    if name = ['Y', 'A', 'M', 'L'] then readVersion rest
    else if name = ['T', 'A', 'G'] then readHandleDirective rest
    else throw .directive
  match skipToLineEnd? rest with
  | some rest => return { s.push token with rest := rest.tail }
  | none => throw .directive

/-- A mark between documents. -/
def documentMark (s : Scan) (token : Token) : Except Fault Scan := do
  let s ← s.endDocument
  return { s.push token with rest := s.rest.drop 3 }

/-- An opening bracket. -/
def openFlow (s : Scan) (g : Glyph) (token : Token) : Except Fault Scan := do
  let s ← s.saveKey g
  return { s.mark token with key := none, outer := s.key :: s.outer, allowsKey := true }

/-- A closing bracket. -/
def closeFlow (s : Scan) (token : Token) : Except Fault Scan := do
  let s ← s.dropKey
  let s := { s.mark token with allowsKey := false }
  match s.outer with
  | [] => return s
  | key :: outer => return { s with key, outer }

/-- A comma between brackets. -/
def comma (s : Scan) : Except Fault Scan := do
  return { (← s.dropKey).mark .comma with allowsKey := true }

/-- A mark that opens a block collection here if that is further in. -/
def blockMark (s : Scan) (g : Glyph) (collection : Token) : Except Fault Scan :=
  if s.inFlow then .ok s
  else if s.allowsKey then .ok (s.indent g.column s.count collection)
  else .error .misplaced

/-- A dash in front of an entry. -/
def dash (s : Scan) (g : Glyph) : Except Fault Scan := do
  let s ← (← s.blockMark g .blockSequence).dropKey
  return { s.mark .dash with allowsKey := true }

/-- A question mark in front of a key. -/
def keyMark (s : Scan) (g : Glyph) : Except Fault Scan := do
  let s ← (← s.blockMark g .blockMapping).dropKey
  return { s.mark .key with allowsKey := !s.inFlow }

/-- A colon in front of a value. -/
def valueMark (s : Scan) (g : Glyph) : Except Fault Scan := do
  match s.key with
  | some key =>
    let s := (s.insert key.tokens .key).indent key.column key.tokens .blockMapping
    return { s.mark .value with key := none, allowsKey := false }
  | none =>
    let s ← s.blockMark g .blockMapping
    return { s.mark .value with allowsKey := !s.inFlow }

/-- The characters that end the name of an anchor, beside blanks. -/
def isNameEnd (c : Char) : Bool := c ∈ ['?', ':', ',', ']', '\x7d', '%', '@', '\x60']

/-- The name of an anchor or an alias. -/
def name (s : Scan) (g : Glyph) (token : List Char → Token) : Except Fault Scan := do
  let s ← s.saveKey g
  let (name, rest) := takeText isWordChar s.rest.tail
  if name ≠ [] && (atWordEnd rest || rest.head?.any fun g => isNameEnd g.char) then
    return { s.push (token name) with rest, allowsKey := false }
  else throw .anchor

/-- A tag. -/
def tag (s : Scan) (g : Glyph) : Except Fault Scan := do
  let s ← s.saveKey g
  let (name, rest) ← TagName.read s.inFlow s.rest
  return { s.push (.tag name) with rest, allowsKey := false }

/-- A block scalar. -/
def block (s : Scan) (folded : Bool) : Except Fault Scan := do
  let s ← s.dropKey
  let (text, rest) ← Block.read folded s.floor s.rest.tail
  return { s.push (.scalar (if folded then .folded else .literal) text) with rest, allowsKey := true }

/-- A quoted scalar. -/
def quoted (s : Scan) (g : Glyph) : Except Fault Scan := do
  let s ← s.saveKey g
  let (text, rest) ← Quoted.read (g.char = '\'') s.rest.tail
  return { s.push (.scalar .quoted text) with rest, allowsKey := false }

/-- A plain scalar. -/
def plain (s : Scan) (g : Glyph) : Except Fault Scan := do
  let s ← s.saveKey g
  let plain ← Plain.read s.inFlow s.floor s.rest
  return { s.push (.scalar .plain plain.text) with rest := plain.rest, allowsKey := plain.isBroken }

/-- The characters that start no plain scalar. -/
def isIndicator (c : Char) : Bool :=
  isFlowMark c || c ∈ ['-', '?', ':', '#', '&', '*', '!', '|', '>', '\'', '"', '%', '@', '\x60']

/-- Whether a plain scalar starts with this glyph. -/
def startsPlain (flow : Bool) (g : Glyph) (rest : List Glyph) : Bool :=
  !(g.isBlank || isIndicator g.char) || (g.char = '-' && !rest.head?.any Glyph.isBlank) ||
    (!flow && (g.char = '?' || g.char = ':') && !atWordEnd rest)

/-- The token that starts with this glyph. -/
def token (s : Scan) (g : Glyph) (rest : List Glyph) : Except Fault Scan :=
  if g.column = 0 && g.char = '%' then s.directive
  else if atTriple '-' (g :: rest) then s.documentMark .documentStart
  else if atTriple '.' (g :: rest) then s.documentMark .documentEnd
  else if g.char = '[' then s.openFlow g .openSequence
  else if g.char = '\x7b' then s.openFlow g .openMapping
  else if g.char = ']' then s.closeFlow .closeSequence
  else if g.char = '\x7d' then s.closeFlow .closeMapping
  else if g.char = ',' then s.comma
  else if g.char = '-' && atWordEnd rest then s.dash g
  else if g.char = '?' && (s.inFlow || atWordEnd rest) then s.keyMark g
  else if g.char = ':' && (s.inFlow || atWordEnd rest) then s.valueMark g
  else if g.char = '*' then s.name g .alias
  else if g.char = '&' then s.name g .anchor
  else if g.char = '!' then s.tag g
  else if g.char = '|' && !s.inFlow then s.block false
  else if g.char = '>' && !s.inFlow then s.block true
  else if g.char = '\'' || g.char = '"' then s.quoted g
  else if startsPlain s.inFlow g rest then s.plain g
  else .error .start

/-- One token further, or behind the end of the text none. -/
def step (s : Scan) : Except Fault (Option Scan) :=
  let s := s.skipGap
  match s.rest with
  | [] => .ok none
  | g :: rest => do
    let s ← s.dropKeys g
    return some (← (s.unindent fun column => g.column < column).token g rest)

/-- The tokens of a text that is read on, in at most `bound` steps. -/
def run : (bound : Nat) → Scan → Except Fault (List Token)
  | 0, _ => .error .start
  | bound + 1, s => do
    match ← s.step with
    | some s => run bound s
    | none => return ((← s.endDocument).push .streamEnd).reversed.reverse

end Scan

/-- The tokens of a text. Each takes a character of it at least, so the steps suffice. -/
def tokens (text : List Char) : Except Fault (List Token) :=
  if text.all isAllowed then (Scan.start text).run (text.length + 1) else .error .control

end Coordination.Yaml
