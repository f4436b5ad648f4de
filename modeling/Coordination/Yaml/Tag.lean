import Coordination.Text.Digit
import Coordination.Yaml.Fault
import Coordination.Yaml.Glyph

/-!
# Tags

A tag is written whole, between angle brackets, or as a handle and the rest of
it; a document may say what a handle stands for. Characters of a tag may be
written as octets in hexadecimal, so the text of a tag is a list of octets,
each as the character of its number.

* `TagName.read`: the tag written at some place;
* `TagName.expand?`: what it stands for, given the handles that are known;
* `Tag.local?`: the name in a tag that belongs to the document alone.
-/

namespace Coordination.Yaml

/-- How many octets the encoding of a character has if it starts with this one. -/
def octetCount? (octet : Nat) : Option Nat :=
  if octet < 0x80 then some 1
  else if 0xC0 ≤ octet ∧ octet < 0xE0 then some 2
  else if 0xE0 ≤ octet ∧ octet < 0xF0 then some 3
  else if 0xF0 ≤ octet ∧ octet < 0xF8 then some 4
  else none

/-- A tag as the octets of its text. -/
structure Tag where
  octets : List Char
  deriving DecidableEq, Repr

namespace Tag

/-- A tag of the language, such as `int` or `null`. -/
def core (name : String) : Tag := ⟨("tag:yaml.org,2002:" ++ name).toList⟩

/-- The tag that asks for no tag. -/
def bare : Tag := ⟨['!']⟩

/-- A tag from its parts, each read up to an octet that is zero. -/
def ofParts (stem rest : List Char) : Tag :=
  ⟨stem.takeWhile (· ≠ '\x00') ++ rest.takeWhile (· ≠ '\x00')⟩

/-- The text of a tag, if its octets encode one. -/
def text? (tag : Tag) : Option String :=
  String.fromUTF8? ⟨(tag.octets.map fun c => c.toNat.toUInt8).toArray⟩

/-- The name after the mark of a tag that belongs to the document alone. -/
def local? (tag : Tag) : Option String :=
  match tag.octets with
  | '!' :: c :: rest => text? ⟨c :: rest⟩
  | _ => none

end Tag

/-- Whether a character may stand in a tag, or in one that does not end with brackets. -/
def isTagChar (brackets : Bool) (c : Char) : Bool :=
  isWordChar c || c ∈ [';', '/', '?', ':', '@', '&', '=', '+', '$', '.', '%', '!', '~', '*', '\'',
    '(', ')'] || (brackets && c ∈ [',', '[', ']'])

/-- The octets of a tag from here on, `left` of them due to complete a character. -/
def readOctets (brackets : Bool) (left : Nat) (reversed : List Char) :
    List Glyph → Except Fault (List Char × List Glyph)
  | [] => if left = 0 then .ok (reversed.reverse, []) else .error .tag
  | g :: rest =>
    if g.char = '%' then
      match rest with
      | high :: low :: rest =>
        match Text.hexDigit? high.char, Text.hexDigit? low.char with
        | some h, some l =>
          let octet := h * 16 + l
          if left = 0 then
            match octetCount? octet with
            | some count => readOctets brackets (count - 1) (Char.ofNat octet :: reversed) rest
            | none => .error .tag
          else if 0x80 ≤ octet ∧ octet < 0xC0 then
            readOctets brackets (left - 1) (Char.ofNat octet :: reversed) rest
          else .error .tag
        | _, _ => .error .tag
      | _ => .error .tag
    else if left ≠ 0 then .error .tag
    else if isTagChar brackets g.char then readOctets brackets 0 (g.char :: reversed) rest
    else .ok (reversed.reverse, g :: rest)

/-- The text of a tag from here on, which is not empty. -/
def readTagText (brackets : Bool) (glyphs : List Glyph) : Except Fault (List Char × List Glyph) := do
  let (octets, rest) ← readOctets brackets 0 [] glyphs
  if octets = [] then throw .tag
  return (octets, rest)

/-- The handle of a tag from here on: an exclamation mark, or a word between two. -/
def readHandle : List Glyph → Except Fault (List Char × List Glyph)
  | [] => .error .tag
  | g :: rest =>
    if g.char = '!' then
      let (word, rest) := takeText isWordChar rest
      match rest with
      | last :: behind =>
        if last.char = '!' then .ok ('!' :: word ++ ['!'], behind) else .ok ('!' :: word, rest)
      | [] => .ok ('!' :: word, rest)
    else .error .tag

/-- A tag as it is written. -/
inductive TagName where
  /-- A tag that is written whole. -/
  | whole (text : List Char)
  /-- A handle and the rest of the tag. -/
  | short (handle rest : List Char)
  deriving DecidableEq, Repr

namespace TagName

/-- Whether the text is a handle with a mark at both ends. -/
def isHandle (text : List Char) : Bool := 1 < text.length && text.getLast? = some '!'

/-- The tag at this place, without regard to what follows it. -/
def readText (glyphs : List Glyph) : Except Fault (TagName × List Glyph) :=
  match glyphs with
  | mark :: bracket :: rest =>
    if mark.char = '!' ∧ bracket.char = '<' then do
      let (text, rest) ← readTagText true rest
      match rest with
      | last :: rest => if last.char = '>' then return (whole text, rest) else throw .tag
      | [] => throw .tag
    else readShort glyphs
  | _ => readShort glyphs
where
  /-- A tag with a handle. -/
  readShort (glyphs : List Glyph) : Except Fault (TagName × List Glyph) := do
    let (handle, rest) ← readHandle glyphs
    if isHandle handle then
      let (text, rest) ← readTagText false rest
      return (short handle text, rest)
    else
      let (text, rest) ← readOctets false 0 [] rest
      match handle.tail ++ text with
      | [] => return (whole ['!'], rest)
      | text => return (short ['!'] text, rest)

/-- The tag at this place; between brackets a comma may follow it. -/
def read (flow : Bool) (glyphs : List Glyph) : Except Fault (TagName × List Glyph) := do
  let (name, rest) ← readText glyphs
  if atWordEnd rest || (flow && nextIs ',' rest) then return (name, rest) else throw .tag

/-- The handles that every document knows. -/
def defaultHandles : List (List Char × List Char) :=
  [(['!'], ['!']), (['!', '!'], (Tag.core "").octets)]

/-- What a tag stands for; none if its handle is unknown. -/
def expand? (handles : List (List Char × List Char)) : TagName → Option Tag
  | whole text => some (.ofParts [] text)
  | short handle rest => (handles.lookup handle).map fun stem => .ofParts stem rest

end TagName

end Coordination.Yaml
