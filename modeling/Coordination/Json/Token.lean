import Coordination.Json.Value
import Coordination.Text.Digit

/-!
# The tokens of a JSON text

A JSON text read character by character. The state between two characters is
a `Scan`; `Scan.step` takes one character further, and `tokens` runs it over a
whole text.
-/

namespace Coordination.Json

/-- A token. -/
inductive Token where
  | openArray
  | closeArray
  | openObject
  | closeObject
  | comma
  | colon
  | null
  | bool (value : Bool)
  | number (value : Number)
  /-- A string; without a text if an escape in it names no character. -/
  | string (value : Option String)
  deriving DecidableEq, Repr

/-- How far a number has been read. -/
inductive NumberStage where
  /-- After the sign. -/
  | sign
  /-- After a first digit that is zero. -/
  | zero
  | integer
  | point
  | fraction
  | exponentMark
  | exponentSign
  | exponent
  deriving DecidableEq, Repr

/-- A number read so far. -/
structure Numeral where
  stage : NumberStage
  negative : Bool
  significand : Nat
  /-- The number of digits after the point. -/
  scale : Nat
  exponentNegative : Bool
  exponent : Nat
  deriving DecidableEq, Repr

namespace Numeral

/-- A number that starts with this character. -/
def start? (c : Char) : Option Numeral :=
  if c = '-' then some ⟨.sign, true, 0, 0, false, 0⟩
  else if c = '0' then some ⟨.zero, false, 0, 0, false, 0⟩
  else if c.isDigit then some ⟨.integer, false, c.toNat - '0'.toNat, 0, false, 0⟩
  else none

/-- The number with one more digit before or after the point. -/
def digit (n : Numeral) (stage : NumberStage) (c : Char) : Numeral :=
  { n with stage, significand := n.significand * 10 + (c.toNat - '0'.toNat) }

/-- The number with one more digit of the exponent. -/
def exponentDigit (n : Numeral) (c : Char) : Numeral :=
  { n with stage := .exponent, exponent := n.exponent * 10 + (c.toNat - '0'.toNat) }

/-- The number with one more character, if it goes on with that. -/
def step? (n : Numeral) (c : Char) : Option Numeral :=
  match n.stage with
  | .sign =>
    if c = '0' then some { n with stage := .zero }
    else if c.isDigit then some (n.digit .integer c) else none
  | .zero =>
    if c = '.' then some { n with stage := .point }
    else if c = 'e' ∨ c = 'E' then some { n with stage := .exponentMark } else none
  | .integer =>
    if c.isDigit then some (n.digit .integer c)
    else if c = '.' then some { n with stage := .point }
    else if c = 'e' ∨ c = 'E' then some { n with stage := .exponentMark } else none
  | .point =>
    if c.isDigit then some { n.digit .fraction c with scale := n.scale + 1 } else none
  | .fraction =>
    if c.isDigit then some { n.digit .fraction c with scale := n.scale + 1 }
    else if c = 'e' ∨ c = 'E' then some { n with stage := .exponentMark } else none
  | .exponentMark =>
    if c.isDigit then some (n.exponentDigit c)
    else if c = '+' then some { n with stage := .exponentSign }
    else if c = '-' then some { n with stage := .exponentSign, exponentNegative := true } else none
  | .exponentSign => if c.isDigit then some (n.exponentDigit c) else none
  | .exponent => if c.isDigit then some (n.exponentDigit c) else none

/-- The number that was read, if it may end here. -/
def finish? (n : Numeral) : Option Number :=
  match n.stage with
  | .zero | .integer => some ⟨n.negative, n.significand, none⟩
  | .fraction | .exponent =>
    let exponent : Int := if n.exponentNegative then -(n.exponent : Int) else n.exponent
    some ⟨n.negative, n.significand, some (exponent - n.scale)⟩
  | _ => none

end Numeral

/-- A string read so far. -/
structure Quote where
  reversed : List Char
  /-- The first half of a pair of escapes that name one character. -/
  half : Option Nat
  /-- Whether some escape names no character. -/
  broken : Bool
  deriving DecidableEq, Repr

namespace Quote

/-- The string before its first character. -/
def start : Quote := ⟨[], none, false⟩

/-- The string with one more character. -/
def push (q : Quote) (c : Char) : Quote :=
  ⟨c :: q.reversed, none, q.broken || q.half.isSome⟩

/-- The string with one more 16-bit code unit, which is a character or half of one. -/
def pushUnit (q : Quote) (unit : Nat) : Quote :=
  match q.half with
  | some first =>
    if 0xDC00 ≤ unit ∧ unit < 0xE000 then
      { q with
        reversed := Char.ofNat (0x10000 + (first - 0xD800) * 0x400 + (unit - 0xDC00)) :: q.reversed
        half := none }
    else { q with half := none, broken := true }
  | none =>
    if 0xD800 ≤ unit ∧ unit < 0xDC00 then { q with half := some unit }
    else if 0xDC00 ≤ unit ∧ unit < 0xE000 then { q with broken := true }
    else { q with reversed := Char.ofNat unit :: q.reversed }

/-- The text of the string, unless an escape in it names no character. -/
def finish (q : Quote) : Option String :=
  if q.broken || q.half.isSome then none else some (String.ofList q.reversed.reverse)

end Quote

/-- The character that an escape of one letter stands for. -/
def escape? (c : Char) : Option Char :=
  if c = '"' ∨ c = '\\' ∨ c = '/' then some c
  else if c = 'b' then some '\x08'
  else if c = 'f' then some '\x0c'
  else if c = 'n' then some '\n'
  else if c = 'r' then some '\r'
  else if c = 't' then some '\t'
  else none

/-- What is being read between two characters. -/
inductive Scan where
  | between
  /-- Inside a name, with the characters that have to follow. -/
  | word (token : Token) (left : List Char)
  | number (numeral : Numeral)
  | quote (quote : Quote)
  /-- After a backslash. -/
  | escape (quote : Quote)
  /-- Inside an escape by number, with the number of digits left. -/
  | hex (quote : Quote) (left value : Nat)
  deriving DecidableEq, Repr

namespace Scan

/-- One character from between two tokens. -/
def open? (c : Char) : Option (Scan × List Token) :=
  if c = ' ' ∨ c = '\n' ∨ c = '\r' ∨ c = '\t' then some (.between, [])
  else if c = '[' then some (.between, [.openArray])
  else if c = ']' then some (.between, [.closeArray])
  else if c = '\x7b' then some (.between, [.openObject])
  else if c = '\x7d' then some (.between, [.closeObject])
  else if c = ',' then some (.between, [.comma])
  else if c = ':' then some (.between, [.colon])
  else if c = '"' then some (.quote Quote.start, [])
  else if c = 'n' then some (.word .null ['u', 'l', 'l'], [])
  else if c = 't' then some (.word (.bool true) ['r', 'u', 'e'], [])
  else if c = 'f' then some (.word (.bool false) ['a', 'l', 's', 'e'], [])
  else (Numeral.start? c).map fun numeral => (.number numeral, [])

/-- One character further: the next state and the tokens that are complete. -/
def step? (scan : Scan) (c : Char) : Option (Scan × List Token) :=
  match scan with
  | .between => open? c
  | .word token left =>
    match left with
    | [] => none
    | [last] => if c = last then some (.between, [token]) else none
    | next :: rest => if c = next then some (.word token rest, []) else none
  | .number numeral =>
    match numeral.step? c with
    | some numeral => some (.number numeral, [])
    | none => do
      let value ← numeral.finish?
      let (scan, tokens) ← open? c
      return (scan, .number value :: tokens)
  | .quote text =>
    if c = '"' then some (.between, [.string text.finish])
    else if c = '\\' then some (.escape text, [])
    else if c.toNat < 0x20 then none
    else some (.quote (text.push c), [])
  | .escape text =>
    if c = 'u' then some (.hex text 4 0, [])
    else (escape? c).map fun c => (.quote (text.push c), [])
  | .hex text left value => do
    let value := value * 16 + (← Text.hexDigit? c)
    if left ≤ 1 then return (.quote (text.pushUnit value), [])
    else return (.hex text (left - 1) value, [])

/-- The tokens that the end of the text completes. -/
def finish? : Scan → Option (List Token)
  | .between => some []
  | .number numeral => numeral.finish?.map fun value => [.number value]
  | _ => none

/-- The tokens of the rest of a text, after those read before, in reverse. -/
def run (scan : Scan) (done : List Token) : List Char → Option (List Token)
  | [] => scan.finish?.map fun tokens => done.reverse ++ tokens
  | c :: rest =>
    match scan.step? c with
    | some (scan, tokens) => run scan (tokens.reverse ++ done) rest
    | none => none

end Scan

/-- The tokens of a JSON text; none if it has a character out of place. -/
def tokens (text : String) : Option (List Token) := Scan.run .between [] text.toList

end Coordination.Json
