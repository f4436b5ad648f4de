import Coordination.Text.Hidden

/-!
# Texts between quotes

A text is shown between double quotes. A quote and a backslash get a backslash
in front, the common control characters are named by a letter, and other
characters that are not shown are given by their number.
-/

namespace Coordination.Text

/-- Digits of a number to base sixteen. -/
def hexadecimal (n : Nat) : List Char := Nat.toDigits 16 n

/-- A character as it is shown between quotes. -/
def quotedChar (c : Char) : List Char :=
  if c = '"' ∨ c = '\\' then ['\\', c]
  else if c = '\n' then ['\\', 'n']
  else if c = '\r' then ['\\', 'r']
  else if c = '\t' then ['\\', 't']
  else if c = '\x00' then ['\\', '0']
  else if isHidden c then ['\\', 'u', '\x7b'] ++ hexadecimal c.toNat ++ ['\x7d']
  else [c]

/-- A text between quotes. -/
def quoted (text : String) : String :=
  String.ofList ('"' :: text.toList.flatMap quotedChar ++ ['"'])

end Coordination.Text
