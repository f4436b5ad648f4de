/-!
# Digits

Numbers written with digits, in bases up to sixteen.
-/

namespace Coordination.Text

/-- The value of a hexadecimal digit. -/
def hexDigit? (c : Char) : Option Nat :=
  if c.isDigit then some (c.toNat - '0'.toNat)
  else if 'a' ≤ c ∧ c ≤ 'f' then some (c.toNat - 'a'.toNat + 10)
  else if 'A' ≤ c ∧ c ≤ 'F' then some (c.toNat - 'A'.toNat + 10)
  else none

/-- The value of a digit in a base. -/
def digit? (base : Nat) (c : Char) : Option Nat := (hexDigit? c).filter (· < base)

/-- The number with these digits, of which there is one at least. -/
def ofDigits? (base : Nat) : List Char → Option Nat
  | [] => none
  | digits => digits.foldlM (fun n c => do return n * base + (← digit? base c)) 0

/-- The greatest 64-bit word. -/
def maxWord : Nat := Nat.pow 2 64 - 1

/-- The greatest 32-bit word. -/
def maxHalfWord : Nat := Nat.pow 2 32 - 1

end Coordination.Text
