/-!
# Blank characters

The characters with the white space property of Unicode.
-/

namespace Coordination.Text

/-- The code points of blank characters outside ASCII, as ranges. -/
def blankRanges : List (Nat × Nat) :=
  [(0x85, 0x85), (0xA0, 0xA0), (0x1680, 0x1680), (0x2000, 0x200A), (0x2028, 0x2029),
    (0x202F, 0x202F), (0x205F, 0x205F), (0x3000, 0x3000)]

/-- Whether a character is blank. -/
def isBlank (c : Char) : Bool :=
  c = ' ' || (0x9 ≤ c.toNat && c.toNat ≤ 0xD) ||
    blankRanges.any fun range => range.1 ≤ c.toNat && c.toNat ≤ range.2

/-- A text without the blank characters in front. -/
def skipBlank (text : List Char) : List Char := text.dropWhile isBlank

end Coordination.Text
