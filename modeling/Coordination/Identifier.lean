/-!
# Identifiers

An identifier starts with an ASCII letter or an underscore and goes on with
ASCII letters, digits and underscores. Output keys are identifiers, and so are
the names in the placeholders of an instruction.
-/

namespace Coordination.Identifier

/-- Whether a character may start an identifier. -/
def isStart (c : Char) : Bool := c.isAlpha || c == '_'

/-- Whether a character may go on an identifier. -/
def isPart (c : Char) : Bool := isStart c || c.isDigit

/-- Whether a text is an identifier. -/
def isIdentifier : List Char → Bool
  | [] => false
  | c :: rest => isStart c && rest.all isPart

/-- Whether an identifier, or the empty text, stays one when `c` is put after it. -/
def goesOn (text : List Char) (c : Char) : Bool :=
  if text.isEmpty then isStart c else isPart c

theorem isPart_of_isStart {c : Char} (h : isStart c = true) : isPart c = true := by
  simp [isPart, h]

theorem isIdentifier_append_singleton (text : List Char) (c : Char) :
    isIdentifier (text ++ [c]) =
      ((text.isEmpty || isIdentifier text) && goesOn text c) := by
  cases text with
  | nil => simp [isIdentifier, goesOn]
  | cons d rest => simp [isIdentifier, goesOn, Bool.and_assoc]

end Coordination.Identifier
