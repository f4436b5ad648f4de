import Coordination.KeyMap

/-!
# JSON values

A JSON value as it stands in a text. An object keeps its members in order,
repeated keys included, and a number keeps whether it was written as an
integer, because readers of values tell these cases apart.

* `Json.normalize`: the value as data: numbers in one of three ranges, members
  in ascending order of keys, the last one where keys repeat.
-/

namespace Coordination

/-- A number as written: `significand`, and a power of ten if it has a
fraction or an exponent. -/
structure Json.Number where
  negative : Bool
  significand : Nat
  /-- The power of ten; none for a number written as an integer. -/
  exponent : Option Int
  deriving DecidableEq, Repr

/-- A JSON value. -/
inductive Json where
  | null
  | bool (value : Bool)
  | number (value : Json.Number)
  | string (value : String)
  /-- A string with an escape that names no character. It can stand only
  where nobody reads it. -/
  | unreadable
  | array (items : List Json)
  /-- Members in the order of the text; a key without a text is unreadable. -/
  | object (members : List (Option String × Json))
  deriving Inhabited, Repr

namespace Json

/-- The value of a text, if there is one. -/
def ofOption {α : Type} (encode : α → Json) : Option α → Json
  | none => .null
  | some value => encode value

/-- A number as an integer. -/
def ofNat (n : Nat) : Json := .number ⟨false, n, none⟩

/-- A number as an integer. -/
def ofInt (n : Int) : Json := .number ⟨n < 0, n.natAbs, none⟩

/-- An object with these members. -/
def ofMembers (members : List (String × Json)) : Json :=
  .object (members.map fun member => (some member.1, member.2))

/-- An object with the entries of a map. -/
def ofKeyMap {α : Type} (encode : α → Json) (m : KeyMap α) : Json :=
  ofMembers (m.entries.map fun entry => (entry.1, encode entry.2))

namespace Number

/-- The least integer above the 64-bit words. -/
def wordBound : Nat := Nat.pow 2 64

/-- Whether a number written as an integer fits a 64-bit word, signed if it is
negative. Minus zero does not: it keeps its sign only as a decimal. -/
def fitsWord (n : Number) : Bool :=
  n.exponent.isNone &&
    if n.negative then 0 < n.significand && n.significand ≤ Nat.pow 2 63
    else n.significand < wordBound

/-- The least decimal magnitude that no double-precision number is nearest to:
half a unit above the greatest one. -/
def decimalBound : Nat := Nat.pow 2 1024 - Nat.pow 2 970

/-- Whether a decimal is nearest to some double-precision number. Exponents
far from zero are judged by the number of digits alone. -/
def isFinite (n : Number) : Bool :=
  match n.exponent.getD 0 with
  | .ofNat e =>
    n.significand == 0 || (e < 400 && n.significand * Nat.pow 10 e < decimalBound)
  | .negSucc e => e ≥ 20000 || n.significand < decimalBound * Nat.pow 10 (e + 1)

/-- The number as data: an integer where it fits a word, else a decimal of
finite size. -/
def normalize (n : Number) : Option Number :=
  if n.fitsWord then some n
  else if n.isFinite then some { n with exponent := some (n.exponent.getD 0) }
  else none

end Number

mutual

/-- Whether two values are the same. -/
def same : Json → Json → Bool
  | .null, .null => true
  | .bool a, .bool b => a == b
  | .number a, .number b => a == b
  | .string a, .string b => a == b
  | .unreadable, .unreadable => true
  | .array a, .array b => sameItems a b
  | .object a, .object b => sameMembers a b
  | _, _ => false
  termination_by structural a => a

/-- Whether two lists have the same items. -/
def sameItems : List Json → List Json → Bool
  | [], [] => true
  | a :: as, b :: bs => same a b && sameItems as bs
  | _, _ => false
  termination_by structural as => as

/-- Whether two lists have the same members. -/
def sameMembers : List (Option String × Json) → List (Option String × Json) → Bool
  | [], [] => true
  | (key, a) :: as, (key', b) :: bs => key == key' && same a b && sameMembers as bs
  | _, _ => false
  termination_by structural as => as

end

mutual

theorem same_iff : ∀ a b : Json, same a b = true ↔ a = b
  | .null, b => by cases b <;> simp [same]
  | .bool _, b => by cases b <;> simp [same]
  | .number _, b => by cases b <;> simp [same]
  | .string _, b => by cases b <;> simp [same]
  | .unreadable, b => by cases b <;> simp [same]
  | .array as, b => by cases b <;> simp [same, sameItems_iff as]
  | .object as, b => by cases b <;> simp [same, sameMembers_iff as]

theorem sameItems_iff : ∀ as bs : List Json, sameItems as bs = true ↔ as = bs
  | [], bs => by cases bs <;> simp [sameItems]
  | a :: as, bs => by cases bs <;> simp [sameItems, same_iff a, sameItems_iff as]

theorem sameMembers_iff :
    ∀ as bs : List (Option String × Json), sameMembers as bs = true ↔ as = bs
  | [], bs => by cases bs <;> simp [sameMembers]
  | (key, a) :: as, bs => by
    cases bs <;> simp [sameMembers, same_iff a, sameMembers_iff as, Prod.ext_iff]

end

instance : DecidableEq Json := fun a b => decidable_of_iff _ (same_iff a b)

/-- Members in ascending order of keys, the last one where keys repeat. -/
def sortMembers (members : List (String × Json)) : Json :=
  ofKeyMap id (KeyMap.ofList members)

mutual

/-- The value as data. A number out of range and an unreadable string have none. -/
def normalize : Json → Option Json
  | .null => some .null
  | .bool value => some (.bool value)
  | .number value => value.normalize.map .number
  | .string value => some (.string value)
  | .unreadable => none
  | .array items => (normalizeItems items).map .array
  | .object members => (normalizeMembers members).map sortMembers
  termination_by structural value => value

/-- Every item as data. -/
def normalizeItems : List Json → Option (List Json)
  | [] => some []
  | item :: rest => do return (← normalize item) :: (← normalizeItems rest)
  termination_by structural items => items

/-- Every member as data. -/
def normalizeMembers : List (Option String × Json) → Option (List (String × Json))
  | [] => some []
  | (key, item) :: rest => do
    return (← key, ← normalize item) :: (← normalizeMembers rest)
  termination_by structural members => members

end

mutual

/-- The greatest number of arrays and objects inside one another. -/
def depth : Json → Nat
  | .array items => depthOfItems items + 1
  | .object members => depthOfMembers members + 1
  | _ => 0
  termination_by structural value => value

/-- The greatest depth of an item. -/
def depthOfItems : List Json → Nat
  | [] => 0
  | item :: rest => max (depth item) (depthOfItems rest)
  termination_by structural items => items

/-- The greatest depth of a member. -/
def depthOfMembers : List (Option String × Json) → Nat
  | [] => 0
  | (_, item) :: rest => max (depth item) (depthOfMembers rest)
  termination_by structural members => members

end

end Json

end Coordination
