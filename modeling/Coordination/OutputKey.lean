import Coordination.Error
import Coordination.Identifier
import Coordination.KeyMap

/-!
# Output keys

The keys under which sub-tasks publish their outputs. A key is an identifier
of bounded length. A sub-task without a key of its own gets one made of its
namespace and its name, both reduced to identifier characters. No two
sub-tasks of a workflow may share a key.
-/

namespace Coordination.OutputKey

/-- The greatest number of characters of a key, unless a check says otherwise. -/
def maxLength : Nat := 100

/-- The greatest number of characters of a key made for a configured sub-task. -/
def generatedMaxLength : Nat := 127

/-- Refuses a key that is empty, has more than `max` characters, or is no
identifier; of two faults the earlier in this list. -/
def check (key : String) (max : Nat) : Except PolicyError Unit :=
  if key.isEmpty then .error .emptyKey
  else if max < key.toList.length then .error (.keyTooLong key max)
  else if Identifier.isIdentifier key.toList then .ok ()
  else .error (.invalidKey key)

/-- The character that stands for `c` in a key. -/
def sanitizeChar (c : Char) : Char := if Identifier.isPart c then c else '_'

/-- The text with an underscore for each character that no key may hold. -/
def sanitize (text : String) : String := String.ofList (text.toList.map sanitizeChar)

/-- The key of a sub-task without one of its own. -/
def generate («namespace» name : String) : String :=
  sanitize «namespace» ++ "_" ++ sanitize name

/-- What has been met of a list of keys that is gone through once. -/
structure Sightings where
  /-- The keys met so far. -/
  seen : KeyMap Unit
  /-- Those of them that had been met before. -/
  again : KeyMap Unit

/-- Nothing has been met. -/
def Sightings.start : Sightings := ⟨.empty, .empty⟩

/-- Meets one more key. -/
def Sightings.meet (sightings : Sightings) (key : String) : Sightings :=
  if sightings.seen.contains key then
    { sightings with again := sightings.again.insert key () }
  else { sightings with seen := sightings.seen.insert key () }

/-- The keys that are met again when a list is gone through, each once, in ascending order. -/
def duplicates (keys : List String) : List String :=
  (keys.foldl Sightings.meet .start).again.keys

/-- Refuses keys of which some occur more than once. -/
def checkUnique (keys : List String) : Except PolicyError Unit :=
  match duplicates keys with
  | [] => .ok ()
  | repeated => .error (.duplicateKeys repeated)

end Coordination.OutputKey
