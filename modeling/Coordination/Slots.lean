/-!
# Declared fields

A value of a fixed shape has declared fields, each with the names it goes by.
`Slots.place` puts a member where its field is declared: a field twice is
refused, a member that is no field ignored.
-/

namespace Coordination.Slots

/-- Puts a member where its field is declared. -/
def place {α : Type} (fields : List (List String)) (slots : List (Option α))
    (member : String × α) : Option (List (Option α)) :=
  match fields.findIdx? fun names => member.1 ∈ names with
  | none => some slots
  | some index =>
    match slots[index]? with
    | some none => some (slots.set index (some member.2))
    | _ => none

/-- What members say of declared fields. -/
def ofMembers {α : Type} (fields : List (List String)) (members : List (String × α)) :
    Option (List (Option α)) :=
  members.foldlM (place fields) (fields.map fun _ => none)

end Coordination.Slots
