import Coordination.Error
import Coordination.Journal

/-!
# Gates

A gate lets a bounded number of visitors in at once. Each of its slots is
free, held by a visitor, or handed to one who waits but has not come back for
it. Visitors wait in the order in which they came, and a slot given back goes
to the first of them.

* `Gate.enter`: a visitor comes for the first time;
* `Gate.claim`: a waiting visitor asks again;
* `Gate.leave`: a waiting visitor gives up;
* `Gate.release`: a visitor who holds a slot gives it back.
-/

namespace Coordination

/-- A gate for visitors of a type. -/
structure Gate (α : Type) where
  capacity : Nat
  /-- The number of free slots. -/
  free : Nat
  /-- The visitors who hold a slot. -/
  holders : List α
  /-- The waiting visitors who were handed a slot, in the order of handing. -/
  handed : List α
  /-- The waiting visitors without a slot, in the order of their coming. -/
  queue : List α
  deriving DecidableEq, Repr

namespace Gate

variable {α : Type} [DecidableEq α]

/-- A gate with all its slots free. -/
def ofCapacity (capacity : Nat) : Gate α := ⟨capacity, capacity, [], [], []⟩

/-- A gate for a bound on concurrent visitors that lies in its range. -/
def new (maxWorkers : Nat) : Except PolicyError (Gate α) := do
  checkWorkers maxWorkers
  return ofCapacity maxWorkers

/-- The number of slots that are not free. -/
def inFlight (gate : Gate α) : Nat := gate.capacity - gate.free

/-- The number of visitors who wait, with or without a slot handed to them. -/
def waiting (gate : Gate α) : Nat := gate.handed.length + gate.queue.length

/-- Passes a slot on to the first in the queue, or frees it. -/
def passOn (gate : Gate α) : Gate α :=
  match gate.queue with
  | [] => { gate with free := gate.free + 1 }
  | first :: rest => { gate with handed := gate.handed ++ [first], queue := rest }

/-- Lets a visitor in at once if a slot is free, else puts them at the end of
the queue. Answers whether they are in. -/
def enter (gate : Gate α) (visitor : α) : Bool × Gate α :=
  if 0 < gate.free then
    (true, { gate with free := gate.free - 1, holders := visitor :: gate.holders })
  else (false, { gate with queue := gate.queue ++ [visitor] })

/-- Lets a waiting visitor in who was handed a slot. Answers whether they are in. -/
def claim (gate : Gate α) (visitor : α) : Bool × Gate α :=
  if visitor ∈ gate.handed then
    (true, { gate with
      handed := gate.handed.erase visitor, holders := visitor :: gate.holders })
  else (false, gate)

/-- Takes a waiting visitor out, and passes on the slot they were handed. -/
def leave (gate : Gate α) (visitor : α) : Gate α :=
  if visitor ∈ gate.handed then
    { gate with handed := gate.handed.erase visitor }.passOn
  else { gate with queue := gate.queue.erase visitor }

/-- Takes the slot of a visitor back and passes it on. -/
def release (gate : Gate α) (visitor : α) : Gate α :=
  if visitor ∈ gate.holders then
    { gate with holders := gate.holders.erase visitor }.passOn
  else gate

/-- The slots that are free, held or handed over. -/
def slots (gate : Gate α) : Nat := gate.free + gate.holders.length + gate.handed.length

end Gate

end Coordination
