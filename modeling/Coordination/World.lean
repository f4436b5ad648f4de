import Coordination.Ledger

/-!
# The surroundings of a run

What all runs share: a clock that only waiting moves on, the ledger that runs
may be given, and the journal.
-/

namespace Coordination

/-- What all runs share. -/
structure World where
  /-- Milliseconds since the start. -/
  clock : Nat
  /-- The number of time stamps given out so far. -/
  stamps : Nat
  /-- The ledger for the runs that do not keep their own. -/
  ledger : Ledger
  journal : Journal
  deriving DecidableEq, Repr

namespace World

/-- The surroundings at the start. -/
def start (maxValueBytes : Nat) : World := ⟨0, 0, .empty maxValueBytes, .empty⟩

/-- A time stamp. Each is later than the one before. -/
def stamp (world : World) : Timestamp × World :=
  (.ofMillis (world.stamps + 1), { world with stamps := world.stamps + 1 })

/-- The surroundings with more measurements. -/
def measure (world : World) (measurements : List Measurement) : World :=
  { world with journal := world.journal.measure measurements }

/-- The surroundings with one more notice. -/
def notice (world : World) (notice : Notice) : World :=
  { world with journal := world.journal.notice notice }

/-- The surroundings with one more note, made now. -/
def note (world : World) (sessionId task text : String) : World :=
  { world with journal := world.journal.note ⟨world.clock, sessionId, task, text⟩ }

/-- Carries out an operation on the shared ledger. -/
def operate (world : World) (op : Ledger.Op) : Ledger.Reply × World :=
  let (now, world) := world.stamp
  let world := world.measure (world.ledger.measurementsOf now op)
  let (reply, ledger) := world.ledger.apply now op
  (reply, { world with ledger })

end World

end Coordination
