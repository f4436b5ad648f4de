import Coordination.Process

/-!
# Running by the clock

A run is given a stretch at every instant at which some sub-task has waited
long enough. Between two such instants nothing happens, so the clock goes
straight to the next one.
-/

namespace Coordination

/-- What is left after a run. -/
structure Finish where
  result : Except RunError Report
  /-- The values of the session it ran in. -/
  state : KeyMap String
  world : World

namespace Run

/-- The least of some times. -/
def earliest? : List Nat → Option Nat
  | [] => none
  | time :: rest => some (rest.foldl min time)

/-- Runs to the end, or to the deadline: who can settle at the deadline still
does. The given number bounds the instants; none if they do not suffice. -/
def byClock (deadline : Option (Nat × Nat)) :
    Nat → Run Process → Context → World → Option Finish
  | 0, _, _, _ => none
  | instants + 1, run, context, world =>
    let step := run.next (.at world.clock) context world
    let context := context.withState step.state
    match step.result with
    | some result => some ⟨result, step.state, step.world⟩
    | none =>
      match deadline with
      | none => do
        let next ← earliest? step.run.dues
        byClock deadline instants step.run context { step.world with clock := next }
      | some (millis, time) =>
        if time ≤ world.clock then
          let (result, world) := step.run.expire millis context step.world
          some ⟨result, step.state, world⟩
        else do
          let next ← earliest? (time :: step.run.dues)
          byClock deadline instants step.run context { step.world with clock := next }

end Run

namespace Workflow

/-- Runs a workflow by the clock, a parallel one within a time if one is
given. Its sub-tasks may wait as many times as `pauses` says. -/
def run (workflow : Workflow (Task Body)) (pauses : Nat) (timeout : Option Nat)
    (context : Context) (world : World) : Option Finish :=
  let timeout := if workflow.plan.order = .sequential then none else timeout
  let deadline := timeout.map fun millis => (millis, world.clock + millis)
  workflow.start.byClock deadline (pauses + 2) context world

end Workflow

end Coordination
