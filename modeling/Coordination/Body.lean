import Coordination.Context
import Coordination.Event
import Coordination.World

/-!
# What a sub-task does

A `Body` is everything that a sub-task may do, step by step: yield events and
errors, wait, look at its context and go on by what it sees, write into its
session, leave notes, and operate on the shared ledger. It ends after finitely
many steps, however it goes.

A body runs in stretches: from where it waits to where it waits again, or to
its end, nothing else runs. A `Turn` says which waiting sub-tasks may go on;
`Turn.at` is the one that a clock gives.
-/

namespace Coordination

/-- What a sub-task does. -/
inductive Body where
  | finish
  /-- Yields an error. Whoever listens stops here, so `rest` is never reached. -/
  | fail (error : TaskError) (rest : Body)
  | emit (event : Event) (rest : Body)
  /-- Waits for this many milliseconds. -/
  | pause (millis : Nat) (rest : Body)
  /-- Goes on by what the context holds. -/
  | look (next : Context → Body)
  /-- Writes a value into the session. -/
  | write (key value : String) (rest : Body)
  /-- Leaves a note in the name of a task. -/
  | note (task text : String) (rest : Body)
  /-- Operates on the shared ledger and goes on by the answer. -/
  | operate (op : Ledger.Op) (next : Ledger.Reply → Body)

/-- Which waiting sub-tasks go on. A sub-task is named by its place: the
indices that lead to it from the outermost workflow. -/
structure Turn where
  /-- Whether a sub-task goes on that waits until the given time. -/
  resumes : List Nat → Nat → Bool
  /-- Whether a sub-task that waits for a slot asks for it. -/
  admits : List Nat → Bool

namespace Turn

/-- The turn as it looks from inside the sub-task of an index. -/
def below (turn : Turn) (index : Nat) : Turn :=
  ⟨fun place due => turn.resumes (index :: place) due, fun place => turn.admits (index :: place)⟩

/-- The turn at a time: who waits no longer than until then goes on. -/
def «at» (now : Nat) : Turn := ⟨fun _ due => due ≤ now, fun _ => true⟩

end Turn

/-- How the events of a task end. -/
inductive Outcome where
  /-- There may be more. -/
  | pending
  | ended
  | failed (error : TaskError)
  deriving DecidableEq, Repr

/-- A task after a stretch of running. -/
structure Advance (σ : Type) where
  /-- What is left of the task. -/
  process : σ
  /-- The events of the stretch. -/
  events : List Event
  /-- The values of the session after it. -/
  state : KeyMap String
  outcome : Outcome
  world : World

/-- A task that can be given a stretch to run, in a context. -/
abbrev Poll (σ : Type) := Turn → Context → World → Advance σ

/-- A body under way: what is left, and until when it waits. -/
structure Leaf where
  body : Body
  due : Option Nat

namespace Body

/-- Runs a body up to where it waits or ends; `events` were yielded before. -/
def advance (context : Context) (world : World) (events : List Event) : Body → Advance Leaf
  | .finish => ⟨⟨.finish, none⟩, events, context.state, .ended, world⟩
  | .fail error rest => ⟨⟨rest, none⟩, events, context.state, .failed error, world⟩
  | .emit event rest => advance context world (events ++ [event]) rest
  | .pause millis rest =>
    ⟨⟨rest, some (world.clock + millis)⟩, events, context.state, .pending, world⟩
  | .look next => advance context world events (next context)
  | .write key value rest => advance (context.set key value) world events rest
  | .note task text rest => advance context (world.note context.session.id task text) events rest
  | .operate op next => advance context (world.operate op).2 events (next (world.operate op).1)

end Body

namespace Leaf

/-- A body before its start. -/
def ofBody (body : Body) : Leaf := ⟨body, none⟩

/-- Gives a body a stretch, unless it waits on. -/
def poll (leaf : Leaf) : Poll Leaf := fun turn context world =>
  match leaf.due with
  | none => leaf.body.advance context world []
  | some due =>
    if turn.resumes [] due then leaf.body.advance context world []
    else ⟨leaf, [], context.state, .pending, world⟩

end Leaf

end Coordination
