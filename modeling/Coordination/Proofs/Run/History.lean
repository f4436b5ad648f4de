import Mathlib.Data.List.Chain
import Coordination.Process

/-!
# Runs under any schedule

A run is given stretches one after another, each with a turn, the values of
its session and the surroundings as they are then. A turn may let any of the
waiting tasks go on, one alone for instance, so the histories of a run
(`Run.History`) are its interleavings. What the tasks do is any `behave`, a
`Poll` for each state of a task.

`Traced` tasks remember what they were given and what came of it. Nothing else
depends on that (`Run.give_traced`), so statements about runs can be made about
runs of traced tasks.

* `Run.History.result_of_mem`: a run that has ended is given no further stretch.
-/

namespace Coordination

variable {σ τ : Type}

/-- A stretch that a task was given, and what came of it. -/
structure Exchange (σ : Type) where
  turn : Turn
  context : Context
  world : World
  advance : Advance σ

/-- Whether a stretch left the record of an id in the shared ledger alone. -/
def Exchange.Spares (id : String) (exchange : Exchange σ) : Prop :=
  exchange.advance.world.ledger.get? id = exchange.world.ledger.get? id

instance (id : String) (exchange : Exchange σ) : Decidable (exchange.Spares id) :=
  inferInstanceAs (Decidable (_ = _))

/-- A task and the stretches that it was given so far. -/
structure Traced (σ : Type) where
  task : σ
  past : List (Exchange σ)

namespace Traced

/-- A task before its first stretch. -/
def fresh (task : σ) : Traced σ := ⟨task, []⟩

/-- Gives a task a stretch and notes it down. -/
def poll (behave : σ → Poll σ) (traced : Traced σ) : Poll (Traced σ) := fun turn context world =>
  let advance := behave traced.task turn context world
  { advance with process := ⟨advance.process, traced.past ++ [⟨turn, context, world, advance⟩]⟩ }

/-- The events that a task has yielded so far. -/
def events (traced : Traced σ) : List Event := traced.past.flatMap (·.advance.events)

theorem events_poll (behave : σ → Poll σ) (traced : Traced σ) (turn : Turn) (context : Context)
    (world : World) : (poll behave traced turn context world).process.events =
      traced.events ++ (poll behave traced turn context world).events := by
  simp [poll, events]

/-- Whether a task has come to a good end. -/
def Ended (traced : Traced σ) : Prop :=
  ∃ exchange, traced.past.getLast? = some exchange ∧ exchange.advance.outcome = .ended

theorem ended_poll (behave : σ → Poll σ) (traced : Traced σ) (turn : Turn) (context : Context)
    (world : World) (h : (poll behave traced turn context world).outcome = .ended) :
    (poll behave traced turn context world).process.Ended :=
  ⟨_, List.getLast?_concat, h⟩

/-- Whether a task has left the record of an id in the shared ledger alone. -/
def Spares (id : String) (traced : Traced σ) : Prop :=
  ∀ exchange ∈ traced.past, exchange.Spares id

instance (id : String) (traced : Traced σ) : Decidable (traced.Spares id) :=
  inferInstanceAs (Decidable (∀ exchange ∈ traced.past, exchange.Spares id))

theorem spares_poll (behave : σ → Poll σ) (traced : Traced σ) (turn : Turn) (context : Context)
    (world : World) (id : String)
    (h : (poll behave traced turn context world).process.Spares id) :
    (poll behave traced turn context world).world.ledger.get? id = world.ledger.get? id :=
  h ⟨turn, context, world, behave traced.task turn context world⟩ (by simp [poll])

/-- What can become of a task that is given stretches. -/
inductive Follows (behave : σ → Poll σ) (task : σ) : Traced σ → Prop
  | fresh : Follows behave task (.fresh task)
  | poll {traced : Traced σ} (h : Follows behave task traced) (turn : Turn) (context : Context)
      (world : World) : Follows behave task (poll behave traced turn context world).process

end Traced

/-- The workflow of the same tasks, before their first stretches. -/
def Workflow.traced (workflow : Workflow σ) : Workflow (Traced σ) :=
  ⟨workflow.plan, workflow.members.map fun member => (member.1, .fresh member.2)⟩

/-! ## Histories -/

namespace Run

/-- Gives a run a stretch in which its members do as `behave` says. -/
def give (behave : σ → Poll σ) (run : Run σ) (turn : Turn) (context : Context) (world : World) :
    Step σ :=
  run.poll (run.members.map fun member => behave member.process) turn context world

/-- A run over a tree of tasks does as its tasks do. -/
theorem next_eq_give (run : Run Process) (turn : Turn) (context : Context) (world : World) :
    run.next turn context world = run.give Process.poll turn context world := by
  rw [next, give, Process.polls_eq_map]

end Run

/-- A stretch that a run was given: the turn, the values of its session and
the surroundings that it found, and what came of it. -/
structure Stretch (σ : Type) where
  turn : Turn
  state : KeyMap String
  world : World
  step : Run.Step σ

namespace Run

/-- The histories of a run in a context, the latest stretch first. Between two
stretches anything may happen to the values of the session and to the
surroundings. -/
inductive History (behave : σ → Poll σ) (context : Context) (start : Run σ) :
    List (Stretch σ) → Prop
  | first (turn : Turn) (state : KeyMap String) (world : World) :
    History behave context start
      [⟨turn, state, world, start.give behave turn (context.withState state) world⟩]
  | next {last : Stretch σ} {past : List (Stretch σ)}
      (h : History behave context start (last :: past)) (hopen : last.step.result = none)
      (turn : Turn) (state : KeyMap String) (world : World) :
    History behave context start
      (⟨turn, state, world, last.step.run.give behave turn (context.withState state) world⟩ ::
        last :: past)

/-- Only the latest stretch may end a run. -/
theorem History.result_of_mem {behave : σ → Poll σ} {context : Context} {start : Run σ}
    {last : Stretch σ} {past : List (Stretch σ)}
    (h : History behave context start (last :: past)) :
    ∀ stretch ∈ past, stretch.step.result = none := by
  generalize hhistory : last :: past = history at h
  induction h generalizing last past with
  | first => cases hhistory; exact fun _ hmem => absurd hmem List.not_mem_nil
  | next _ hopen _ _ _ ih =>
    cases hhistory
    rintro stretch (_ | ⟨_, hmem⟩)
    · exact hopen
    · exact ih rfl stretch hmem

/-- Nobody but the run itself touches the record of an id in the shared
ledger: no one between two stretches, and none of the tasks. -/
structure Undisturbed (id : String) (history : List (Stretch (Traced σ))) : Prop where
  between : history.IsChain fun later earlier =>
    later.world.ledger.get? id = earlier.step.world.ledger.get? id
  within : ∀ stretch ∈ history, ∀ member ∈ stretch.step.run.members, member.process.Spares id

theorem Undisturbed.tail {id : String} {last : Stretch (Traced σ)}
    {past : List (Stretch (Traced σ))} (h : Undisturbed id (last :: past)) :
    Undisturbed id past where
  between := h.between.tail
  within := fun stretch hmem => h.within stretch (List.mem_cons_of_mem _ hmem)

end Run

end Coordination
