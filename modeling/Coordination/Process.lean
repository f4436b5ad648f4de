import Coordination.Run

/-!
# Trees of tasks under way

A `Process` is a task that is being carried out: a body, or a run whose members
are processes again. A run is to its own workflow what a body is: it yields
events, all of them at its end, and then perhaps a failure.
-/

namespace Coordination

/-- A task that is being carried out. -/
inductive Process where
  | leaf (body : Leaf)
  | workflow (run : Run Process)

namespace Process

/-- A run that was given a stretch, as a task. -/
def ofStep (step : Run.Step Process) : Advance Process :=
  match step.result with
  | none => ⟨.workflow step.run, [], step.state, .pending, step.world⟩
  | some result =>
    match Report.yields result with
    | (events, none) => ⟨.workflow step.run, events, step.state, .ended, step.world⟩
    | (events, some error) => ⟨.workflow step.run, events, step.state, .failed error, step.world⟩

/-- A body that was given a stretch, as a task. -/
def ofLeaf (advance : Advance Leaf) : Advance Process :=
  { advance with process := .leaf advance.process }

mutual

/-- Gives a task a stretch. -/
def poll : Process → Poll Process
  | .leaf body => fun turn context world => ofLeaf (body.poll turn context world)
  | .workflow ⟨plan, stage, members⟩ => fun turn context world =>
    ofStep (Run.poll ⟨plan, stage, members⟩ (polls members) turn context world)
  termination_by structural process => process

/-- What the members of a run do, in their order. -/
def polls : List (Member Process) → List (Poll Process)
  | [] => []
  | ⟨_, _, process⟩ :: rest => poll process :: polls rest
  termination_by structural members => members

end

theorem polls_eq_map (members : List (Member Process)) :
    polls members = members.map fun member => poll member.process := by
  induction members with
  | nil => rfl
  | cons member rest ih => simp [polls, ih]

mutual

/-- What it does to the surroundings to drop a task before its end. -/
def abandon : Process → Run.Abandon
  | .leaf _ => id
  | .workflow ⟨plan, stage, members⟩ => Run.abandon ⟨plan, stage, members⟩ (abandons members)
  termination_by structural process => process

/-- The same for the members of a run, in their order. -/
def abandons : List (Member Process) → List Run.Abandon
  | [] => []
  | ⟨_, _, process⟩ :: rest => abandon process :: abandons rest
  termination_by structural members => members

end

mutual

/-- The times until which the sub-tasks of a tree wait. -/
def dues : Process → List Nat
  | .leaf body => body.due.toList
  | .workflow ⟨_, _, members⟩ => duesOfMembers members
  termination_by structural process => process

/-- The times until which the started members of a run wait. -/
def duesOfMembers : List (Member Process) → List Nat
  | [] => []
  | ⟨_, .running .., process⟩ :: rest => dues process ++ duesOfMembers rest
  | _ :: rest => duesOfMembers rest
  termination_by structural members => members

end

mutual

/-- A task before its start. -/
def ofTask : Task Body → Process
  | .leaf body => .leaf (.ofBody body)
  | .workflow ⟨plan, members⟩ => .workflow (.ofWorkflow ⟨plan, ofMembers members⟩)
  termination_by structural task => task

/-- The tasks of a workflow before their start. -/
def ofMembers : List (Definition × Task Body) → List (Definition × Process)
  | [] => []
  | (definition, task) :: rest => (definition, ofTask task) :: ofMembers rest
  termination_by structural members => members

end

end Process

namespace Workflow

/-- A run of a workflow before its start. -/
def start (workflow : Workflow (Task Body)) : Run Process :=
  .ofWorkflow ⟨workflow.plan, Process.ofMembers workflow.members⟩

end Workflow

namespace Run

/-- Gives a run over a tree of tasks a stretch. -/
def next (run : Run Process) (turn : Turn) (context : Context) (world : World) : Step Process :=
  run.poll (Process.polls run.members) turn context world

/-- Cancels a run over a tree of tasks. -/
def expire (run : Run Process) (deadline : Nat) (context : Context) (world : World) :
    Except RunError Report × World :=
  run.cancel (Process.abandons run.members) deadline context world

/-- The times until which sub-tasks of the run wait. -/
def dues (run : Run Process) : List Nat := Process.duesOfMembers run.members

end Run

end Coordination
