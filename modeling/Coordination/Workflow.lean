import Coordination.Error
import Coordination.OutputKey
import Coordination.Ledger

/-!
# Workflows

A workflow runs sub-tasks side by side or one after another. A sub-task has a
name and what it does; what it does may be a workflow again, so tasks form a
tree.

* `Workflow.check`: what a workflow has to satisfy to be run;
* `Task.check`: the same for a whole tree, sub-tasks before what holds them.
-/

namespace Coordination

/-- The name of a sub-task and what it is given. -/
structure Definition where
  name : String
  «namespace» : Option String
  /-- The key under which the output is published. -/
  outputKey : Option String
  /-- The template of the instruction. -/
  instruction : Option String
  deriving DecidableEq, Repr

namespace Definition

/-- The namespace of the sub-task, or the given one if it has none. -/
def namespaceOr (definition : Definition) (default : String) : String :=
  definition.namespace.getD default

end Definition

/-- How the sub-tasks of a workflow run. -/
inductive Order where
  /-- Side by side, so many at once. -/
  | parallel (maxWorkers : Nat)
  /-- One after another, up to the first failure. -/
  | sequential
  deriving DecidableEq, Repr

/-- What a workflow says beside its sub-tasks. -/
structure Plan where
  name : String
  «namespace» : String
  order : Order
  /-- The greatest length of an output in bytes, for the workflow's own ledger. -/
  maxValueBytes : Nat
  /-- Whether records go to the shared ledger. -/
  sharesLedger : Bool
  deriving DecidableEq, Repr

namespace Plan

/-- The namespace of a workflow that names none. -/
def defaultNamespace : String := "default"

/-- What a workflow says unless told otherwise. -/
def ofName (name : String) (order : Order) : Plan :=
  ⟨name, defaultNamespace, order, Ledger.defaultMaxValueBytes, false⟩

/-- The bound on concurrent sub-tasks, if they run side by side. -/
def maxWorkers? (plan : Plan) : Option Nat :=
  match plan.order with
  | .parallel maxWorkers => some maxWorkers
  | .sequential => none

end Plan

/-- A workflow over what its sub-tasks do. -/
structure Workflow (τ : Type) where
  plan : Plan
  members : List (Definition × τ)

namespace Workflow

variable {τ : Type}

/-- The output keys of the sub-tasks that have one. -/
def outputKeys (workflow : Workflow τ) : List String :=
  workflow.members.filterMap fun member => member.1.outputKey

/-- Whether some sub-task publishes its output. -/
def isKeyed (workflow : Workflow τ) : Bool :=
  workflow.members.any fun member => member.1.outputKey.isSome

/-- Refuses a bound out of range and output keys that sub-tasks share. -/
def check (workflow : Workflow τ) : Except PolicyError Unit := do
  match workflow.plan.order with
  | .parallel maxWorkers => checkWorkers maxWorkers
  | .sequential => pure ()
  OutputKey.checkUnique workflow.outputKeys

end Workflow

/-- What a sub-task does: something of its own, or a workflow. -/
inductive Task (β : Type) where
  | leaf (body : β)
  | workflow (workflow : Workflow (Task β))

namespace Task

variable {β γ : Type}

mutual

/-- Refuses a tree with a workflow that may not be run. -/
def check : Task β → Except PolicyError Unit
  | .leaf _ => .ok ()
  | .workflow ⟨plan, members⟩ => do
    checkMembers members
    Workflow.check ⟨plan, members⟩
  termination_by structural task => task

/-- Refuses the first task of a list that may not be run. -/
def checkMembers : List (Definition × Task β) → Except PolicyError Unit
  | [] => .ok ()
  | (_, task) :: rest => do
    check task
    checkMembers rest
  termination_by structural members => members

end

mutual

/-- The tree with other leaves. -/
def map (f : β → γ) : Task β → Task γ
  | .leaf body => .leaf (f body)
  | .workflow ⟨plan, members⟩ => .workflow ⟨plan, mapMembers f members⟩
  termination_by structural task => task

/-- The tasks of a list with other leaves. -/
def mapMembers (f : β → γ) : List (Definition × Task β) → List (Definition × Task γ)
  | [] => []
  | (definition, task) :: rest => (definition, map f task) :: mapMembers f rest
  termination_by structural members => members

end

mutual

/-- The sum of a number over all leaves. -/
def total (f : β → Nat) : Task β → Nat
  | .leaf body => f body
  | .workflow ⟨_, members⟩ => totalMembers f members
  termination_by structural task => task

/-- The sum of a number over all leaves of a list. -/
def totalMembers (f : β → Nat) : List (Definition × Task β) → Nat
  | [] => 0
  | (_, task) :: rest => total f task + totalMembers f rest
  termination_by structural members => members

end

end Task

end Coordination
