import Coordination.Config
import Coordination.Text.Quoted

/-!
# Catalogs of tasks

A catalog holds tasks by name, for all namespaces or for one. A task for the
namespace of a sub-task goes before one for all.
-/

namespace Coordination

/-- Tasks by name, where a name may carry a namespace in front. -/
structure Catalog (τ : Type) where
  tasks : KeyMap τ

namespace Catalog

variable {τ : Type}

/-- No task. -/
def empty : Catalog τ := ⟨.empty⟩

/-- Adds a task for all namespaces, over an earlier one of the name. -/
def register (catalog : Catalog τ) (name : String) (task : τ) : Catalog τ :=
  ⟨catalog.tasks.insert name task⟩

/-- Adds a task for one namespace, over an earlier one of the name. -/
def registerIn (catalog : Catalog τ) («namespace» name : String) (task : τ) : Catalog τ :=
  ⟨catalog.tasks.insert («namespace» ++ "/" ++ name) task⟩

/-- The number of tasks. -/
def size (catalog : Catalog τ) : Nat := catalog.tasks.size

/-- Whether there is no task. -/
def isEmpty (catalog : Catalog τ) : Bool := catalog.tasks.isEmpty

/-- The task for a sub-task. -/
def resolve (catalog : Catalog τ) (definition : Definition) : Option τ :=
  (catalog.tasks.get? definition.qualifiedName).or (catalog.tasks.get? definition.name)

/-- A text that shows the names in a catalog. -/
def describe (catalog : Catalog τ) : String :=
  "SubTaskCatalog \x7b tasks: [" ++
    String.intercalate ", " (catalog.tasks.keys.map Text.quoted) ++ "] \x7d"

end Catalog

/-- A task with the name, and perhaps the one namespace, that it is for. -/
structure Offer (τ : Type) where
  name : String
  «namespace» : Option String
  task : τ

namespace Offer

variable {τ : Type}

/-- Whether an offer is for a sub-task. -/
def fits (offer : Offer τ) (definition : Definition) : Bool :=
  offer.name = definition.name &&
    (offer.namespace.isNone || offer.namespace = definition.namespace)

/-- The task of the first offer that fits. -/
def resolve (offers : List (Offer τ)) (definition : Definition) : Option τ :=
  (offers.find? fun offer => offer.fits definition).map (·.task)

/-- The catalog of some offers, registered in their order. -/
def catalog (offers : List (Offer τ)) : Catalog τ :=
  offers.foldl
    (fun catalog offer =>
      match offer.namespace with
      | some «namespace» => catalog.registerIn «namespace» offer.name offer.task
      | none => catalog.register offer.name offer.task)
    .empty

end Offer

namespace Definition

/-- A text that shows an optional text. -/
def describeOption : Option String → String
  | some text => "Some(" ++ Text.quoted text ++ ")"
  | none => "None"

/-- A text that shows a definition. -/
def describe (definition : Definition) : String :=
  "SubTaskDefinition \x7b name: " ++ Text.quoted definition.name ++
    ", namespace: " ++ describeOption definition.namespace ++
    ", output_key: " ++ describeOption definition.outputKey ++
    ", instruction: " ++ describeOption definition.instruction ++ ", .. \x7d"

end Definition

end Coordination
