import Coordination.Workflow

/-!
# Configurations

A configuration describes a workflow by the names of its sub-tasks. It becomes
a workflow once every name has been resolved to a task.

* `Config.outputKeys`: the key of each sub-task, its own or one made of names;
* `Config.validate`: what can be checked without tasks;
* `Config.build`: the workflow. The resolver is asked in some monad, about one
  sub-task after another, each with its namespace.
-/

namespace Coordination

/-- How the sub-tasks of a configured workflow run. -/
inductive WorkflowType where
  | parallel
  | sequential
  deriving DecidableEq, Repr

namespace WorkflowType

/-- The name of a type. -/
def name : WorkflowType → String
  | parallel => "parallel"
  | sequential => "sequential"

/-- The name of a type at the start of a heading. -/
def title : WorkflowType → String
  | parallel => "Parallel"
  | sequential => "Sequential"

/-- All types. -/
def all : List WorkflowType := [parallel, sequential]

end WorkflowType

/-- The type of an order. -/
def Order.type : Order → WorkflowType
  | parallel _ => .parallel
  | sequential => .sequential

/-- A workflow described by names. -/
structure Config where
  name : String
  description : String
  «namespace» : String
  type : WorkflowType
  maxWorkers : Nat
  maxValueBytes : Nat
  subTasks : List Definition
  deriving DecidableEq, Repr

/-- The name of a sub-task with its namespace in front, if it has one. -/
def Definition.qualifiedName (definition : Definition) : String :=
  match definition.namespace with
  | some «namespace» => «namespace» ++ "/" ++ definition.name
  | none => definition.name

namespace Config

/-- A configuration that says nothing but a name. -/
def ofName (name : String) : Config where
  name
  description := ""
  «namespace» := Plan.defaultNamespace
  type := .parallel
  maxWorkers := defaultWorkers
  maxValueBytes := Ledger.defaultMaxValueBytes
  subTasks := []

/-- The key of a sub-task: its own as it is, or one made of its namespace and name. -/
def outputKey (config : Config) (definition : Definition) : Except PolicyError String :=
  match definition.outputKey with
  | some key => .ok key
  | none => do
    let key := OutputKey.generate (definition.namespaceOr config.namespace) definition.name
    OutputKey.check key OutputKey.generatedMaxLength
    return key

/-- The keys of the sub-tasks, in their order. -/
def outputKeys (config : Config) : Except PolicyError (List String) :=
  config.subTasks.mapM config.outputKey

/-- Refuses a bound out of range, a key that cannot be made, and keys that sub-tasks share. -/
def validate (config : Config) : Except PolicyError Unit := do
  if config.type = .parallel then checkWorkers config.maxWorkers
  OutputKey.checkUnique (← config.outputKeys)

/-- What the workflow says beside its sub-tasks. -/
def plan (config : Config) : Plan where
  name := config.name
  «namespace» := config.namespace
  order :=
    match config.type with
    | .parallel => .parallel config.maxWorkers
    | .sequential => .sequential
  maxValueBytes := config.maxValueBytes
  sharesLedger := false

/-- A sub-task with the namespace of the configuration if it has none. -/
def inherit (config : Config) (definition : Definition) : Definition :=
  { definition with «namespace» := some (definition.namespaceOr config.namespace) }

/-- Finds the tasks of sub-tasks, one after another up to the first without one. -/
def resolveAll {m : Type → Type} [Monad m] {τ : Type} (config : Config)
    (resolve : Definition → m (Option τ)) :
    List (Definition × String) → m (Except ConfigError (List (Definition × τ)))
  | [] => pure (.ok [])
  | (definition, key) :: rest => do
    let inherited := config.inherit definition
    match ← resolve inherited with
    | none => return .error (.unresolved inherited.qualifiedName)
    | some task =>
      match ← resolveAll config resolve rest with
      | .error error => return .error error
      | .ok members => return .ok (({ inherited with outputKey := some key }, task) :: members)

/-- The workflow that a configuration describes. -/
def build {m : Type → Type} [Monad m] {τ : Type} (config : Config)
    (resolve : Definition → m (Option τ)) : m (Except ConfigError (Workflow τ)) :=
  match config.outputKeys with
  | .error error => pure (.error (.invalid error))
  | .ok keys => do
    match ← config.resolveAll resolve (config.subTasks.zip keys) with
    | .error error => return .error error
    | .ok members =>
      let workflow : Workflow τ := ⟨config.plan, members⟩
      match workflow.check with
      | .error error => return .error (.invalid error)
      | .ok _ => return .ok workflow

/-- The notice that a workflow was built. -/
def builtNotice (config : Config) : Notice :=
  .workflowBuilt config.name config.type.title config.subTasks.length

end Config

end Coordination
