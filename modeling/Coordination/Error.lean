/-!
# What can go wrong

One type per layer, its constructors the causes. `message` words an error for
a reader, `chain` lists the messages of what caused it, nearest first.

* `PolicyError`: a workflow is not well-formed;
* `LedgerError`: an operation on the ledger of workflow records is refused;
* `TemplateError`: an instruction names a key that has no value;
* `TaskError`: a sub-task fails;
* `ConfigError`: a configuration does not yield a workflow;
* `RunError`: any of these, as a caller of a run sees it.
-/

namespace Coordination

/-- Texts between brackets, set off by commas. -/
def bracketed (items : List String) : String :=
  "[" ++ String.intercalate ", " items ++ "]"

/-- Why a workflow is not well-formed. -/
inductive PolicyError where
  /-- The bound on concurrent sub-tasks lies outside its range. -/
  | workersOutOfRange (value : Nat)
  /-- Sub-tasks share output keys; every shared key, in ascending order. -/
  | duplicateKeys (keys : List String)
  | emptyKey
  | keyTooLong (key : String) (max : Nat)
  | invalidKey (key : String)
  deriving DecidableEq, Repr

/-- The least number of sub-tasks that may run at once. -/
def minWorkers : Nat := 1

/-- The greatest number of sub-tasks that may run at once. -/
def maxWorkers : Nat := 50

/-- The number of sub-tasks that run at once unless a workflow says otherwise. -/
def defaultWorkers : Nat := 5

namespace PolicyError

/-- The wording of an error. -/
def message : PolicyError → String
  | workersOutOfRange value =>
    s!"max_workers must be between {minWorkers} and {maxWorkers}, got {value}"
  | duplicateKeys keys => "Duplicate output key values found: " ++ bracketed keys
  | emptyKey => "Output key cannot be empty"
  | keyTooLong key max => s!"Output key '{key}' exceeds {max} characters"
  | invalidKey key =>
    s!"Output key '{key}' must start with a letter or underscore and contain only letters, " ++
      "digits, underscores"

end PolicyError

/-- Refuses a bound on concurrent sub-tasks outside `minWorkers` to `maxWorkers`. -/
def checkWorkers (value : Nat) : Except PolicyError Unit :=
  if minWorkers ≤ value ∧ value ≤ maxWorkers then .ok () else .error (.workersOutOfRange value)

/-- Why the ledger refuses an operation. -/
inductive LedgerError where
  | notFound (id : String)
  | alreadyExists (id : String)
  /-- A value of `size` bytes where at most `max` are allowed. -/
  | valueTooLarge (key : String) (size max : Nat)
  /-- The record has left the running status; `status` words where it stands. -/
  | alreadySettled (id : String) (status : String)
  deriving DecidableEq, Repr

namespace LedgerError

/-- The wording of an error. -/
def message : LedgerError → String
  | notFound id => s!"Workflow with session ID '{id}' not found"
  | alreadyExists id => s!"Workflow with session ID '{id}' already exists"
  | valueTooLarge key size max =>
    s!"Output value for key '{key}' exceeds maximum size ({size} > {max} bytes)"
  | alreadySettled id status => s!"Workflow '{id}' already settled as {status}"

end LedgerError

/-- Why an instruction cannot be filled in. -/
inductive TemplateError where
  /-- A placeholder names `key`, and only the keys `available` have values. -/
  | missingKey (key : String) (available : List String)
  deriving DecidableEq, Repr

namespace TemplateError

/-- The wording of an error. -/
def message : TemplateError → String
  | missingKey key available =>
    s!"State key '{key}' not found. Available keys: " ++ bracketed available

end TemplateError

/-- A failure that a sub-task reports in its own words, with what led to it. -/
structure Failure where
  message : String
  /-- The messages of the causes, nearest first. -/
  causes : List String
  deriving DecidableEq, Repr

/-- Why a sub-task fails. -/
inductive TaskError where
  | failed (failure : Failure)
  | instruction (error : TemplateError)
  | commit (error : LedgerError)
  deriving DecidableEq, Repr

namespace TaskError

/-- A failure with this wording and no cause. -/
def ofMessage (message : String) : TaskError := .failed ⟨message, []⟩

/-- The wording of an error. -/
def message : TaskError → String
  | failed failure => failure.message
  | instruction error => "Instruction error: " ++ error.message
  | commit error => "Commit rejected: " ++ error.message

/-- The messages of the causes, nearest first. -/
def chain : TaskError → List String
  | failed failure => failure.message :: failure.causes
  | instruction error => [error.message]
  | commit error => [error.message]

end TaskError

/-- Why the file of a configuration cannot be read. -/
inductive ReadFault where
  | missing
  | notUtf8
  deriving DecidableEq, Repr

namespace ReadFault

/-- The wording of a fault. -/
def message : ReadFault → String
  | missing => "No such file or directory (os error 2)"
  | notUtf8 => "stream did not contain valid UTF-8"

end ReadFault

/-- Why a configuration does not yield a workflow. -/
inductive ConfigError where
  | unreadable (fault : ReadFault)
  /-- The text is not a configuration. -/
  | malformed
  | unresolved (name : String)
  | invalid (error : PolicyError)
  deriving DecidableEq, Repr

namespace ConfigError

/-- The wording of an error. -/
def message : ConfigError → String
  | unreadable fault => "IO error: " ++ fault.message
  | malformed => "malformed configuration"
  | unresolved name => s!"Sub-task '{name}' could not be resolved"
  | invalid error => "Invalid workflow: " ++ error.message

/-- The messages of the causes, nearest first. -/
def chain : ConfigError → List String
  | unreadable fault => [fault.message]
  | malformed => []
  | unresolved _ => []
  | invalid error => [error.message]

end ConfigError

/-- Why a caller gets no report, or no workflow to run. -/
inductive RunError where
  | policy (error : PolicyError)
  | ledger (error : LedgerError)
  | task (error : TaskError)
  | template (error : TemplateError)
  | config (error : ConfigError)
  deriving DecidableEq, Repr

namespace RunError

/-- The wording of an error. -/
def message : RunError → String
  | policy error => "Validation error: " ++ error.message
  | ledger error => "Store error: " ++ error.message
  | task error => "Sub-task error: " ++ error.message
  | template error => "Template error: " ++ error.message
  | config error => "Config error: " ++ error.message

/-- The messages of the causes, nearest first. -/
def chain : RunError → List String
  | policy error => [error.message]
  | ledger error => [error.message]
  | task error => error.message :: error.chain
  | template error => [error.message]
  | config error => error.message :: error.chain

/-- The failure of a sub-task whose own run failed with this error. -/
def failure (error : RunError) : Failure := ⟨error.message, error.chain⟩

end RunError

end Coordination
