import Coordination.Error
import Coordination.Journal
import Coordination.Record

/-!
# The ledger of workflow records

A ledger holds records by the session id of the run they belong to, and bounds
the length of an output in bytes. Operations are data (`Ledger.Op`), so that a
history is a list of them.

* `create`, `remove`: bring a record in and take it out;
* `write`, `commit`, `recordFailure`, `settle`: change one record, or are
  refused and change nothing;
* `apply`: any operation, with what it answers.
-/

namespace Coordination

/-- Records by id, and the greatest length of an output in bytes. -/
structure Ledger where
  maxValueBytes : Nat
  records : KeyMap Record
  deriving DecidableEq, Repr

namespace Ledger

/-- The greatest length of an output unless a ledger says otherwise. -/
def defaultMaxValueBytes : Nat := 10485760

/-- A ledger without records. -/
def empty (maxValueBytes : Nat) : Ledger := ⟨maxValueBytes, .empty⟩

/-- The record of a workflow. -/
def get? (ledger : Ledger) (id : String) : Option Record := ledger.records.get? id

/-- Whether a workflow has a record. -/
def contains (ledger : Ledger) (id : String) : Bool := ledger.records.contains id

/-- The number of records. -/
def size (ledger : Ledger) : Nat := ledger.records.size

/-- The record of a workflow, or the refusal to look for it. -/
def find (ledger : Ledger) (id : String) : Except LedgerError Record :=
  match ledger.get? id with
  | some record => .ok record
  | none => .error (.notFound id)

/-- The ledger with a record at an id. -/
def put (ledger : Ledger) (id : String) (record : Record) : Ledger :=
  { ledger with records := ledger.records.insert id record }

/-- Starts the record of a workflow that has none. -/
def create (ledger : Ledger) (now : Timestamp) (id owner workflowName «namespace» : String) :
    Except LedgerError (Record × Ledger) :=
  if ledger.contains id then .error (.alreadyExists id)
  else
    let record := Record.start now id owner workflowName «namespace»
    .ok (record, ledger.put id record)

/-- Takes a record out. -/
def remove (ledger : Ledger) (id : String) : Option Record × Ledger :=
  (ledger.get? id, { ledger with records := ledger.records.erase id })

/-- Refuses a value that is too long for an output. -/
def checkSize (ledger : Ledger) (key value : String) : Except LedgerError Unit :=
  if ledger.maxValueBytes < value.utf8ByteSize then
    .error (.valueTooLarge key value.utf8ByteSize ledger.maxValueBytes)
  else .ok ()

/-- Publishes an output. -/
def write (ledger : Ledger) (now : Timestamp) (id key value : String) :
    Except LedgerError Ledger := do
  let record ← ledger.find id
  ledger.checkSize key value
  return ledger.put id (record.publish now key value)

/-- The execution of a draft that succeeded as the next one of a record. -/
def succeed (record : Record) (now : Timestamp) (draft : Draft) (value : String) : Execution where
  toDraft := draft
  completedAt := now
  status := .success
  outputSize := if draft.outputKey.isSome then value.utf8ByteSize else 0
  error := none
  completionOrder := some (record.completions + 1)

/-- The execution of a draft that failed. -/
def fail (now : Timestamp) (draft : Draft) (error : String) : Execution where
  toDraft := draft
  completedAt := now
  status := .failed
  outputSize := 0
  error := some error
  completionOrder := none

/-- The record with the output of a draft, if the draft has a key for it. -/
def publishDraft (record : Record) (now : Timestamp) (draft : Draft) (value : String) : Record :=
  match draft.outputKey with
  | some key => record.publish now key value
  | none => record

/-- Refuses a value that is too long for the output of a draft. -/
def checkDraft (ledger : Ledger) (draft : Draft) (value : String) : Except LedgerError Unit :=
  match draft.outputKey with
  | some key => ledger.checkSize key value
  | none => .ok ()

/-- Records a success: publishes the value under the key of the draft, if it
has one, and appends an execution with the next completion order. -/
def commit (ledger : Ledger) (now : Timestamp) (id : String) (draft : Draft) (value : String) :
    Except LedgerError (Execution × Ledger) := do
  let record ← ledger.find id
  ledger.checkDraft draft value
  let execution := succeed record now draft value
  let published := publishDraft record now draft value
  let counted := { published with completions := record.completions + 1 }
  return (execution, ledger.put id (counted.append now execution))

/-- What a commit to a record lets others observe. -/
def commitMeasurements (record : Record) (execution : Execution) : List Measurement :=
  (if execution.outputKey.isSome then
      [.outputWritten record.workflowName record.namespace]
    else []) ++
    [.turnAwaited record.workflowName]

/-- Records a failure. -/
def recordFailure (ledger : Ledger) (now : Timestamp) (id : String) (draft : Draft)
    (error : String) : Except LedgerError (Execution × Ledger) := do
  let record ← ledger.find id
  let execution := fail now draft error
  return (execution, ledger.put id (record.append now execution))

/-- The outputs of a workflow. -/
def outputsOf (ledger : Ledger) (id : String) : Except LedgerError (KeyMap String) := do
  return (← ledger.find id).outputs

/-- The executions of a workflow. -/
def executionsOf (ledger : Ledger) (id : String) : Except LedgerError (List Execution) := do
  return (← ledger.find id).executions

/-- Brings a running workflow to its end. -/
def settle (ledger : Ledger) (now : Timestamp) (id : String) (verdict : Verdict) :
    Except LedgerError (Record × Ledger) := do
  let record ← ledger.find id
  if record.status.isSettled then throw (.alreadySettled record.id record.status.name)
  let settled := record.settle now verdict
  return (settled, ledger.put id settled)

/-- An operation on a ledger. -/
inductive Op where
  | create (id owner workflowName «namespace» : String)
  | get (id : String)
  | getOutput (id key : String)
  | contains (id : String)
  | remove (id : String)
  | write (id key value : String)
  | commit (id : String) (draft : Draft) (value : String)
  | recordFailure (id : String) (draft : Draft) (error : String)
  | executionsOf (id : String)
  | outputsOf (id : String)
  | settle (id : String) (verdict : Verdict)
  | maxValueBytes
  deriving DecidableEq, Repr

/-- The workflow that an operation is about. -/
def Op.id? : Op → Option String
  | create id .. | get id | getOutput id _ | contains id | remove id | write id .. | commit id ..
  | recordFailure id .. | executionsOf id | outputsOf id | settle id _ => some id
  | maxValueBytes => none

/-- What an operation answers. -/
inductive Reply where
  | done
  | record (record : Option Record)
  | output (value : Option String)
  | flag (value : Bool)
  | execution (execution : Execution)
  | executions (executions : List Execution)
  | outputs (outputs : KeyMap String)
  | number (value : Nat)
  | refused (error : LedgerError)
  deriving DecidableEq, Repr

/-- An operation that changed the ledger or was refused. -/
def changed {α : Type} (ledger : Ledger) (reply : α → Reply) :
    Except LedgerError (α × Ledger) → Reply × Ledger
  | .ok (answer, ledger) => (reply answer, ledger)
  | .error error => (.refused error, ledger)

/-- A question that was answered or refused. -/
def answered {α : Type} (reply : α → Reply) : Except LedgerError α → Reply
  | .ok answer => reply answer
  | .error error => .refused error

/-- Carries out an operation. -/
def apply (ledger : Ledger) (now : Timestamp) : Op → Reply × Ledger
  | .create id owner name «namespace» =>
    ledger.changed (.record ∘ some) (ledger.create now id owner name «namespace»)
  | .get id => (.record (ledger.get? id), ledger)
  | .getOutput id key => (.output ((ledger.get? id).bind (·.outputs.get? key)), ledger)
  | .contains id => (.flag (ledger.contains id), ledger)
  | .remove id => (.record (ledger.remove id).1, (ledger.remove id).2)
  | .write id key value =>
    ledger.changed (fun (_ : Unit) => .done) ((ledger.write now id key value).map ((), ·))
  | .commit id draft value => ledger.changed .execution (ledger.commit now id draft value)
  | .recordFailure id draft error =>
    ledger.changed .execution (ledger.recordFailure now id draft error)
  | .executionsOf id => (answered .executions (ledger.executionsOf id), ledger)
  | .outputsOf id => (answered .outputs (ledger.outputsOf id), ledger)
  | .settle id verdict => ledger.changed (.record ∘ some) (ledger.settle now id verdict)
  | .maxValueBytes => (.number ledger.maxValueBytes, ledger)

/-- What an operation lets others observe. -/
def measurementsOf (ledger : Ledger) (now : Timestamp) : Op → List Measurement
  | .commit id draft value =>
    match ledger.find id, ledger.commit now id draft value with
    | .ok record, .ok (execution, _) => commitMeasurements record execution
    | _, _ => []
  | _ => []

/-- The ledger after operations, each at its time. -/
def run (ledger : Ledger) (ops : List (Timestamp × Op)) : Ledger :=
  ops.foldl (fun ledger op => (ledger.apply op.1 op.2).2) ledger

end Ledger

end Coordination
