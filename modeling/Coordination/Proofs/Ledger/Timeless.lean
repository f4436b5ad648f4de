import Coordination.Proofs.Ledger.Entry

/-!
# Records without times

Times are stamped on a record and never read back by the operations on it. So
to forget the times of a record before it is changed or after comes to the same
(`Record.timeless_commit` and its likes): whatever the times were, the rest of a
record is made from the rest of what it was.
-/

namespace Coordination

/-- The draft without its time. -/
def Draft.timeless (draft : Draft) : Draft :=
  { draft with startedAt := .ofMillis 0 }

/-- The execution without its times. -/
def Execution.timeless (execution : Execution) : Execution :=
  { execution with startedAt := .ofMillis 0, completedAt := .ofMillis 0 }

namespace Record

/-- The record without times. -/
def timeless (record : Record) : Record :=
  { record with
    executions := record.executions.map (·.timeless)
    createdAt := .ofMillis 0
    updatedAt := .ofMillis 0
    completedAt := record.completedAt.map fun _ => .ofMillis 0 }

theorem timeless_append (record : Record) (now : Timestamp) (execution : Execution) :
    (record.append now execution).timeless =
      record.timeless.append (.ofMillis 0) execution.timeless := by
  simp only [append, timeless, List.map_append, List.map_cons, List.map_nil]

theorem timeless_settle (record : Record) (now : Timestamp) (verdict : Verdict) :
    (record.settle now verdict).timeless = record.timeless.settle (.ofMillis 0) verdict := rfl

theorem timeless_commit (record : Record) (now : Timestamp) (draft : Draft) (value : String) :
    (record.commit now draft value).timeless =
      record.timeless.commit (.ofMillis 0) draft.timeless value := by
  rw [commit, timeless_append, commit]
  cases draft with
  | mk index taskName taskNamespace sessionId outputKey startedAt => cases outputKey <;> rfl

end Record

end Coordination
