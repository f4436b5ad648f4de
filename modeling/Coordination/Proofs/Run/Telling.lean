import Coordination.Proofs.Ledger.Timeless
import Coordination.Proofs.Run.Serving

/-!
# What a record tells beside times

An execution tells how its member has settled (`Execution.ofSettlement`), and
beside that only when it happened and which of the successes it was. So records
of runs in which the members have settled alike tell the same
(`Run.Accord.outputs_eq`, `Run.Accord.find?_unordered`), however their members
took turns.
-/

namespace Coordination

variable {σ : Type}

namespace Execution

/-- The execution without its times and its place among the successes. -/
def unordered (execution : Execution) : Execution :=
  { execution.timeless with completionOrder := none }

/-- The execution that tells how the sub-task of a place has settled. -/
def ofSettlement («namespace» id : String) (index : Nat) (definition : Definition)
    (settlement : Settlement) : Execution where
  index
  taskName := definition.name
  taskNamespace := definition.namespaceOr «namespace»
  sessionId := Context.childId id index
  outputKey := definition.outputKey
  startedAt := .ofMillis 0
  completedAt := .ofMillis 0
  status := if settlement.isSuccess then .success else .failed
  outputSize :=
    if settlement.isSuccess ∧ definition.outputKey.isSome then
      (textOf settlement.events).utf8ByteSize
    else 0
  error := settlement.error
  completionOrder := none

theorem timeless_eq_of_unordered {a b : Execution} (h : a.unordered = b.unordered)
    (horder : a.completionOrder = b.completionOrder) : a.timeless = b.timeless := by
  have hback : ∀ execution : Execution, execution.timeless =
      { execution.unordered with completionOrder := execution.completionOrder } := fun _ => rfl
  rw [hback a, hback b, h, horder]

end Execution

namespace Run

variable {plan plan' : Plan} {id : String} {context : Context}
  {members members' : List (Member (Traced σ))} {record record' : Record}

/-- But for its times and its place among the successes, an execution says how
its member has settled. -/
theorem Accord.unordered_eq (h : Accord plan id members record)
    (htended : record.Tended plan context) {execution : Execution}
    (hmem : execution ∈ record.executions) {definition : Definition} {settlement : Settlement}
    (hsettled : SettledAt members execution.index definition settlement) :
    execution.unordered =
      .ofSettlement plan.namespace id execution.index definition settlement := by
  obtain ⟨d, s, hs, htells⟩ := h.told execution hmem
  obtain ⟨rfl, rfl⟩ : definition = d ∧ settlement = s := by
    rw [SettledAt, hsettled] at hs
    simpa using hs
  have hsize : execution.outputSize =
      if settlement.isSuccess ∧ definition.outputKey.isSome then
        (textOf settlement.events).utf8ByteSize
      else 0 := by
    cases hsuccess : settlement.isSuccess with
    | false =>
      have hfailed : execution.status = .failed := by simp [htells.status, hsuccess]
      simpa using (h.numbered.failed execution hmem hfailed).2.1
    | true =>
      cases hkey : definition.outputKey with
      | none =>
        simpa using htended.unsized execution hmem (htells.draft.outputKey.trans hkey)
      | some key => simpa using htells.outputSize hsuccess (by rw [hkey]; rfl)
  obtain ⟨draft, completedAt, status, outputSize, error, completionOrder⟩ := execution
  obtain ⟨index, taskName, taskNamespace, sessionId, outputKey, startedAt⟩ := draft
  obtain ⟨hdraft, hstatus, herror, -⟩ := htells
  simp only at hdraft hstatus herror hsize
  simp only [Execution.unordered, Execution.timeless, Execution.ofSettlement, hsize, hstatus,
    herror, Execution.mk.injEq, Draft.mk.injEq, and_true, true_and]
  exact ⟨hdraft.taskName, hdraft.taskNamespace, hdraft.sessionId, hdraft.outputKey⟩

/-- A member that has not settled has no execution. -/
theorem Accord.find?_eq_none (h : Accord plan id members record) {index : Nat}
    (hunsettled : ¬ ∃ definition settlement, SettledAt members index definition settlement) :
    record.executions.find? (·.index = index) = none := by
  rw [List.find?_eq_none]
  intro execution hmem hindex
  obtain ⟨definition, settlement, hsettled, -⟩ := h.told execution hmem
  rw [of_decide_eq_true hindex] at hsettled
  exact hunsettled ⟨definition, settlement, hsettled⟩

theorem settledAt_congr (hsame : members.map Member.standing = members'.map Member.standing)
    {index : Nat} {definition : Definition} {settlement : Settlement} :
    SettledAt members index definition settlement ↔
      SettledAt members' index definition settlement := by
  rw [SettledAt, SettledAt, ← List.getElem?_map, ← List.getElem?_map, hsame]

/-- Members that stand alike have settled alike. -/
theorem settlements_congr (hsame : members.map Member.standing = members'.map Member.standing) :
    settlements members = settlements members' := by
  have hsettlements : ∀ members : List (Member (Traced σ)),
      settlements members = (members.map Member.standing).filterMap Prod.snd := by
    intro members
    rw [settlements, List.filterMap_map]
    rfl
  rw [hsettlements, hsettlements, hsame]

/-- So their outputs are the same, -/
theorem Accord.outputs_eq (h : Accord plan id members record)
    (h' : Accord plan' id members' record')
    (hsame : members.map Member.standing = members'.map Member.standing) :
    record.outputs = record'.outputs := by
  refine KeyMap.ext_get? fun key => Option.ext fun value => ?_
  rw [h.outputs, h'.outputs]
  simp only [settledAt_congr hsame]

/-- and so is the execution of every place, but for times and order. -/
theorem Accord.find?_unordered (h : Accord plan id members record)
    (h' : Accord plan' id members' record') (htended : record.Tended plan context)
    (htended' : record'.Tended plan' context)
    (hsame : members.map Member.standing = members'.map Member.standing)
    (hnamespace : plan.namespace = plan'.namespace) (index : Nat) :
    (record.executions.find? (·.index = index)).map (·.unordered) =
      (record'.executions.find? (·.index = index)).map (·.unordered) := by
  by_cases hsettled : ∃ definition settlement, SettledAt members index definition settlement
  · obtain ⟨definition, settlement, hsettled⟩ := hsettled
    have hsettled' := (settledAt_congr hsame).1 hsettled
    obtain ⟨execution, hfind, rfl, -⟩ := h.find?_execution hsettled
    obtain ⟨execution', hfind', hindex, -⟩ := h'.find?_execution hsettled'
    rw [hfind, hfind', Option.map_some, Option.map_some,
      h.unordered_eq htended (List.mem_of_find?_eq_some hfind) hsettled,
      h'.unordered_eq htended' (List.mem_of_find?_eq_some hfind') (hindex ▸ hsettled'),
      hnamespace, hindex]
  · have hsettled' : ¬ ∃ definition settlement, SettledAt members' index definition settlement := by
      simpa only [settledAt_congr hsame] using hsettled
    rw [h.find?_eq_none hsettled, h'.find?_eq_none hsettled']

end Run

end Coordination
