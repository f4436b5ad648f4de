import Coordination.Proofs.Journal.Level
import Coordination.Proofs.Ledger.Entry

/-!
# The names of records

A record bears the name of its workflow from its creation on; no operation changes it. So
what is known of the names in a ledger (`Ledger.Named`) is kept by every operation, but
for the creation of a record under another name (`Named.apply`), and a commit is measured
under a name in the ledger (`Named.measurementsOf`).
-/

namespace Coordination

namespace Ledger

/-- Whether all records of a ledger bear names that `R` allows for their ids. -/
def Named (R : String → String → Prop) (ledger : Ledger) : Prop :=
  ∀ id record, ledger.get? id = some record → R id record.workflowName

variable {R : String → String → Prop} {ledger : Ledger} {now : Timestamp} {op : Op}

theorem named_empty (maxValueBytes : Nat) : (empty maxValueBytes).Named R := by
  intro id record h
  cases h

/-- An operation leaves a record its name, or has just brought it in under it. -/
theorem Op.workflowName_update {cap : Nat} {entry : Option Record} {record : Record}
    (h : op.update cap now entry = some record) :
    (∃ before, entry = some before ∧ record.workflowName = before.workflowName) ∨
      ∃ id owner «namespace», op = .create id owner record.workflowName «namespace» := by
  cases op with
  | create id owner name «namespace» =>
    cases entry with
    | none =>
      obtain rfl := Option.some.inj h
      exact .inr ⟨id, owner, «namespace», rfl⟩
    | some before => exact .inl ⟨before, rfl, by rw [← Option.some.inj h]⟩
  | remove => cases h
  | get | getOutput | contains | executionsOf | outputsOf | maxValueBytes =>
    exact .inl ⟨record, h, rfl⟩
  | write | commit | recordFailure | settle =>
    cases entry with
    | none => cases h
    | some before =>
      refine .inl ⟨before, rfl, ?_⟩
      obtain rfl := Option.some.inj h
      first | rfl | (split <;> simp [Record.publish, Record.settle])

/-- What is known of the names in a ledger stays known. -/
theorem Named.apply (h : ledger.Named R)
    (hcreate : ∀ id owner name «namespace», op = .create id owner name «namespace» → R id name)
    (now : Timestamp) : (ledger.apply now op).2.Named R := by
  intro id record hget
  rw [get?_apply] at hget
  split at hget
  next hid =>
    rcases Op.workflowName_update hget with ⟨before, hbefore, hname⟩ | ⟨target, owner, _, rfl⟩
    · exact hname ▸ h id before hbefore
    · obtain rfl : target = id := Option.some.inj hid
      exact hcreate _ _ _ _ rfl
  next => exact h id record hget

/-- A commit is measured under the name that its record bears. -/
theorem Named.measurementsOf (h : ledger.Named R) {measurement : Measurement}
    (hmem : measurement ∈ ledger.measurementsOf now op) :
    ∃ id draft value, op = .commit id draft value ∧ R id measurement.workflow := by
  cases op with
  | commit id draft value =>
    refine ⟨id, draft, value, rfl, ?_⟩
    cases hget : ledger.get? id with
    | none => simp [Ledger.measurementsOf, find_of_get?_none hget] at hmem
    | some record =>
      simp only [Ledger.measurementsOf, find_of_get? hget] at hmem
      split at hmem
      next execution _ hfound _ =>
        obtain rfl := Except.ok.inj hfound
        have hname : measurement.workflow = record.workflowName := by
          unfold commitMeasurements at hmem
          split at hmem <;> simp only [List.mem_append, List.mem_singleton, List.not_mem_nil,
            false_or] at hmem
          · rcases hmem with rfl | rfl <;> rfl
          · rw [hmem]
            rfl
        exact hname ▸ h id record hget
      next => cases hmem
  | _ => cases hmem

end Ledger

end Coordination
