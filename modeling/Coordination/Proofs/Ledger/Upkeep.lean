import Mathlib.Data.List.Range
import Coordination.Proofs.Ledger.Entry

/-!
# How records are kept

What holds of every record in a ledger, whatever operations led to it
(`Record.WellKept`): the successes are numbered in the order in which they
were appended, failures have no number and no output, outputs are within the
bound, and the message and the time of the end belong to the status.

* `Op.update_wellKept`: every operation keeps a record so;
* `status_run_of_settled`: a status other than `running` is final;
* `executions_apply`: an operation appends at most one execution, the one
  that it answers;
* `held_records_wellKept`: all of this for every history.
-/

namespace Coordination

/-- The executions of a record as they are counted. -/
structure Record.Numbered (record : Record) : Prop where
  /-- The successes are numbered from one on, in the order of their ends. -/
  orders : (record.executions.filter (·.isSuccess)).map (·.completionOrder) =
    (List.range' 1 record.completions).map some
  failed : ∀ execution ∈ record.executions, execution.status = .failed →
    execution.completionOrder = none ∧ execution.outputSize = 0 ∧ execution.error.isSome
  succeeded : ∀ execution ∈ record.executions, execution.status = .success →
    execution.error = none

/-- What holds of every record that a ledger keeps. -/
structure Record.WellKept (cap : Nat) (record : Record) : Prop extends record.Numbered where
  bounded : ∀ key value, record.outputs.get? key = some value → value.utf8ByteSize ≤ cap
  message : record.errorMessage.isSome ↔ record.status = .failed
  ended : record.completedAt.isSome ↔ record.status ≠ .running

namespace Record

variable {cap : Nat} {record : Record} {now : Timestamp}

theorem numbered_start (now : Timestamp) (id owner name «namespace» : String) :
    (start now id owner name «namespace»).Numbered where
  orders := rfl
  failed := fun _ h => absurd h List.not_mem_nil
  succeeded := fun _ h => absurd h List.not_mem_nil

namespace Numbered

theorem commit (h : record.Numbered) (now : Timestamp) (draft : Draft) (value : String) :
    (record.commit now draft value).Numbered where
  orders := by
    rw [executions_commit, List.filter_append, List.map_append, h.orders, completions_commit,
      List.range'_1_concat, List.map_append]
    simp [Ledger.succeed, Execution.isSuccess, Nat.add_comm]
  failed := by
    intro execution hmem hfailed
    rw [executions_commit, List.mem_append, List.mem_singleton] at hmem
    rcases hmem with hmem | rfl
    · exact h.failed execution hmem hfailed
    · cases hfailed
  succeeded := by
    intro execution hmem hsuccess
    rw [executions_commit, List.mem_append, List.mem_singleton] at hmem
    rcases hmem with hmem | rfl
    · exact h.succeeded execution hmem hsuccess
    · rfl

theorem appendFailure (h : record.Numbered) (now : Timestamp) (draft : Draft) (error : String) :
    (record.append now (Ledger.fail now draft error)).Numbered where
  orders := by
    simp only [append, List.filter_append, List.map_append, h.orders]
    simp [Ledger.fail, Execution.isSuccess]
  failed := by
    intro execution hmem hfailed
    rcases List.mem_append.1 hmem with hmem | hmem
    · exact h.failed execution hmem hfailed
    · rw [List.mem_singleton.1 hmem]
      exact ⟨rfl, rfl, rfl⟩
  succeeded := by
    intro execution hmem hsuccess
    rcases List.mem_append.1 hmem with hmem | hmem
    · exact h.succeeded execution hmem hsuccess
    · rw [List.mem_singleton.1 hmem] at hsuccess
      cases hsuccess

/-- The counter of a record is the number of its successes. -/
theorem completions_eq (h : record.Numbered) :
    record.completions = record.executions.countP (·.isSuccess) := by
  have := congrArg List.length h.orders
  simpa [List.countP_eq_length_filter] using this.symm

end Numbered

theorem wellKept_start (cap : Nat) (now : Timestamp) (id owner name «namespace» : String) :
    (start now id owner name «namespace»).WellKept cap where
  toNumbered := numbered_start now id owner name «namespace»
  bounded := fun _ _ h => by simp [start] at h
  message := by simp [start]
  ended := by simp [start]

namespace WellKept

theorem bounded_insert (h : record.WellKept cap) {key value : String}
    (hsize : value.utf8ByteSize ≤ cap) (k v : String)
    (hget : (record.outputs.insert key value).get? k = some v) : v.utf8ByteSize ≤ cap := by
  rw [KeyMap.get?_insert] at hget
  split at hget
  · cases hget; exact hsize
  · exact h.bounded k v hget

theorem publish (h : record.WellKept cap) {key value : String}
    (hsize : value.utf8ByteSize ≤ cap) : (record.publish now key value).WellKept cap :=
  { h with bounded := h.bounded_insert hsize }

theorem commit (h : record.WellKept cap) {draft : Draft} {value : String}
    (hfits : Ledger.Fits cap draft value) : (record.commit now draft value).WellKept cap where
  toNumbered := h.toNumbered.commit now draft value
  bounded := by
    rw [outputs_commit]
    cases hkey : draft.outputKey with
    | none => exact h.bounded
    | some key => exact h.bounded_insert (hfits (by simp [hkey]))
  message := by rw [errorMessage_commit, status_commit]; exact h.message
  ended := by rw [completedAt_commit, status_commit]; exact h.ended

theorem appendFailure (h : record.WellKept cap) (draft : Draft) (error : String) :
    (record.append now (Ledger.fail now draft error)).WellKept cap :=
  { h with toNumbered := h.toNumbered.appendFailure now draft error }

theorem settle (h : record.WellKept cap) (verdict : Verdict) :
    (record.settle now verdict).WellKept cap :=
  { h with
    message := by cases verdict <;> simp [Record.settle, Verdict.message, Verdict.status]
    ended := by cases verdict <;> simp [Record.settle, Verdict.status] }

end WellKept

end Record

namespace Ledger

variable {ledger : Ledger} {now : Timestamp} {id : String} {cap : Nat}

/-- Every operation keeps the record that it is about well. -/
theorem Op.update_wellKept (op : Op) (now : Timestamp) (entry : Option Record)
    (h : ∀ record, entry = some record → record.WellKept cap) :
    ∀ record, op.update cap now entry = some record → record.WellKept cap := by
  intro after hafter
  cases entry with
  | none =>
    cases op with
    | create => cases hafter; exact Record.wellKept_start ..
    | _ => cases hafter
  | some record =>
    have hrecord := h record rfl
    cases op with
    | remove => cases hafter
    | write _ key value =>
      obtain rfl := Option.some.inj hafter
      split
      next hsize => exact hrecord.publish hsize
      next => exact hrecord
    | commit _ draft value =>
      obtain rfl := Option.some.inj hafter
      split
      next hfits => exact hrecord.commit hfits
      next => exact hrecord
    | recordFailure _ draft error =>
      obtain rfl := Option.some.inj hafter
      exact hrecord.appendFailure draft error
    | settle _ verdict =>
      obtain rfl := Option.some.inj hafter
      split
      next => exact hrecord
      next => exact hrecord.settle verdict
    | _ =>
      obtain rfl := Option.some.inj hafter
      exact hrecord

theorem wellKept_run (cap : Nat) (ops : List (Timestamp × Op)) (id : String) (record : Record)
    (h : ((empty cap).run ops).get? id = some record) : record.WellKept cap :=
  run_entry (P := fun entry => ∀ record, entry = some record → record.WellKept cap) (empty cap) ops
    (fun _ h => by cases h) (fun op _ _ entry => op.2.update_wellKept op.1 entry) record h

/-! ## What one operation appends -/

/-- An operation leaves the executions of a record as they are (a new record
has none), or appends to its own record the one that it answers. -/
theorem executions_apply (ledger : Ledger) (now : Timestamp) (op : Op) {after : Record}
    (hafter : (ledger.apply now op).2.get? id = some after) :
    after.executions = (ledger.get? id).elim [] (·.executions) ∨
      ∃ execution, op.id? = some id ∧ (ledger.apply now op).1 = .execution execution ∧
        after.executions = (ledger.get? id).elim [] (·.executions) ++ [execution] := by
  rw [get?_apply] at hafter
  split at hafter
  next hid =>
    cases hbefore : ledger.get? id with
    | none =>
      rw [hbefore] at hafter
      cases op with
      | create => cases hafter; exact .inl rfl
      | _ => cases hafter
    | some before =>
      rw [hbefore] at hafter
      cases op with
      | commit target draft value =>
        obtain rfl : target = id := Option.some.inj hid
        obtain rfl := Option.some.inj hafter
        split
        next hfits =>
          refine .inr ⟨succeed before now draft value, rfl, ?_, Record.executions_commit ..⟩
          simp [apply, commit_of_fits hbefore hfits, changed]
        next => exact .inl rfl
      | recordFailure target draft error =>
        obtain rfl : target = id := Option.some.inj hid
        obtain rfl := Option.some.inj hafter
        refine .inr ⟨fail now draft error, rfl, ?_, rfl⟩
        simp [apply, recordFailure_of_get? hbefore, changed]
      | remove => cases hafter
      | write _ _ value =>
        obtain rfl := Option.some.inj hafter
        exact .inl (by split <;> rfl)
      | settle _ verdict =>
        obtain rfl := Option.some.inj hafter
        exact .inl (by split <;> rfl)
      | _ =>
        obtain rfl := Option.some.inj hafter
        exact .inl rfl
  next => rw [hafter]; exact .inl rfl

/-! ## Settled records -/

/-- Only removing it ends a settled record, and nothing changes how it was settled. -/
theorem Op.update_of_settled (op : Op) (cap : Nat) (now : Timestamp) {record : Record}
    (hs : record.status.isSettled) (hremove : ∀ id, op ≠ .remove id) :
    ∃ after, op.update cap now (some record) = some after ∧ after.status = record.status ∧
      after.errorMessage = record.errorMessage ∧ after.completedAt = record.completedAt := by
  cases op with
  | remove id => exact absurd rfl (hremove id)
  | write _ _ value =>
    refine ⟨_, rfl, ?_⟩
    split <;> exact ⟨rfl, rfl, rfl⟩
  | commit _ draft value =>
    refine ⟨_, rfl, ?_⟩
    split
    · exact ⟨Record.status_commit .., Record.errorMessage_commit .., Record.completedAt_commit ..⟩
    · exact ⟨rfl, rfl, rfl⟩
  | settle _ verdict =>
    refine ⟨_, rfl, ?_⟩
    rw [if_pos hs]
    exact ⟨rfl, rfl, rfl⟩
  | _ => exact ⟨_, rfl, rfl, rfl, rfl⟩

/-- How a record was settled stays for as long as the record is held. -/
theorem status_run_of_settled {record : Record} (h : ledger.get? id = some record)
    (hs : record.status.isSettled) {later : List (Timestamp × Op)}
    (hkept : ∀ op ∈ later, op.2 ≠ .remove id) :
    ∃ after, (ledger.run later).get? id = some after ∧ after.status = record.status ∧
      after.errorMessage = record.errorMessage ∧ after.completedAt = record.completedAt := by
  refine run_entry
    (P := fun entry => ∃ after, entry = some after ∧ after.status = record.status ∧
      after.errorMessage = record.errorMessage ∧ after.completedAt = record.completedAt)
    ledger later ⟨record, h, rfl, rfl, rfl⟩ fun op hmem hid entry hentry => ?_
  obtain ⟨before, rfl, hstatus, hmessage, hended⟩ := hentry
  have hremove : ∀ target, op.2 ≠ .remove target := by
    intro target heq
    rw [heq] at hid
    cases hid
    exact hkept op hmem heq
  obtain ⟨after, hafter, hs', hm', he'⟩ :=
    op.2.update_of_settled ledger.maxValueBytes op.1 (hstatus ▸ hs) hremove
  exact ⟨after, hafter, hs'.trans hstatus, hm'.trans hmessage, he'.trans hended⟩

/-! ## Every history -/

/-- After any operations every record held is well kept; the next operation
leaves the executions of a record as they are or appends to its own record the
one that it answers; and once the status is not `running`, it stays until the
record is removed. The counter is the number of successes
(`Record.Numbered.completions_eq`), so 32 bits are enough for fewer than 2³². -/
theorem held_records_wellKept (cap : Nat) (ops : List (Timestamp × Op)) (id : String) :
    (∀ record, ((empty cap).run ops).get? id = some record → record.WellKept cap) ∧
      (∀ now op after, (((empty cap).run ops).apply now op).2.get? id = some after →
        after.executions = (((empty cap).run ops).get? id).elim [] (·.executions) ∨
          ∃ execution, op.id? = some id ∧
            (((empty cap).run ops).apply now op).1 = .execution execution ∧
            after.executions =
              (((empty cap).run ops).get? id).elim [] (·.executions) ++ [execution]) ∧
      (∀ record later, ((empty cap).run ops).get? id = some record → record.status.isSettled →
        (∀ op ∈ later, op.2 ≠ .remove id) →
          ∃ after, ((empty cap).run (ops ++ later)).get? id = some after ∧
            after.status = record.status) := by
  refine ⟨wellKept_run cap ops id, fun now op after h => executions_apply _ now op h,
    fun record later h hs hkept => ?_⟩
  obtain ⟨after, hafter, hstatus, -, -⟩ := status_run_of_settled h hs hkept
  exact ⟨after, by rw [run_append, hafter], hstatus⟩

/-- A workflow that fails after a success, a refused output and a failure. -/
def failedHistory : List (Timestamp × Op) :=
  [(.ofMillis 1, .create "w" "u" "collect" "default"),
    (.ofMillis 2, .commit "w" ⟨0, "east", "default", "w-sub-0", some "k", .ofMillis 1⟩ "日"),
    (.ofMillis 3, .write "w" "k" "four"),
    (.ofMillis 4, .recordFailure "w" ⟨1, "west", "default", "w-sub-1", none, .ofMillis 1⟩ "lost"),
    (.ofMillis 5, .settle "w" (.failed "no west"))]

/-- A failure that is recorded after the end. -/
def lateFailure : Op :=
  .recordFailure "w" ⟨2, "north", "default", "w-sub-2", none, .ofMillis 1⟩ "late"

theorem held_records_wellKept_failedHistory :
    ∃ record after last, ((empty 3).run failedHistory).get? "w" = some record ∧
      record.WellKept 3 ∧
      (((empty 3).run failedHistory).apply (.ofMillis 6) lateFailure).2.get? "w" = some after ∧
      (after.executions = (((empty 3).run failedHistory).get? "w").elim [] (·.executions) ∨
        ∃ execution, lateFailure.id? = some "w" ∧
          (((empty 3).run failedHistory).apply (.ofMillis 6) lateFailure).1 =
            .execution execution ∧
          after.executions =
            (((empty 3).run failedHistory).get? "w").elim [] (·.executions) ++ [execution]) ∧
      record.status.isSettled ∧
      ((empty 3).run (failedHistory ++ [(.ofMillis 6, .settle "w" .completed)])).get? "w" =
        some last ∧ last.status = record.status := by
  obtain ⟨hkept, happend, hfinal⟩ := held_records_wellKept 3 failedHistory "w"
  obtain ⟨last, hlast, hstatus⟩ :=
    hfinal _ [(.ofMillis 6, .settle "w" .completed)] rfl (by decide) (by decide)
  exact ⟨_, _, last, rfl, hkept _ rfl, rfl, happend _ _ _ rfl, by decide, hlast, hstatus⟩

end Ledger

end Coordination
