import Coordination.Proofs.Ledger.Entry

/-!
# Operations that are refused

An operation on a record is made of steps: a commit checks the length of the
value, publishes it, takes the next completion order and appends the execution.
Were the steps in another order, one that is taken before the refusal would stay
taken. So the operations are told here step by step (`Ledger.Steps`), where a
refusal undoes nothing, and that comes to the same (`Ledger.stepwise_eq_apply`).

* `Ledger.completions_run`: what no operation of a history counts, is not counted;
* `Ledger.operations_atomic`: a refused operation changes nothing and takes no
  number, and only the length of a value is why an output is refused.
-/

namespace Coordination

namespace Ledger

/-! ## Step by step -/

/-- Steps on a record, one after another. Each may refuse; what those before it
have done to the record stays. -/
abbrev Steps := ExceptT LedgerError (StateM Record)

namespace Steps

/-- Publishes an output and tells its length, unless it is too long. -/
def publish (cap : Nat) (now : Timestamp) (key value : String) : Steps Nat := do
  if cap < value.utf8ByteSize then
    throw (.valueTooLarge key value.utf8ByteSize cap)
  modify (·.publish now key value)
  return value.utf8ByteSize

/-- Takes the next completion order. -/
def takeOrder : Steps Nat := do
  modify fun record => { record with completions := record.completions + 1 }
  return (← get).completions

/-- Publishes the value of a draft, if the draft has a key for it, and appends
its execution with the next completion order. -/
def commit (cap : Nat) (now : Timestamp) (draft : Draft) (value : String) : Steps Execution := do
  let outputSize ←
    match draft.outputKey with
    | some key => publish cap now key value
    | none => pure 0
  let order ← takeOrder
  let execution : Execution :=
    { draft with
      completedAt := now
      status := .success
      outputSize
      error := none
      completionOrder := some order }
  modify (·.append now execution)
  return execution

/-- Appends the execution of a draft that failed. -/
def recordFailure (now : Timestamp) (draft : Draft) (error : String) : Steps Execution := do
  let execution := fail now draft error
  modify (·.append now execution)
  return execution

/-- Brings a running record to its end. -/
def settle (now : Timestamp) (verdict : Verdict) : Steps Record := do
  let record ← get
  if record.status.isSettled then
    throw (.alreadySettled record.id record.status.name)
  modify (·.settle now verdict)
  get

theorem run_get_bind {α : Type} (steps : Record → Steps α) (record : Record) :
    (get >>= steps : Steps α).run record = (steps record).run record := rfl

/-- Takes steps on the record of a workflow. The record stays as they leave it,
whether one of them refuses or not. -/
def on {α : Type} (ledger : Ledger) (id : String) (reply : α → Reply) (steps : Steps α) :
    Reply × Ledger :=
  match ledger.get? id with
  | none => (.refused (.notFound id), ledger)
  | some record =>
    match steps.run record with
    | (.ok answer, record) => (reply answer, ledger.put id record)
    | (.error error, record) => (.refused error, ledger.put id record)

end Steps

/-- Carries out an operation, one on a record step by step. -/
def stepwise (ledger : Ledger) (now : Timestamp) : Op → Reply × Ledger
  | .write id key value =>
    Steps.on ledger id (fun _ => .done) (Steps.publish ledger.maxValueBytes now key value)
  | .commit id draft value =>
    Steps.on ledger id .execution (Steps.commit ledger.maxValueBytes now draft value)
  | .recordFailure id draft error =>
    Steps.on ledger id .execution (Steps.recordFailure now draft error)
  | .settle id verdict => Steps.on ledger id (.record ∘ some) (Steps.settle now verdict)
  | op => ledger.apply now op

section Stepwise

variable {ledger : Ledger} {now : Timestamp} {id : String}

theorem put_of_get? {record : Record} (h : ledger.get? id = some record) :
    ledger.put id record = ledger :=
  setEntry_of_get? h

theorem stepwise_write (key value : String) :
    ledger.stepwise now (.write id key value) = ledger.apply now (.write id key value) := by
  cases hget : ledger.get? id with
  | none =>
    simp only [stepwise, Steps.on, hget, apply, write, find_of_get?_none hget]
    rfl
  | some record =>
    simp only [stepwise, Steps.on, hget, apply, write_of_get? hget]
    by_cases hsize : value.utf8ByteSize ≤ ledger.maxValueBytes
    · have hsteps : (Steps.publish ledger.maxValueBytes now key value).run record =
          (.ok value.utf8ByteSize, record.publish now key value) := by
        simp only [Steps.publish, if_neg (Nat.not_lt.2 hsize)]
        rfl
      rw [hsteps, if_pos hsize]
      rfl
    · have hsteps : (Steps.publish ledger.maxValueBytes now key value).run record =
          (.error (.valueTooLarge key value.utf8ByteSize ledger.maxValueBytes), record) := by
        simp only [Steps.publish, if_pos (Nat.not_le.1 hsize)]
        rfl
      rw [hsteps, if_neg hsize]
      exact Prod.ext rfl (put_of_get? hget)

theorem stepwise_commit (draft : Draft) (value : String) :
    ledger.stepwise now (.commit id draft value) = ledger.apply now (.commit id draft value) := by
  cases hget : ledger.get? id with
  | none =>
    simp only [stepwise, Steps.on, hget, apply, commit, find_of_get?_none hget]
    rfl
  | some record =>
    simp only [stepwise, Steps.on, hget, apply]
    by_cases hfits : Fits ledger.maxValueBytes draft value
    · have hsteps : (Steps.commit ledger.maxValueBytes now draft value).run record =
          (.ok (succeed record now draft value), record.commit now draft value) := by
        cases hkey : draft.outputKey with
        | none =>
          simp only [Steps.commit, Record.commit, succeed, publishDraft, hkey]
          rfl
        | some key =>
          have hsize := Nat.not_lt.2 (hfits (by simp [hkey]))
          simp only [Steps.commit, Steps.publish, Record.commit, succeed, publishDraft, hkey,
            if_neg hsize]
          rfl
      rw [hsteps, commit_of_fits hget hfits]
      rfl
    · obtain ⟨key, hkey, hcommit⟩ := commit_of_not_fits now hget hfits
      have hsize : ledger.maxValueBytes < value.utf8ByteSize := by simpa [Fits, hkey] using hfits
      have hsteps : (Steps.commit ledger.maxValueBytes now draft value).run record =
          (.error (.valueTooLarge key value.utf8ByteSize ledger.maxValueBytes), record) := by
        simp only [Steps.commit, Steps.publish, hkey, if_pos hsize]
        rfl
      rw [hsteps, hcommit]
      exact Prod.ext rfl (put_of_get? hget)

theorem stepwise_settle (verdict : Verdict) :
    ledger.stepwise now (.settle id verdict) = ledger.apply now (.settle id verdict) := by
  cases hget : ledger.get? id with
  | none =>
    simp only [stepwise, Steps.on, hget, apply, settle, find_of_get?_none hget]
    rfl
  | some record =>
    simp only [stepwise, Steps.on, hget, apply, settle_of_get? hget]
    by_cases hsettled : record.status.isSettled
    · have hsteps : (Steps.settle now verdict).run record =
          (.error (.alreadySettled record.id record.status.name), record) := by
        rw [Steps.settle, Steps.run_get_bind, if_pos hsettled]
        rfl
      rw [hsteps, if_pos hsettled]
      exact Prod.ext rfl (put_of_get? hget)
    · have hsteps : (Steps.settle now verdict).run record =
          (.ok (record.settle now verdict), record.settle now verdict) := by
        rw [Steps.settle, Steps.run_get_bind, if_neg hsettled]
        rfl
      rw [hsteps, if_neg hsettled]
      rfl

theorem stepwise_recordFailure (draft : Draft) (error : String) :
    ledger.stepwise now (.recordFailure id draft error) =
      ledger.apply now (.recordFailure id draft error) := by
  cases hget : ledger.get? id with
  | none =>
    simp only [stepwise, Steps.on, hget, apply, recordFailure, find_of_get?_none hget]
    rfl
  | some record =>
    simp only [stepwise, Steps.on, hget, apply, recordFailure_of_get? hget]
    rfl

/-- Step by step every operation comes to the same. -/
theorem stepwise_eq_apply (ledger : Ledger) (now : Timestamp) (op : Op) :
    ledger.stepwise now op = ledger.apply now op := by
  cases op with
  | write id key value => exact stepwise_write key value
  | commit id draft value => exact stepwise_commit draft value
  | recordFailure id draft error => exact stepwise_recordFailure draft error
  | settle id verdict => exact stepwise_settle verdict
  | _ => rfl

end Stepwise

/-! ## Numbers -/

/-- Whether an operation takes a number from the record of a workflow, or takes
the record out. -/
def Op.Counts (cap : Nat) (id : String) : Op → Prop
  | .commit target draft value => target = id ∧ Fits cap draft value
  | .remove target => target = id
  | _ => False

variable {ledger : Ledger} {now : Timestamp} {id : String} {record : Record}

theorem Op.completions_update {cap : Nat} {op : Op} (hnot : ¬ op.Counts cap id)
    (hid : op.id? = some id) (now : Timestamp) {entry : Option Record} {count : Nat}
    (h : entry.map (·.completions) = some count) :
    (op.update cap now entry).map (·.completions) = some count := by
  obtain ⟨record, rfl, rfl⟩ := Option.map_eq_some_iff.1 h
  cases op with
  | remove target => exact absurd (Option.some.inj hid) hnot
  | commit target draft value =>
    have hfits : ¬ Fits cap draft value := fun hfits => hnot ⟨Option.some.inj hid, hfits⟩
    rw [update, if_neg hfits]
    rfl
  | write target key value =>
    simp only [update]
    split <;> rfl
  | settle target verdict =>
    simp only [update]
    split <;> rfl
  | _ => rfl

/-- While no operation takes a number, the count of a record stays. -/
theorem completions_run (hget : ledger.get? id = some record) {ops : List (Timestamp × Op)}
    (hnot : ∀ op ∈ ops, ¬ op.2.Counts ledger.maxValueBytes id) :
    ∃ after, (ledger.run ops).get? id = some after ∧ after.completions = record.completions := by
  refine Option.map_eq_some_iff.1 (run_entry
    (P := fun entry => entry.map (·.completions) = some record.completions) ledger ops ?_ ?_)
  · rw [hget]
    rfl
  · exact fun op hmem hid entry h => Op.completions_update (hnot op hmem) hid op.1 h

/-- A commit that is accepted takes the next number. -/
theorem completionOrder_of_accepted (hget : ledger.get? id = some record) {draft : Draft}
    {value : String} {execution : Execution}
    (h : (ledger.apply now (.commit id draft value)).1 = .execution execution) :
    execution.completionOrder = some (record.completions + 1) := by
  by_cases hfits : Fits ledger.maxValueBytes draft value
  · simp only [apply, commit_of_fits hget hfits, changed, Reply.execution.injEq] at h
    rw [← h]
    rfl
  · obtain ⟨key, -, hcommit⟩ := commit_of_not_fits now hget hfits
    simp [apply, hcommit, changed] at h

/-! ## Refusals -/

/-- Whoever is refused leaves the ledger as it is. -/
theorem apply_of_refused {op : Op} {error : LedgerError}
    (h : (ledger.apply now op).1 = .refused error) : ledger.apply now op = (.refused error, ledger) := by
  have hchanged : ∀ {α : Type} (reply : α → Reply) (answer : Except LedgerError (α × Ledger)),
      (∀ a, reply a ≠ .refused error) → (ledger.changed reply answer).1 = .refused error →
      ledger.changed reply answer = (.refused error, ledger) := by
    rintro α reply (refusal | ⟨a, after⟩) hreply hrefused
    · exact Prod.ext hrefused rfl
    · exact absurd hrefused (hreply a)
  cases op with
  | create | write | commit | recordFailure | settle => exact hchanged _ _ (by simp) h
  | get | getOutput | contains | executionsOf | outputsOf | maxValueBytes => exact Prod.ext h rfl
  | remove => cases h

/-- A write to a held record is refused only for the length of the value. -/
theorem reply_write (now : Timestamp) (hget : ledger.get? id = some record) (key value : String) :
    (ledger.apply now (.write id key value)).1 =
      if value.utf8ByteSize ≤ ledger.maxValueBytes then .done
      else .refused (.valueTooLarge key value.utf8ByteSize ledger.maxValueBytes) := by
  simp only [apply, write_of_get? hget]
  split <;> rfl

/-- So is a commit to it. -/
theorem reply_commit (now : Timestamp) (hget : ledger.get? id = some record) {draft : Draft}
    {key : String} (hkey : draft.outputKey = some key) (value : String) :
    (ledger.apply now (.commit id draft value)).1 =
      if value.utf8ByteSize ≤ ledger.maxValueBytes then
        .execution (succeed record now draft value)
      else .refused (.valueTooLarge key value.utf8ByteSize ledger.maxValueBytes) := by
  have hiff : Fits ledger.maxValueBytes draft value ↔
      value.utf8ByteSize ≤ ledger.maxValueBytes := by simp [Fits, hkey]
  by_cases hfits : Fits ledger.maxValueBytes draft value
  · simp only [apply, commit_of_fits hget hfits, if_pos (hiff.1 hfits)]
    rfl
  · obtain ⟨key', hkey', hcommit⟩ := commit_of_not_fits now hget hfits
    obtain rfl : key = key' := by simpa [hkey] using hkey'
    simp only [apply, hcommit, if_neg (mt hiff.2 hfits)]
    rfl

/-- Every operation on a ledger is carried out as a whole or not at all. -/
structure Atomic (ledger : Ledger) (now : Timestamp) : Prop where
  /-- Who is refused leaves the ledger as it is, also step by step. -/
  unchanged : ∀ op error, (ledger.apply now op).1 = .refused error →
    (ledger.apply now op).2 = ledger ∧ ledger.stepwise now op = (.refused error, ledger)
  /-- A write is refused exactly if the value is longer than the bound, whatever
  the record holds at the key. -/
  write : ∀ id record key value, ledger.get? id = some record →
    (ledger.apply now (.write id key value)).1 =
      if value.utf8ByteSize ≤ ledger.maxValueBytes then .done
      else .refused (.valueTooLarge key value.utf8ByteSize ledger.maxValueBytes)
  /-- So is a commit of an output. -/
  commit : ∀ id record draft key value, ledger.get? id = some record →
    draft.outputKey = some key → (ledger.apply now (.commit id draft value)).1 =
      if value.utf8ByteSize ≤ ledger.maxValueBytes then
        .execution (succeed record now draft value)
      else .refused (.valueTooLarge key value.utf8ByteSize ledger.maxValueBytes)
  /-- A refused commit takes no number: the next one that is accepted gets the
  number that it would have got. -/
  number : ∀ id record draft value error, ledger.get? id = some record →
    (ledger.apply now (.commit id draft value)).1 = .refused error →
    ∀ ops later next text execution,
      (∀ op ∈ ops, ¬ op.2.Counts ledger.maxValueBytes id) →
      (((ledger.apply now (.commit id draft value)).2.run ops).apply later
        (.commit id next text)).1 = .execution execution →
      execution.completionOrder = (succeed record now draft value).completionOrder

/-- A refused operation changes nothing, neither as a whole nor step by step, and
takes no number. An output of a held record is refused for its length alone. -/
theorem operations_atomic (ledger : Ledger) (now : Timestamp) : ledger.Atomic now where
  unchanged := by
    intro op error hrefused
    have happly := apply_of_refused hrefused
    exact ⟨congrArg Prod.snd happly, (stepwise_eq_apply ledger now op).trans happly⟩
  write := fun _ _ key value hget => reply_write now hget key value
  commit := fun _ _ _ _ value hget hkey => reply_commit now hget hkey value
  number := by
    intro id record draft value error hget hrefused ops later next text execution hnot haccepted
    rw [apply_of_refused hrefused] at haccepted
    obtain ⟨after, hafter, hcount⟩ := completions_run hget hnot
    rw [completionOrder_of_accepted hafter haccepted, hcount]
    rfl

/-- A ledger for short outputs, with a record that has one. -/
def slate : Ledger :=
  (empty 4).run
    [(.ofMillis 1, .create "w" "u" "collect" "default"), (.ofMillis 2, .write "w" "k" "v")]

/-- The draft of a sub-task whose output replaces that one. -/
def slateDraft : Draft := ⟨0, "t", "default", "w-sub-0", some "k", .ofMillis 3⟩

theorem operations_atomic_slate :
    (slate.apply (.ofMillis 4) (.commit "w" slateDraft "日本")).1 =
        .refused (.valueTooLarge "k" 6 4) ∧
      (slate.apply (.ofMillis 4) (.commit "w" slateDraft "日本")).2 = slate ∧
      ∀ execution, (((slate.apply (.ofMillis 4) (.commit "w" slateDraft "日本")).2.run
        [(.ofMillis 5, .write "w" "k" "four")]).apply (.ofMillis 6)
          (.commit "w" slateDraft "日")).1 = .execution execution →
        execution.completionOrder = some 1 := by
  obtain ⟨record, hget⟩ : ∃ record, slate.get? "w" = some record := ⟨_, rfl⟩
  have hatomic := operations_atomic slate (.ofMillis 4)
  have hrefused := hatomic.commit "w" record slateDraft "k" "日本" hget rfl
  rw [if_neg (by decide +kernel)] at hrefused
  refine ⟨hrefused, (hatomic.unchanged _ _ hrefused).1, fun execution haccepted => ?_⟩
  have hcount : record.completions = 0 := by
    have : (slate.get? "w").map (·.completions) = some 0 := by decide +kernel
    simpa [hget] using this
  have hnumber := hatomic.number "w" record slateDraft "日本" _ hget hrefused _ _ _ _ execution
    (by simp [Op.Counts]) haccepted
  rw [hnumber, succeed, hcount]

end Ledger

end Coordination
