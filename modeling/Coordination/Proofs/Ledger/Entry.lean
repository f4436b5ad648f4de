import Coordination.Ledger

/-!
# A ledger entry by entry

What an operation does to a ledger is what it makes of one entry: the record
of the workflow that it is about, or the lack of one (`Op.update`).

* `write_of_get?`, `commit_of_fits`, `commit_of_not_fits`,
  `recordFailure_of_get?`, `settle_of_get?`: what each operation answers on a
  record that is held;
* `apply_snd`, `get?_apply`: an operation sets the entry of its own workflow
  and does nothing else;
* `apply_snd_of_ok`: what holds of every operation holds of one that was accepted;
* `run_append`, `maxValueBytes_run`: histories.
-/

namespace Coordination

namespace Record

/-- The record after the success of a draft: its output, if it has a key for
one, the next completion order and one more execution. -/
def commit (record : Record) (now : Timestamp) (draft : Draft) (value : String) : Record :=
  { Ledger.publishDraft record now draft value with completions := record.completions + 1 }.append
    now (Ledger.succeed record now draft value)

section Commit

variable (record : Record) (now : Timestamp) (draft : Draft) (value : String)

/-- A commit sets four of the fields. -/
theorem commit_eq : record.commit now draft value =
    { record with
      outputs := (Ledger.publishDraft record now draft value).outputs
      executions := record.executions ++ [Ledger.succeed record now draft value]
      completions := record.completions + 1
      updatedAt := now } := by
  simp only [commit, append, Ledger.publishDraft]
  split <;> rfl

theorem outputs_commit : (record.commit now draft value).outputs =
    match draft.outputKey with
    | some key => record.outputs.insert key value
    | none => record.outputs := by
  simp only [commit_eq, Ledger.publishDraft]
  cases draft.outputKey <;> rfl

@[simp] theorem executions_commit : (record.commit now draft value).executions =
    record.executions ++ [Ledger.succeed record now draft value] := by
  rw [commit_eq]

@[simp] theorem completions_commit :
    (record.commit now draft value).completions = record.completions + 1 := rfl

@[simp] theorem status_commit : (record.commit now draft value).status = record.status := by
  rw [commit_eq]

@[simp] theorem errorMessage_commit :
    (record.commit now draft value).errorMessage = record.errorMessage := by
  rw [commit_eq]

@[simp] theorem completedAt_commit :
    (record.commit now draft value).completedAt = record.completedAt := by
  rw [commit_eq]

@[simp] theorem workflowName_commit :
    (record.commit now draft value).workflowName = record.workflowName := by
  rw [commit_eq]

@[simp] theorem namespace_commit :
    (record.commit now draft value).namespace = record.namespace := by
  rw [commit_eq]

end Commit

end Record

namespace Ledger

/-- Whether a value is short enough for the output of a draft. -/
def Fits (cap : Nat) (draft : Draft) (value : String) : Prop :=
  draft.outputKey.isSome → value.utf8ByteSize ≤ cap

instance (cap : Nat) (draft : Draft) (value : String) : Decidable (Fits cap draft value) :=
  inferInstanceAs (Decidable (_ → _))

/-! ## What the operations answer -/

@[simp] theorem get?_put (ledger : Ledger) (id : String) (record : Record) (other : String) :
    (ledger.put id record).get? other = if id = other then some record else ledger.get? other :=
  KeyMap.get?_insert _ _ _ _

@[simp] theorem get?_empty (cap : Nat) (id : String) : (empty cap).get? id = none := rfl

variable {ledger : Ledger} {now : Timestamp} {id : String} {record : Record}

theorem find_of_get? (h : ledger.get? id = some record) : ledger.find id = .ok record := by
  simp only [find, h]

theorem find_of_get?_none (h : ledger.get? id = none) : ledger.find id = .error (.notFound id) := by
  simp only [find, h]

theorem get?_of_find (h : ledger.find id = .ok record) : ledger.get? id = some record := by
  unfold find at h
  split at h
  · rwa [← Except.ok.inj h]
  · cases h

theorem create_of_get?_none (h : ledger.get? id = none) (owner name «namespace» : String) :
    ledger.create now id owner name «namespace» =
      .ok (.start now id owner name «namespace»,
        ledger.put id (.start now id owner name «namespace»)) := by
  have hc : ledger.contains id = false := by
    simp only [contains, KeyMap.contains]
    rw [show ledger.records.get? id = none from h]
    rfl
  simp [create, hc]

theorem create_of_get? (h : ledger.get? id = some record) (owner name «namespace» : String) :
    ledger.create now id owner name «namespace» = .error (.alreadyExists id) := by
  have hc : ledger.contains id = true := by
    simp only [contains, KeyMap.contains]
    rw [show ledger.records.get? id = some record from h]
    rfl
  simp [create, hc]

theorem write_of_get? (h : ledger.get? id = some record) (key value : String) :
    ledger.write now id key value =
      if value.utf8ByteSize ≤ ledger.maxValueBytes then
        .ok (ledger.put id (record.publish now key value))
      else .error (.valueTooLarge key value.utf8ByteSize ledger.maxValueBytes) := by
  simp only [write, find_of_get? h, checkSize]
  by_cases hsize : value.utf8ByteSize ≤ ledger.maxValueBytes
  · simp [hsize, Nat.not_lt.2 hsize, bind, Except.bind, pure, Except.pure]
  · simp [hsize, Nat.not_le.1 hsize, bind, Except.bind]

theorem commit_of_fits (h : ledger.get? id = some record) {draft : Draft} {value : String}
    (hfits : Fits ledger.maxValueBytes draft value) :
    ledger.commit now id draft value =
      .ok (succeed record now draft value, ledger.put id (record.commit now draft value)) := by
  simp only [commit, find_of_get? h, checkDraft, checkSize, bind, Except.bind, pure, Except.pure]
  cases hkey : draft.outputKey with
  | none => rfl
  | some key =>
    have hsize := Nat.not_lt.2 (hfits (by simp [hkey]))
    simp only [hsize, ↓reduceIte]
    rfl

theorem commit_of_not_fits (now : Timestamp) (h : ledger.get? id = some record) {draft : Draft}
    {value : String} (hfits : ¬ Fits ledger.maxValueBytes draft value) :
    ∃ key, draft.outputKey = some key ∧ ledger.commit now id draft value =
      .error (.valueTooLarge key value.utf8ByteSize ledger.maxValueBytes) := by
  cases hkey : draft.outputKey with
  | none => exact absurd (fun hsome => by simp [hkey] at hsome) hfits
  | some key =>
    have hsize : ledger.maxValueBytes < value.utf8ByteSize := by
      simpa [Fits, hkey] using hfits
    refine ⟨key, rfl, ?_⟩
    simp [commit, find_of_get? h, checkDraft, checkSize, hkey, hsize, bind, Except.bind]

/-- What a commit has done that was not refused. -/
theorem commit_eq_ok {draft : Draft} {value : String} {execution : Execution} {after : Ledger}
    (hget : ledger.get? id = some record)
    (h : ledger.commit now id draft value = .ok (execution, after)) :
    execution = succeed record now draft value ∧
      after = ledger.put id (record.commit now draft value) := by
  by_cases hfits : Fits ledger.maxValueBytes draft value
  · rw [commit_of_fits hget hfits] at h
    obtain ⟨rfl, rfl⟩ := Prod.mk.inj (Except.ok.inj h)
    exact ⟨rfl, rfl⟩
  · obtain ⟨key, -, hrefused⟩ := commit_of_not_fits now hget hfits
    simp [hrefused] at h

theorem recordFailure_of_get? (h : ledger.get? id = some record) (draft : Draft) (error : String) :
    ledger.recordFailure now id draft error =
      .ok (fail now draft error, ledger.put id (record.append now (fail now draft error))) := by
  simp [recordFailure, find_of_get? h, bind, Except.bind, pure, Except.pure]

theorem outputsOf_of_get? (h : ledger.get? id = some record) :
    ledger.outputsOf id = .ok record.outputs := by
  simp [outputsOf, find_of_get? h, bind, Except.bind, pure, Except.pure]

theorem settle_of_get? (h : ledger.get? id = some record) (verdict : Verdict) :
    ledger.settle now id verdict =
      if record.status.isSettled then .error (.alreadySettled record.id record.status.name)
      else .ok (record.settle now verdict, ledger.put id (record.settle now verdict)) := by
  simp only [settle, find_of_get? h, bind, Except.bind]
  by_cases hs : record.status.isSettled
  · simp [hs, throw, throwThe, MonadExceptOf.throw]
  · simp [hs, pure, Except.pure]

/-! ## One entry at a time -/

/-- What an operation makes of the entry of the workflow that it is about. -/
def Op.update (cap : Nat) (now : Timestamp) : Op → Option Record → Option Record
  | .create id owner name «namespace», none => some (.start now id owner name «namespace»)
  | .remove _, _ => none
  | .write _ key value, some record =>
    some (if value.utf8ByteSize ≤ cap then record.publish now key value else record)
  | .commit _ draft value, some record =>
    some (if Fits cap draft value then record.commit now draft value else record)
  | .recordFailure _ draft error, some record => some (record.append now (fail now draft error))
  | .settle _ verdict, some record =>
    some (if record.status.isSettled then record else record.settle now verdict)
  | _, entry => entry

/-- The ledger with this entry for an id. -/
def setEntry (ledger : Ledger) (id : String) : Option Record → Ledger
  | some record => ledger.put id record
  | none => { ledger with records := ledger.records.erase id }

@[simp] theorem get?_setEntry (ledger : Ledger) (id : String) (entry : Option Record)
    (other : String) :
    (ledger.setEntry id entry).get? other = if id = other then entry else ledger.get? other := by
  cases entry with
  | some record => exact get?_put _ _ _ _
  | none => exact KeyMap.get?_erase _ _ _

/-- The bound and the entries determine the ledger. -/
theorem ext_get? {a b : Ledger} (hcap : a.maxValueBytes = b.maxValueBytes)
    (h : ∀ id, a.get? id = b.get? id) : a = b := by
  cases a
  cases b
  cases hcap
  exact congrArg _ (KeyMap.ext_get? h)

theorem setEntry_of_get? {entry : Option Record} (h : ledger.get? id = entry) :
    ledger.setEntry id entry = ledger := by
  refine ext_get? ?_ fun other => ?_
  · cases entry <;> rfl
  · rw [get?_setEntry]
    split
    · next heq => exact heq ▸ h.symm
    · rfl

/-- An operation sets the entry of its own workflow and does nothing else. -/
theorem apply_snd (ledger : Ledger) (now : Timestamp) {op : Op} (hid : op.id? = some id) :
    (ledger.apply now op).2 =
      ledger.setEntry id (op.update ledger.maxValueBytes now (ledger.get? id)) := by
  cases op with
  | maxValueBytes => cases hid
  | get target | getOutput target _ | contains target | executionsOf target | outputsOf target =>
    exact (setEntry_of_get? rfl).symm
  | remove target =>
    obtain rfl : target = id := Option.some.inj hid
    rfl
  | create target owner name «namespace» =>
    obtain rfl : target = id := Option.some.inj hid
    cases h : ledger.get? target with
    | none => simp only [apply, create_of_get?_none h, changed]; rfl
    | some record =>
      simp only [apply, create_of_get? h, changed]
      exact (setEntry_of_get? h).symm
  | write target key value =>
    obtain rfl : target = id := Option.some.inj hid
    cases h : ledger.get? target with
    | none =>
      simp only [apply, write, find_of_get?_none h]
      exact (setEntry_of_get? h).symm
    | some record =>
      simp only [apply, write_of_get? h, Op.update]
      split
      · rfl
      · exact (setEntry_of_get? h).symm
  | commit target draft value =>
    obtain rfl : target = id := Option.some.inj hid
    cases h : ledger.get? target with
    | none =>
      simp only [apply, commit, find_of_get?_none h]
      exact (setEntry_of_get? h).symm
    | some record =>
      simp only [Op.update]
      split
      next hfits => simp only [apply, commit_of_fits h hfits]; rfl
      next hfits =>
        obtain ⟨key, -, hcommit⟩ := commit_of_not_fits now h hfits
        simp only [apply, hcommit]
        exact (setEntry_of_get? h).symm
  | recordFailure target draft error =>
    obtain rfl : target = id := Option.some.inj hid
    cases h : ledger.get? target with
    | none =>
      simp only [apply, recordFailure, find_of_get?_none h]
      exact (setEntry_of_get? h).symm
    | some record => simp only [apply, recordFailure_of_get? h]; rfl
  | settle target verdict =>
    obtain rfl : target = id := Option.some.inj hid
    cases h : ledger.get? target with
    | none =>
      simp only [apply, settle, find_of_get?_none h]
      exact (setEntry_of_get? h).symm
    | some record =>
      simp only [apply, settle_of_get? h, Op.update]
      cases hs : record.status.isSettled with
      | true => exact (setEntry_of_get? h).symm
      | false => rfl

/-- An operation that is about no workflow leaves the ledger as it is. -/
theorem apply_snd_of_id?_none (ledger : Ledger) (now : Timestamp) {op : Op}
    (hid : op.id? = none) : (ledger.apply now op).2 = ledger := by
  cases op <;> first | rfl | cases hid

@[simp] theorem maxValueBytes_setEntry (ledger : Ledger) (id : String) (entry : Option Record) :
    (ledger.setEntry id entry).maxValueBytes = ledger.maxValueBytes := by
  cases entry <;> rfl

@[simp] theorem maxValueBytes_apply (ledger : Ledger) (now : Timestamp) (op : Op) :
    (ledger.apply now op).2.maxValueBytes = ledger.maxValueBytes := by
  cases hid : op.id? with
  | none => rw [apply_snd_of_id?_none _ _ hid]
  | some id => rw [apply_snd _ _ hid, maxValueBytes_setEntry]

/-- An operation that is accepted leaves the ledger that `apply` makes of its `Op`. -/
theorem apply_snd_of_ok {α : Type} {reply : α → Reply} {result : Except LedgerError (α × Ledger)}
    {answer : α} {after : Ledger} (op : Op)
    (hop : ledger.apply now op = ledger.changed reply result) (h : result = .ok (answer, after)) :
    (ledger.apply now op).2 = after := by
  rw [hop, h, changed]

/-- The entries after an operation. -/
theorem get?_apply (ledger : Ledger) (now : Timestamp) (op : Op) (id : String) :
    (ledger.apply now op).2.get? id =
      if op.id? = some id then op.update ledger.maxValueBytes now (ledger.get? id)
      else ledger.get? id := by
  cases hid : op.id? with
  | none => simp [apply_snd_of_id?_none _ _ hid]
  | some target =>
    rw [apply_snd _ _ hid, get?_setEntry]
    by_cases heq : target = id
    · subst heq; simp
    · simp [heq]

/-! ## Histories -/

@[simp] theorem run_nil (ledger : Ledger) : ledger.run [] = ledger := rfl

@[simp] theorem run_cons (ledger : Ledger) (op : Timestamp × Op) (ops : List (Timestamp × Op)) :
    ledger.run (op :: ops) = (ledger.apply op.1 op.2).2.run ops := rfl

theorem run_append (ledger : Ledger) (ops later : List (Timestamp × Op)) :
    ledger.run (ops ++ later) = (ledger.run ops).run later :=
  List.foldl_append

/-- What every operation on a workflow keeps of its entry, a history keeps. -/
theorem run_entry {P : Option Record → Prop} (ledger : Ledger) (ops : List (Timestamp × Op))
    (h : P (ledger.get? id))
    (hstep : ∀ op ∈ ops, op.2.id? = some id →
      ∀ entry, P entry → P (op.2.update ledger.maxValueBytes op.1 entry)) :
    P ((ledger.run ops).get? id) := by
  induction ops generalizing ledger with
  | nil => exact h
  | cons op ops ih =>
    rw [run_cons]
    refine ih _ ?_ fun later hmem hid => ?_
    · rw [get?_apply]
      split
      next hid => exact hstep op List.mem_cons_self hid _ h
      next => exact h
    · rw [maxValueBytes_apply]
      exact hstep later (List.mem_cons_of_mem _ hmem) hid

@[simp] theorem maxValueBytes_run (ledger : Ledger) (ops : List (Timestamp × Op)) :
    (ledger.run ops).maxValueBytes = ledger.maxValueBytes := by
  induction ops generalizing ledger with
  | nil => rfl
  | cons op ops ih => rw [run_cons, ih, maxValueBytes_apply]

end Ledger

end Coordination
