import Coordination.Proofs.Ledger.Upkeep

/-!
# Operations on settled records

A record that has left `running` is not closed to operations: only another
settlement is refused because of its status. What changes it from then on is
exactly a write of a value that it does not hold at that key, a commit that
the bound admits, and a recorded failure (`Op.alters`).

* `Op.update_content_iff`: one operation;
* `content_run_iff`: a history, at every moment of it;
* `settled_record_content_iff`: the same from an empty ledger on, with the
  status and the message, which stay whatever comes.
-/

namespace Coordination

/-- Two records with the same outputs, executions, counter, status and message. -/
structure Record.SameContent (a b : Record) : Prop where
  outputs : a.outputs = b.outputs
  executions : a.executions = b.executions
  completions : a.completions = b.completions
  status : a.status = b.status
  errorMessage : a.errorMessage = b.errorMessage

namespace Record.SameContent

variable {a b c : Record}

theorem refl (a : Record) : a.SameContent a := ⟨rfl, rfl, rfl, rfl, rfl⟩

theorem symm (h : a.SameContent b) : b.SameContent a :=
  ⟨h.outputs.symm, h.executions.symm, h.completions.symm, h.status.symm, h.errorMessage.symm⟩

theorem trans (h : a.SameContent b) (h' : b.SameContent c) : a.SameContent c :=
  ⟨h.outputs.trans h'.outputs, h.executions.trans h'.executions,
    h.completions.trans h'.completions, h.status.trans h'.status,
    h.errorMessage.trans h'.errorMessage⟩

end Record.SameContent

theorem KeyMap.insert_eq_self_iff {α : Type} (m : KeyMap α) (key : String) (value : α) :
    m.insert key value = m ↔ m.get? key = some value := by
  constructor
  · intro h
    rw [← h, get?_insert_self]
  · intro h
    refine ext_get? fun k => ?_
    rw [get?_insert]
    split
    next heq => rw [← heq, h]
    next => rfl

namespace Ledger

/-- Whether an operation changes the content of a settled record that it is about. -/
def Op.alters (cap : Nat) (record : Record) : Op → Bool
  | .write _ key value => value.utf8ByteSize ≤ cap ∧ record.outputs.get? key ≠ some value
  | .commit _ draft value => Fits cap draft value
  | .recordFailure .. => true
  | _ => false

theorem Op.alters_congr {a b : Record} (h : a.SameContent b) (cap : Nat) (op : Op) :
    op.alters cap a = op.alters cap b := by
  cases op <;> simp only [Op.alters, h.outputs]

variable {ledger : Ledger} {id : String} {record : Record}

theorem not_sameContent_append {after before : Record} {execution : Execution}
    (h : after.executions = before.executions ++ [execution]) : ¬ after.SameContent before := by
  intro hsame
  have := congrArg List.length (h.symm.trans hsame.executions)
  simp at this

/-- What an operation other than its removal does to a settled record: it
keeps the content exactly if it is none of those that alter it. -/
theorem Op.update_content_iff (op : Op) (cap : Nat) (now : Timestamp)
    (hs : record.status.isSettled) (hremove : ∀ id, op ≠ .remove id) :
    ∃ after, op.update cap now (some record) = some after ∧
      (after.SameContent record ↔ op.alters cap record = false) := by
  cases op with
  | remove id => exact absurd rfl (hremove id)
  | write _ key value =>
    refine ⟨_, rfl, ?_⟩
    by_cases hsize : value.utf8ByteSize ≤ cap
    · rw [if_pos hsize]
      have hwrite : (record.publish now key value).SameContent record ↔
          record.outputs.insert key value = record.outputs :=
        ⟨fun h => h.outputs, fun h => ⟨h, rfl, rfl, rfl, rfl⟩⟩
      rw [hwrite, KeyMap.insert_eq_self_iff]
      simp [Op.alters, hsize]
    · rw [if_neg hsize]
      simp [Op.alters, hsize, Record.SameContent.refl]
  | commit _ draft value =>
    refine ⟨_, rfl, ?_⟩
    by_cases hfits : Fits cap draft value
    · have := not_sameContent_append (Record.executions_commit record now draft value)
      simp [Op.alters, hfits, this]
    · simp [Op.alters, hfits, Record.SameContent.refl]
  | recordFailure _ draft error =>
    refine ⟨_, rfl, ?_⟩
    have : ¬ (record.append now (fail now draft error)).SameContent record :=
      not_sameContent_append rfl
    simp [Op.alters, this]
  | settle _ verdict =>
    refine ⟨_, rfl, ?_⟩
    rw [if_pos hs]
    simp [Op.alters, Record.SameContent.refl]
  | _ => exact ⟨_, rfl, by simp [Op.alters, Record.SameContent.refl]⟩

/-- The entry of a settled workflow after an operation other than its removal. -/
theorem content_apply_iff {before : Record} (hbefore : ledger.get? id = some before)
    (hsame : before.SameContent record) (hs : record.status.isSettled) (now : Timestamp) {op : Op}
    (hkept : op ≠ .remove id) :
    ∃ after, (ledger.apply now op).2.get? id = some after ∧
      (after.SameContent record ↔
        (op.id? = some id → op.alters ledger.maxValueBytes record = false)) := by
  rw [get?_apply, hbefore]
  by_cases hid : op.id? = some id
  · have hremove : ∀ target, op ≠ .remove target := by
      rintro target rfl
      cases hid
      exact hkept rfl
    obtain ⟨after, hafter, hiff⟩ :=
      op.update_content_iff ledger.maxValueBytes now (hsame.status ▸ hs) hremove
    refine ⟨after, by rw [if_pos hid, hafter], ?_⟩
    rw [← Op.alters_congr hsame, ← hiff]
    exact ⟨fun h _ => h.trans hsame.symm, fun h => (h hid).trans hsame⟩
  · exact ⟨before, by rw [if_neg hid], fun _ h => absurd h hid, fun _ => hsame⟩

/-- A settled record keeps its content throughout a history that does not
remove it exactly if no operation of the history on it is one that alters it. -/
theorem content_run_iff {before : Record} (hbefore : ledger.get? id = some before)
    (hsame : before.SameContent record) (hs : record.status.isSettled)
    {later : List (Timestamp × Op)} (hkept : ∀ op ∈ later, op.2 ≠ .remove id) :
    (∀ n, ∃ after, (ledger.run (later.take n)).get? id = some after ∧ after.SameContent record) ↔
      ∀ op ∈ later, op.2.id? = some id → op.2.alters ledger.maxValueBytes record = false := by
  induction later generalizing ledger before with
  | nil =>
    simp only [List.take_nil, run_nil, List.not_mem_nil, false_implies, implies_true, iff_true]
    exact fun _ => ⟨before, hbefore, hsame⟩
  | cons op later ih =>
    obtain ⟨after, hafter, hiff⟩ :=
      content_apply_iff hbefore hsame hs op.1 (hkept op List.mem_cons_self)
    have htail := fun op' h => hkept op' (List.mem_cons_of_mem op h)
    constructor
    · intro h
      have hsame' : after.SameContent record := by
        obtain ⟨first, hfirst, hsame'⟩ := h 1
        rw [List.take_succ_cons, List.take_zero, run_cons, run_nil, hafter] at hfirst
        exact Option.some.inj hfirst ▸ hsame'
      have hrest := (ih hafter hsame' htail).1 fun n => h (n + 1)
      rw [maxValueBytes_apply] at hrest
      exact List.forall_mem_cons.2 ⟨hiff.1 hsame', hrest⟩
    · intro h n
      obtain ⟨hop, hrest⟩ := List.forall_mem_cons.1 h
      cases n with
      | zero => exact ⟨before, hbefore, hsame⟩
      | succ n =>
        refine (ih hafter (hiff.2 hop) htail).2 ?_ n
        rw [maxValueBytes_apply]
        exact hrest

/-- A record that has left `running` keeps its status and its message for as
long as it is held; and it keeps all its content, at every moment, exactly if
no later operation on it is a write of a new value within the bound, a commit
within the bound or a recorded failure. -/
theorem settled_record_content_iff (cap : Nat) (ops : List (Timestamp × Op)) (id : String)
    (record : Record) (h : ((empty cap).run ops).get? id = some record)
    (hs : record.status.isSettled) (later : List (Timestamp × Op))
    (hkept : ∀ op ∈ later, op.2 ≠ .remove id) :
    (∃ after, ((empty cap).run (ops ++ later)).get? id = some after ∧
        after.status = record.status ∧ after.errorMessage = record.errorMessage) ∧
      ((∀ n, ∃ after, ((empty cap).run (ops ++ later.take n)).get? id = some after ∧
          after.SameContent record) ↔
        ∀ op ∈ later, op.2.id? = some id → op.2.alters cap record = false) := by
  constructor
  · obtain ⟨after, hafter, hstatus, hmessage, -⟩ := status_run_of_settled h hs hkept
    exact ⟨after, by rw [run_append, hafter], hstatus, hmessage⟩
  · have := content_run_iff h (Record.SameContent.refl record) hs hkept
    rw [maxValueBytes_run] at this
    simp only [run_append]
    exact this

/-- A workflow that completes with one output. -/
def completedHistory : List (Timestamp × Op) :=
  [(.ofMillis 1, .create "w" "u" "collect" "default"), (.ofMillis 2, .write "w" "k" "v"),
    (.ofMillis 3, .settle "w" .completed)]

/-- A second settlement, a refused output and one that is held already alter nothing. -/
theorem settled_record_content_completedHistory :
    ∃ record, ((empty 3).run completedHistory).get? "w" = some record ∧
      ∀ n, ∃ after, ((empty 3).run (completedHistory ++ List.take n
          [(.ofMillis 4, .settle "w" .cancelled), (.ofMillis 5, .write "w" "k" "four"),
            (.ofMillis 6, .write "w" "k" "v")])).get? "w" = some after ∧
        after.SameContent record :=
  ⟨_, rfl, (settled_record_content_iff 3 completedHistory "w" _ rfl (by decide)
    [(.ofMillis 4, .settle "w" .cancelled), (.ofMillis 5, .write "w" "k" "four"),
      (.ofMillis 6, .write "w" "k" "v")] (by decide)).2.2 (by decide)⟩

/-- An output of a completed workflow can be replaced. -/
theorem settled_output_replaced :
    ∃ record after, ((empty 3).run completedHistory).get? "w" = some record ∧
      record.status = .completed ∧
      ((empty 3).run (completedHistory ++ [(.ofMillis 4, .write "w" "k" "w")])).get? "w" =
        some after ∧
      after.outputs ≠ record.outputs :=
  ⟨_, _, rfl, rfl, rfl, by decide⟩

end Ledger

end Coordination
