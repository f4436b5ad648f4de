import Coordination.Body
import Coordination.Proofs.Ledger.Entry

/-!
# Which records are running

A record is running from its creation to its end, unless it is taken out before
(`Ledger.isRunning`). No other operation has to do with that
(`Ledger.isRunning_apply`), so a body that abstains from these three changes
nothing about it (`Leaf.poll_abstains`).
-/

namespace Coordination

namespace Ledger

/-- Whether the record of an id is held and running. -/
def isRunning (ledger : Ledger) (id : String) : Bool :=
  (ledger.get? id).any (·.status == .running)

/-- Whether an operation brings the record of an id in, brings it to its end, or takes
it out. -/
def Op.Governs (id : String) : Op → Prop
  | .create target .. | .remove target | .settle target _ => target = id
  | _ => False

variable {ledger after : Ledger} {now : Timestamp} {id : String}

theorem isRunning_apply {op : Op} (h : ¬ op.Governs id) (ledger : Ledger) (now : Timestamp) :
    (ledger.apply now op).2.isRunning id = ledger.isRunning id := by
  rw [isRunning, get?_apply, isRunning]
  split
  next hid =>
    cases op with
    | create target | remove target | settle target =>
      exact absurd (Option.some.inj hid) h
    | write _ _ value =>
      cases ledger.get? id with
      | none => rfl
      | some record =>
        simp only [Op.update]
        split <;> rfl
    | commit _ draft value =>
      cases ledger.get? id with
      | none => rfl
      | some record =>
        simp only [Op.update]
        split
        · simp
        · rfl
    | recordFailure => cases ledger.get? id <;> rfl
    | get | getOutput | contains | executionsOf | outputsOf | maxValueBytes => rfl
  next => rfl

/-- Whoever has created a record has one more that is running. -/
theorem isRunning_create {target owner name «namespace» : String} {record : Record}
    (h : ledger.create now target owner name «namespace» = .ok (record, after)) (id : String) :
    (after.isRunning id).toNat = [target].count id + (ledger.isRunning id).toNat := by
  cases hget : ledger.get? target with
  | some held => simp [create_of_get? hget] at h
  | none =>
    rw [create_of_get?_none hget] at h
    obtain ⟨rfl, rfl⟩ := Prod.mk.inj (Except.ok.inj h)
    rw [isRunning, isRunning, get?_put, List.count_singleton]
    by_cases heq : target = id
    · subst heq
      simp [hget, Record.start]
    · simp [heq]

/-- Whoever has settled a record has one less. -/
theorem isRunning_settle {target : String} {verdict : Verdict} {record : Record}
    (h : ledger.settle now target verdict = .ok (record, after)) (id : String) :
    (ledger.isRunning id).toNat = [target].count id + (after.isRunning id).toNat := by
  cases hget : ledger.get? target with
  | none =>
    simp [settle, find_of_get?_none hget, bind, Except.bind] at h
  | some held =>
    rw [settle_of_get? hget] at h
    split at h
    · cases h
    next hrunning =>
      obtain ⟨rfl, rfl⟩ := Prod.mk.inj (Except.ok.inj h)
      rw [isRunning, isRunning, get?_put, List.count_singleton]
      by_cases heq : target = id
      · subst heq
        have hstatus : held.status = .running := by
          cases hstatus : held.status <;> simp [hstatus, RunStatus.isSettled] at hrunning ⊢
        have hsettled : (verdict.status == .running) = false := by cases verdict <;> rfl
        simp [hget, hstatus, Record.settle, hsettled]
      · simp [heq]

/-- A record is only refused its end if it is not running. -/
theorem isRunning_of_settle_error {verdict : Verdict} {error : LedgerError}
    (h : ledger.settle now id verdict = .error error) : ledger.isRunning id = false := by
  cases hget : ledger.get? id with
  | none => rw [isRunning, hget, Option.any_none]
  | some held =>
    rw [settle_of_get? hget] at h
    split at h
    next hsettled =>
      rw [isRunning, hget, Option.any_some]
      cases hstatus : held.status <;> simp [hstatus, RunStatus.isSettled] at hsettled ⊢
    · cases h

end Ledger

/-! ## Bodies -/

/-- Whether a body never operates on the record of an id so as to bring it in, bring it
to its end, or take it out. -/
def Body.Abstains (id : String) : Body → Prop
  | .finish => True
  | .fail _ rest | .emit _ rest | .pause _ rest | .write _ _ rest | .note _ _ rest =>
    rest.Abstains id
  | .look next => ∀ context, (next context).Abstains id
  | .operate op next => ¬ op.Governs id ∧ ∀ reply, (next reply).Abstains id

theorem Body.advance_abstains {id : String} {body : Body} (h : body.Abstains id)
    (context : Context) (world : World) (events : List Event) :
    let advance := body.advance context world events
    advance.process.body.Abstains id ∧
      advance.world.ledger.isRunning id = world.ledger.isRunning id := by
  induction body generalizing context world events with
  | finish => exact ⟨trivial, rfl⟩
  | fail error rest => exact ⟨h, rfl⟩
  | pause millis rest => exact ⟨h, rfl⟩
  | emit event rest ih => exact ih h context world _
  | look next ih => exact ih context (h context) context world events
  | write key value rest ih => exact ih h _ world events
  | note task text rest ih => exact ih h context _ events
  | operate op next ih =>
    obtain ⟨hkept, hrunning⟩ := ih (world.operate op).1 (h.2 _) context (world.operate op).2 events
    exact ⟨hkept, hrunning.trans (Ledger.isRunning_apply h.1 world.ledger world.stamp.1)⟩

/-- A body that abstains does so in every stretch, and changes nothing about whether the
record is running. -/
theorem Leaf.poll_abstains {id : String} {leaf : Leaf} (h : leaf.body.Abstains id) (turn : Turn)
    (context : Context) (world : World) :
    let advance := leaf.poll turn context world
    advance.process.body.Abstains id ∧
      advance.world.ledger.isRunning id = world.ledger.isRunning id := by
  unfold Leaf.poll
  split
  · exact Body.advance_abstains h context world []
  · split
    · exact Body.advance_abstains h context world []
    · exact ⟨h, rfl⟩

end Coordination
