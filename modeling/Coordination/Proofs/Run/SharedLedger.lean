import Coordination.Proofs.Run.Underway

/-!
# What a run does to the shared ledger

A run that has output keys and no ledger of its own creates its record in the shared ledger
when it opens (`Run.open_shared`), and commits or records a failure there when a member
settles (`Ledger.Noted`). Nothing else is done there before the end of the run but by its
tasks.
-/

namespace Coordination

variable {σ : Type}

/-- What a run does to a ledger when a member settles: it commits or records a failure under
its id, or does nothing. -/
inductive Ledger.Noted (id : String) (before : Ledger) : Ledger → Prop
  | unchanged : Noted id before before
  | commit (now : Timestamp) (draft : Draft) (value : String) :
    Noted id before (before.apply now (.commit id draft value)).2
  | recordFailure (now : Timestamp) (draft : Draft) (error : String) :
    Noted id before (before.apply now (.recordFailure id draft error)).2

namespace Floor

/-- What a run does to its ledger it does to the shared one, if it uses that. -/
theorem noted_setLedger (floor : Floor) (id : String) {after : Ledger}
    (h : Ledger.Noted id floor.ledger after) :
    Ledger.Noted id floor.world.ledger (floor.setLedger after).world.ledger := by
  cases hown : floor.own with
  | none => simpa [setLedger, Floor.ledger, hown] using h
  | some own =>
    rw [setLedger, hown]
    exact .unchanged

end Floor

/-! ## Members that settle -/

namespace Member

variable (scope : Scope) (floor : Floor) (member : Member σ)

theorem recordFailure_noted (draft : Draft) (message : String) :
    Ledger.Noted scope.context.session.id floor.world.ledger
      (recordFailure scope floor draft message).world.ledger := by
  simp only [recordFailure]
  split
  next execution ledger hrecorded =>
    have hafter := floor.stamp.2.noted_setLedger scope.context.session.id
      (.recordFailure floor.stamp.1 draft message)
    rw [Ledger.apply_snd_of_ok (.recordFailure _ draft message) rfl hrecorded] at hafter
    exact hafter
  next => exact .unchanged

theorem fail_noted (draft : Option Draft) (events : List Event) (error : TaskError) :
    Ledger.Noted scope.context.session.id floor.world.ledger
      (fail scope floor member draft events error).1.world.ledger := by
  cases draft with
  | none => exact .unchanged
  | some draft => exact recordFailure_noted scope (floor.notice _) draft _

theorem succeed_noted (draft : Option Draft) (events : List Event) :
    Ledger.Noted scope.context.session.id floor.world.ledger
      (succeed scope floor member draft events).1.world.ledger := by
  cases draft with
  | none => exact .unchanged
  | some draft =>
    simp only [succeed]
    split
    next record execution ledger _ hcommitted =>
      have hafter := floor.stamp.2.noted_setLedger scope.context.session.id
        (.commit floor.stamp.1 draft (textOf events))
      rw [Ledger.apply_snd_of_ok (.commit _ draft (textOf events)) rfl hcommitted] at hafter
      exact hafter
    next => exact fail_noted scope floor.stamp.2 member (some draft) events _
    next => exact fail_noted scope floor.stamp.2 member (some draft) events _

end Member

/-! ## The beginning of a run -/

namespace Run

section Opening

variable {floor : Floor} {context : Context}

theorem createRecord_shared {plan : Plan} {recorded : Floor}
    (h : createRecord plan context floor = .ok recorded) :
    if floor.keyed ∧ floor.own = none then
      floor.world.ledger.get? context.session.id = none ∧ ∃ now,
        recorded.world.ledger = (floor.world.ledger.apply now
          (.create context.session.id context.session.user plan.name plan.namespace)).2
    else recorded.world.ledger = floor.world.ledger := by
  unfold createRecord at h
  cases hkeyed : floor.keyed with
  | false =>
    simp only [hkeyed, Bool.false_eq_true, if_false, Except.ok.injEq] at h
    simp [h]
  | true =>
    simp only [hkeyed, if_true] at h
    cases hcreate : floor.ledger.create floor.stamp.1 context.session.id context.session.user
        plan.name plan.namespace with
    | error error =>
      simp only [Floor.ledger_stamp, hcreate, bind, Except.bind, reduceCtorEq] at h
    | ok created =>
      obtain ⟨record, ledger⟩ := created
      simp only [Floor.ledger_stamp, hcreate, bind, Except.bind, pure, Except.pure,
        Except.ok.injEq] at h
      subst h
      cases hown : floor.own with
      | none =>
        have hledger : floor.ledger = floor.world.ledger := by
          rw [Floor.ledger, hown, Option.getD_none]
        rw [hledger] at hcreate
        have hfree : floor.world.ledger.get? context.session.id = none := by
          rw [Option.eq_none_iff_forall_ne_some]
          intro record hrecord
          simp [Ledger.create_of_get? hrecord] at hcreate
        have hset : (floor.stamp.2.setLedger ledger).world.ledger = ledger := by
          simp [Floor.setLedger, Floor.stamp, hown]
        rw [if_pos ⟨rfl, rfl⟩]
        refine ⟨hfree, floor.stamp.1, ?_⟩
        rw [hset, Ledger.apply_snd_of_ok
          (.create _ context.session.user plan.name plan.namespace) rfl hcreate]
      | some own =>
        simp [Floor.setLedger, Floor.stamp, hown, World.stamp]

theorem putUpGate_shared {run : Run σ} {opened : Floor}
    (h : run.putUpGate context floor = .ok opened) :
    opened.world.ledger = floor.world.ledger := by
  have hnotices : ∀ (places : List (Member σ × Nat)) (entered : Floor),
      (places.foldl (fun floor place => floor.notice
        (Member.scopeNotice context.session.id place.2 place.1.definition)) entered).world.ledger =
          entered.world.ledger := by
    intro places
    induction places with
    | nil => exact fun _ => rfl
    | cons place rest ih => exact fun entered => ih (entered.notice _)
  rw [putUpGate] at h
  split at h
  · cases h
    rfl
  next workers _ =>
    cases hgate : (Gate.new workers : Except PolicyError (Gate Nat)) with
    | error error => simp [hgate, bind, Except.bind] at h
    | ok gate =>
      simp only [hgate, bind, Except.bind, pure, Except.pure, Except.ok.injEq] at h
      subst h
      exact hnotices _ _

/-- What opening a run does to the shared ledger: a run with output keys that uses it
creates its record there, if there is none yet under its id. -/
inductive Opens (run : Run σ) (context : Context) (before : Ledger) : Ledger → Prop
  | unchanged (h : ¬ (run.isKeyed ∧ run.plan.sharesLedger)) : Opens run context before before
  | created (hkeyed : run.isKeyed) (hshares : run.plan.sharesLedger) (now : Timestamp)
      (hfree : before.get? context.session.id = none) :
    Opens run context before (before.apply now (.create context.session.id
      context.session.user run.plan.name run.plan.namespace)).2

theorem opens_createRecord {run : Run σ} {world : World} {recorded : Floor}
    (h : createRecord run.plan context (run.lobby context world) = .ok recorded) :
    Opens run context world.ledger recorded.world.ledger := by
  have hcreated := createRecord_shared h
  have howned : (run.lobby context world).own = none ↔
      ¬ (run.isKeyed ∧ run.plan.sharesLedger = false) := by
    cases hkeyed : run.isKeyed <;> cases hshares : run.plan.sharesLedger <;>
      simp [lobby, hkeyed, hshares]
  by_cases hboth : run.isKeyed ∧ run.plan.sharesLedger
  · rw [if_pos ⟨hboth.1, howned.2 (by simp [hboth.2])⟩] at hcreated
    obtain ⟨hfree, now, hledger⟩ := hcreated
    rw [hledger]
    exact .created hboth.1 hboth.2 now hfree
  · rw [if_neg] at hcreated
    · rw [hcreated]
      exact .unchanged hboth
    · rintro ⟨hkeyed, hown⟩
      have hkeyed : run.isKeyed := hkeyed
      refine hboth ⟨hkeyed, ?_⟩
      have hnot := howned.1 hown
      simpa [hkeyed] using hnot

/-- A run that is opened has its record, if it is to have one in the shared ledger. -/
theorem open_shared {run : Run σ} {world : World} (h : run.open context world = .ok floor) :
    Opens run context world.ledger floor.world.ledger := by
  obtain ⟨recorded, hrecorded, hopened⟩ := open_eq_ok h
  rw [putUpGate_shared hopened]
  exact opens_createRecord hrecorded

end Opening

end Run

end Coordination
