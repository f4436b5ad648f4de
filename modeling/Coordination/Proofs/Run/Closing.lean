import Coordination.Proofs.Run.Composition

/-!
# What a settlement leaves

A member that settles on a floor leaves its events, with one for the failure if it has
failed, and in a run with output keys one more execution in the record of the run
(`Member.Closes`). Why it fails is told from the end of its task and the bound on
outputs (`Terms.failure?`).

* `Member.fail_closes`, `Member.succeed_closes`: who settles leaves that;
* `Member.proceed_driven`: what a stretch makes of a member;
* `Member.start_closes`: so does a member that cannot begin.
-/

namespace Coordination

variable {σ : Type}

/-! ## Closing -/

/-- The record once a draft has settled in it, with this text or with the error. -/
def Record.close (record : Record) (now : Timestamp) (draft : Draft) (text : String) :
    Option TaskError → Record
  | none => record.commit now draft text
  | some error => record.append now (Ledger.fail now draft error.message)

namespace Terms

/-- Why a sub-task fails on these terms that has yielded these events and come to this
end, if it does: where no outputs are published, none is refused. -/
def failure? (terms : Terms) (definition : Definition) (events : List Event) (outcome : Outcome) :
    Option TaskError :=
  outcome.error?.or
    (if terms.keyed then definition.refusal? terms.maxValueBytes events else none)

/-- A sub-task whose task has come to an end fails on these terms unless the end is a good one
and its output, if it has one, is no longer than the bound. -/
theorem failure?_eq_none_iff {terms : Terms} {definition : Definition} {events : List Event}
    {outcome : Outcome} (hended : outcome ≠ .pending) :
    terms.failure? definition events outcome = none ↔
      outcome = .ended ∧ (terms.keyed = true → definition.outputKey.isSome →
        (textOf events).utf8ByteSize ≤ terms.maxValueBytes) := by
  cases outcome with
  | pending => exact absurd rfl hended
  | failed error => simp [failure?, Outcome.error?]
  | ended =>
    cases hkeyed : terms.keyed with
    | false => simp [failure?, Outcome.error?, hkeyed]
    | true => simp [failure?, Outcome.error?, hkeyed, Definition.refusal?_eq_none_iff]

/-- Whether a member has a draft for the ledger: with output keys it has its own, else none. -/
def Drafts (terms : Terms) (index : Nat) (definition : Definition) : Option Draft → Prop
  | some draft => terms.keyed = true ∧
    draft.Of terms.plan terms.context.session.id index definition
  | none => terms.keyed = false

end Terms

theorem Settlement.events_of (author : String) (definition : Definition) (events : List Event)
    (error? : Option TaskError) :
    (of author definition events error?).events = events ++
      ((of author definition events error?).error.map
        (Event.failure author definition.name)).toList := by
  cases error? with
  | none => exact (List.append_nil events).symm
  | some error => rfl

theorem Settlement.error_of (author : String) (definition : Definition) (events : List Event)
    (error? : Option TaskError) :
    (of author definition events error?).error = error?.map TaskError.message := by
  cases error? <;> rfl

/-- The draft of a member that has started. -/
def Access.draft? : Access → Option Draft
  | own draft _ => some draft
  | shared _ => none

/-- The context in which a member goes on: its own, or that of the run with an instruction
of its own. -/
def Access.context (context : Context) (state : KeyMap String) : Access → Context
  | own _ context => context
  | shared instruction => (context.withState state).withInstruction instruction

namespace Member

/-- What a member leaves that settles on a floor with these events, and with the error if there
is one. In a run with output keys its record says so too. -/
structure Closes (terms : Terms) (index : Nat) (floor : Floor) (definition : Definition)
    (events : List Event) (error? : Option TaskError) (after : Floor × Member σ) : Prop where
  phase : after.2.phase = .settled (.of terms.plan.name definition events error?)
  recorded : terms.keyed = true → ∃ record now draft,
    floor.ledger.get? terms.context.session.id = some record ∧
    draft.Of terms.plan terms.context.session.id index definition ∧
    after.1.ledger.get? terms.context.session.id =
      some (record.close now draft (textOf events) error?)

section Closes

variable {terms : Terms} {index : Nat} {floor : Floor} {definition : Definition}
  {events : List Event} {error? : Option TaskError} {after : Floor × Member σ}

theorem Closes.of_ledger {floor' : Floor}
    (h : Closes terms index floor' definition events error? after)
    (hledger : floor'.ledger = floor.ledger) :
    Closes terms index floor definition events error? after :=
  ⟨h.phase, hledger ▸ h.recorded⟩

theorem Closes.around {left : Floor} (h : Closes terms index floor definition events error? after)
    (hleft : after.1.Around left) :
    Closes terms index floor definition events error? (left, after.2) where
  phase := h.phase
  recorded hkeyed := by
    rw [hleft.ledger]
    exact h.recorded hkeyed

/-- So the record has one more execution, with the message of the settlement, and the output if
that is a success. -/
theorem Closes.recorded_of (h : Closes terms index floor definition events error? after)
    (hkeyed : terms.keyed = true) :
    ∃ record record' execution, floor.ledger.get? terms.context.session.id = some record ∧
      after.1.ledger.get? terms.context.session.id = some record' ∧
      execution.toDraft.Of terms.plan terms.context.session.id index definition ∧
      execution.isSuccess =
        (Settlement.of terms.plan.name definition events error?).isSuccess ∧
      execution.error = (Settlement.of terms.plan.name definition events error?).error ∧
      record'.executions = record.executions ++ [execution] ∧
      record'.outputs = (match definition.outputKey,
          (Settlement.of terms.plan.name definition events error?).error with
        | some key, none => record.outputs.insert key (textOf events)
        | _, _ => record.outputs) ∧
      record'.status = record.status := by
  obtain ⟨record, now, draft, hrecord, hdraft, hget⟩ := h.recorded hkeyed
  cases error? with
  | none =>
    refine ⟨record, _, Ledger.succeed record now draft (textOf events), hrecord, hget, hdraft, rfl,
      rfl, Record.executions_commit .., ?_, Record.status_commit ..⟩
    rw [Record.close, Record.outputs_commit, hdraft.outputKey]
    cases definition.outputKey <;> rfl
  | some error =>
    refine ⟨record, _, Ledger.fail now draft error.message, hrecord, hget, hdraft, rfl, rfl,
      rfl, ?_, rfl⟩
    cases definition.outputKey <;> rfl

variable (state : KeyMap String) (turn : Turn) (member : Member σ) (draft? : Option Draft)

/-- A failure is recorded, where there is a record. -/
theorem fail_closes (hserves : floor.Serves terms)
    (hdraft : terms.Drafts index member.definition draft?) (events : List Event)
    (error : TaskError) :
    Closes terms index floor member.definition events (some error)
      (fail (terms.scope state turn) floor member draft? events error) where
  phase := rfl
  recorded hkeyed := by
    cases draft? with
    | none => exact absurd hkeyed (by simp [show terms.keyed = false from hdraft])
    | some draft =>
      obtain ⟨record, hrecord⟩ := hserves.record hkeyed
      have hnoticed : (floor.notice (.subTaskFailed error.message)).ledger.get?
          (terms.scope state turn).context.session.id = some record := hrecord
      obtain ⟨now, hget, -⟩ := recordFailure_of_get? _ hnoticed draft error.message
      exact ⟨record, now, draft, hrecord, hdraft.2, hget⟩

/-- A good end is committed, unless the ledger refuses the output. -/
theorem succeed_closes (hserves : floor.Serves terms)
    (hdraft : terms.Drafts index member.definition draft?) (events : List Event) :
    Closes terms index floor member.definition events
      (if terms.keyed then member.definition.refusal? terms.maxValueBytes events else none)
      (succeed (terms.scope state turn) floor member draft? events) := by
  cases draft? with
  | none =>
    have hkeyed : terms.keyed = false := hdraft
    simp only [hkeyed, Bool.false_eq_true, if_false]
    exact ⟨rfl, fun h => absurd h (by simp [hkeyed])⟩
  | some draft =>
    obtain ⟨hkeyed, hdraft⟩ := hdraft
    obtain ⟨hstamped, -⟩ := hserves.around floor.around_stamp
    obtain ⟨record, hrecord⟩ := hstamped.record hkeyed
    have hid : (terms.scope state turn).context.session.id = terms.context.session.id := rfl
    rw [if_pos hkeyed]
    rcases hstamped.commit_cases hkeyed hrecord hdraft.outputKey floor.stamp.1 events with
      ⟨hnone, hcommit⟩ | ⟨error, hrefused, hcommit⟩
    · simp only [succeed, hid, Ledger.find_of_get? hrecord, hcommit, hnone]
      exact ⟨rfl, fun _ => ⟨record, floor.stamp.1, draft, hrecord, hdraft, by simp [Record.close]⟩⟩
    · simp only [succeed, hid, Ledger.find_of_get? hrecord, hcommit, hrefused]
      exact (fail_closes state turn member (some draft) hstamped ⟨hkeyed, hdraft⟩ events
        (.commit error)).of_ledger rfl

end Closes

/-! ## Stretches -/

/-- What a stretch on a floor makes of a member: it goes on, or closes on the floor that the
stretch has left. -/
inductive Driven (terms : Terms) (index : Nat) (floor : Floor) (definition : Definition)
    (events : List Event) (advance : Advance σ) : Floor × Member σ → Prop
  | onward (access : Access) (left : Floor) (hpending : advance.outcome = .pending)
      (hdraft : terms.Drafts index definition access.draft?) :
    Driven terms index floor definition events advance
      (left, ⟨definition, .running access (events ++ advance.events), advance.process⟩)
  | closed {after : Floor × Member σ} (hended : advance.outcome ≠ .pending)
      (hdefinition : after.2.definition = definition) (hprocess : after.2.process = advance.process)
      (hcloses : Closes terms index { floor with world := advance.world } definition
        (events ++ advance.events)
        (terms.failure? definition (events ++ advance.events) advance.outcome) after) :
    Driven terms index floor definition events advance after

theorem proceed_driven {terms : Terms} {index : Nat} {floor : Floor} {member : Member σ}
    (state : KeyMap String) (turn : Turn) (poll : Poll σ) (access : Access) (events : List Event)
    (hdraft : terms.Drafts index member.definition access.draft?)
    (hserves : ({ floor with world := (poll (turn.below index)
      (access.context (terms.context.withState state) floor.state) floor.world).world } :
        Floor).Serves terms) :
    Driven terms index floor member.definition events
      (poll (turn.below index) (access.context (terms.context.withState state) floor.state)
        floor.world)
      (proceed (terms.scope state turn) index poll floor member access events) := by
  cases access with
  | own draft context =>
    have hturn : (terms.scope state turn).turn = turn := rfl
    simp only [proceed, hturn, Access.context] at hserves ⊢
    generalize poll (turn.below index) context floor.world = advance at hserves ⊢
    cases houtcome : advance.outcome with
    | pending => exact .onward (.own draft _) _ houtcome hdraft
    | ended =>
      refine .closed (by simp [houtcome]) (by simp) (by simp) ?_
      rw [houtcome]
      exact succeed_closes state turn { member with process := advance.process } (some draft)
        hserves hdraft (events ++ advance.events)
    | failed error =>
      refine .closed (by simp [houtcome]) rfl rfl ?_
      rw [houtcome]
      exact fail_closes state turn { member with process := advance.process } (some draft) hserves
        hdraft (events ++ advance.events) error
  | shared instruction =>
    have hturn : (terms.scope state turn).turn = turn := rfl
    have hcontext : (terms.scope state turn).context = terms.context.withState state := rfl
    simp only [proceed, hturn, hcontext, Access.context] at hserves ⊢
    generalize poll (turn.below index) _ floor.world = advance at hserves ⊢
    -- The values that the stretch leaves in the session of the run concern no ledger.
    have hserves' : ({ floor with state := advance.state, world := advance.world } : Floor).Serves
        terms := ⟨hserves.keyed, hserves.record, hserves.bound⟩
    cases houtcome : advance.outcome with
    | pending => exact .onward (.shared instruction) _ houtcome hdraft
    | ended =>
      refine .closed (by simp [houtcome]) (by simp) (by simp) ?_
      rw [houtcome]
      exact (succeed_closes state turn { member with process := advance.process } none hserves'
        hdraft (events ++ advance.events)).of_ledger rfl
    | failed error =>
      refine .closed (by simp [houtcome]) rfl rfl ?_
      rw [houtcome]
      exact (fail_closes state turn { member with process := advance.process } none hserves' hdraft
        (events ++ advance.events) error).of_ledger rfl

@[simp] theorem process_proceed (scope : Scope) (index : Nat) (poll : Poll σ) (floor : Floor)
    (member : Member σ) (access : Access) (events : List Event) :
    (proceed scope index poll floor member access events).2.process =
      (poll (scope.turn.below index) (access.context scope.context floor.state)
        floor.world).process := by
  cases access <;>
  · simp only [proceed, Access.context]
    split <;> simp

/-- A member whose instruction cannot be filled in closes at its start. -/
theorem start_closes {terms : Terms} {floor : Floor} {member : Member σ} (state : KeyMap String)
    (turn : Turn) (index : Nat) (poll : Poll σ) (hserves : floor.Serves terms) {error : TaskError}
    (hexpand : expand member.definition (floor.values terms) = .error error) :
    Closes terms index floor member.definition [] (some error)
        (start (terms.scope state turn) index poll floor member) ∧
      (start (terms.scope state turn) index poll floor member).2.process = member.process := by
  cases hkeyed : terms.keyed with
  | false =>
    rw [Floor.values_of_shared hkeyed] at hexpand
    simp only [start, hserves.keyed, hkeyed, hexpand, Bool.false_eq_true, if_false]
    exact ⟨fail_closes state turn member none hserves hkeyed [] error, rfl⟩
  | true =>
    obtain ⟨record, hrecord⟩ := hserves.record hkeyed
    have houtputs : floor.stamp.2.ledger.outputsOf (terms.scope state turn).context.session.id =
      .ok record.outputs := Ledger.outputsOf_of_get? hrecord
    rw [Floor.values_of_get? hkeyed hrecord] at hexpand
    have hexpand' : expand member.definition (floor.stamp.2.state.overlay record.outputs) =
      .error error := hexpand
    simp only [start, hserves.keyed, hkeyed, if_true, houtputs, hexpand']
    have hstamped := (hserves.around floor.around_stamp).1
    have hdraft := draft_of (terms.scope state turn) index member.definition floor.stamp.1
    have hcloses := fail_closes state turn member (some _) hstamped ⟨hkeyed, hdraft⟩ [] error
    exact ⟨hcloses.of_ledger rfl, rfl⟩

end Member

end Coordination
