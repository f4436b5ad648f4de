import Coordination.Proofs.Run.Publication
import Coordination.Proofs.Run.Serving

/-!
# The end of a run, told from its members

A run is brought to its end by how its members have settled, and by that alone:
it has a verdict (`Run.verdict`), and its report and its record say what the
verdict and the members do (`Run.Closing`).

* `Run.conclude_closing`: so it is at every end of a run that serves its members;
* `Run.open_of_free`: a run is opened if there is no record yet in the place of its own;
* `Run.Comes.closing`: so it ends with a report.
-/

namespace Coordination

variable {σ : Type}

namespace Run

/-! ## Verdicts -/

/-- The message of a run that was stopped by the failure of a sub-task. -/
def stoppedMessage (definition : Definition) (error : String) : String :=
  s!"sub-task '{definition.name}' failed: {error}"

/-- How a run is brought to its end. Side by side it fails if members have, and
all that have settled; one after another, as soon as one has. -/
def verdict (order : Order) (members : List (Member σ)) : Verdict :=
  match order with
  | .parallel _ =>
    if 0 < failed members ∧ succeeded members = 0 then .failed Report.allFailedMessage
    else .completed
  | .sequential =>
    match firstFailure? members with
    | some (_, definition, error) => .failed (stoppedMessage definition error)
    | none => .completed

/-- Whether the members of a run have come to an end. -/
def Over (order : Order) (members : List (Member σ)) : Prop :=
  (∀ member ∈ members, member.phase.settlement?.isSome) ∨
    (order = .sequential ∧ 0 < failed members)

/-- The end of a run: its report, and the values that it leaves in its session. -/
structure Closing (order : Order) (id : String) (floor : Floor) (members : List (Member σ))
    (report : Report) (state : KeyMap String) : Prop where
  isOver : Over order members
  status : report.status = (verdict order members).status
  error : report.error = (verdict order members).message
  succeeded : report.succeeded = succeeded members
  failed : report.failed = failed members
  events : report.events = events members
  record : ∃ now, report.record = if floor.keyed then
    (floor.ledger.get? id).map (·.settle now (verdict order members)) else none
  state : state = if verdict order members = .completed then
    floor.state.overlay (report.outputs.getD .empty) else floor.state

/-- Side by side, all members have then settled. -/
theorem Over.settled {workers : Nat} {members : List (Member σ)}
    (h : Over (.parallel workers) members) :
    ∀ member ∈ members, member.phase.settlement?.isSome := by
  rcases h with hall | ⟨hsequential, -⟩
  · exact hall
  · cases hsequential

section Counts

variable (members : List (Member σ))

theorem failed_eq_countP : failed members = (settlements members).countP (!·.isSuccess) := by
  have := (settlements members).length_eq_countP_add_countP (·.isSuccess)
  simp only [failed, succeeded]
  simp only [Bool.not_eq_true, Bool.decide_eq_false] at this
  omega

theorem succeeded_add_failed :
    succeeded members + failed members = (settlements members).length := by
  have : succeeded members ≤ (settlements members).length := List.countP_le_length
  rw [failed]
  omega

variable {members}

theorem failed_eq_zero_iff : failed members = 0 ↔ firstFailure? members = none := by
  rw [failed_eq_countP, List.countP_eq_zero, firstFailure?_eq_none_iff]
  simp only [settlements, List.mem_filterMap, Bool.not_eq_true]
  constructor
  · intro h member hmem settlement hsettled
    simpa using h settlement ⟨member, hmem, hsettled⟩
  · rintro h settlement ⟨member, hmem, hsettled⟩
    simpa using h member hmem settlement hsettled

theorem length_settlements_of_all (h : ∀ member ∈ members, member.phase.settlement?.isSome) :
    (settlements members).length = members.length := by
  rw [settlements, List.length_filterMap_eq_countP, List.countP_eq_length]
  exact h

end Counts

/-! ## Ends -/

section Ends

variable {order : Order} {id : String} {floor : Floor} {members : List (Member σ)}

/-- A run can bring its record to its end if it is running, and any run without one. -/
theorem settleRecord_of_running
    (hrunning : floor.keyed → ∃ record, floor.ledger.get? id = some record ∧
      record.status = .running) (verdict : Verdict) :
    ∃ now settled, settleRecord id verdict floor = .ok (if floor.keyed then
        (floor.ledger.get? id).map (·.settle now verdict) else none, settled) ∧
      settled.state = floor.state := by
  cases hkeyed : floor.keyed with
  | false => exact ⟨floor.stamp.1, floor, by simp [settleRecord, hkeyed], rfl⟩
  | true =>
    obtain ⟨record, hrecord, hstatus⟩ := hrunning hkeyed
    have hsettle := settleRecord_of_get? hkeyed hrecord hstatus verdict
    simp only [if_true, hrecord]
    exact ⟨_, _, hsettle, (floor.stamp.2.kept_setLedger _).state⟩

theorem state_publish (record : Option Record) (floor : Floor) :
    (publish record floor).state =
      floor.state.overlay ((record.map (·.outputs)).getD .empty) := by
  cases record <;> rfl

/-- A run side by side ends as its verdict says. -/
theorem concludeParallel_closing {workers : Nat}
    (hrunning : floor.keyed → ∃ record, floor.ledger.get? id = some record ∧
      record.status = .running)
    (hsome : floor.keyed → members ≠ [])
    (hall : ∀ member ∈ members, member.phase.settlement?.isSome) :
    ∃ report, (concludeParallel id floor members).1 = .ok report ∧
      Closing (.parallel workers) id floor members report
        (concludeParallel id floor members).2.state := by
  have hcount := succeeded_add_failed members
  rw [length_settlements_of_all hall] at hcount
  cases hkeyed : floor.keyed with
  | false =>
    simp only [concludeParallel, hkeyed]
    refine ⟨_, rfl, .inl hall, ?_, ?_, rfl, rfl, rfl, ⟨floor.stamp.1, by simp [hkeyed]⟩, ?_⟩ <;>
    by_cases hfails : 0 < failed members ∧ succeeded members = 0 <;>
      simp [verdict, hfails, Verdict.status, Verdict.message, Report.outputs, Floor.notice]
  | true =>
    have hlength := List.length_pos_iff.2 (hsome hkeyed)
    obtain ⟨now, settled, hsettle, hstate⟩ := settleRecord_of_running hrunning
      (verdict (.parallel workers) members)
    obtain ⟨record, hrecord, -⟩ := hrunning hkeyed
    simp only [concludeParallel, hkeyed, if_true]
    by_cases hsucceeds : 0 < succeeded members
    · have hverdict : verdict (.parallel workers) members = .completed := by
        rw [verdict, if_neg (by omega)]
      rw [hverdict] at hsettle
      simp only [hsucceeds, if_true, hsettle]
      refine ⟨_, rfl, .inl hall, ?_, ?_, rfl, rfl, rfl, ⟨now, by rw [hverdict]⟩, ?_⟩
      · simp [hverdict, hkeyed, hrecord, Record.settle]
      · simp [hverdict, hkeyed, hrecord, Record.settle]
      · rw [if_pos hverdict, Floor.notice, state_publish, hstate]
        rfl
    · have hverdict : verdict (.parallel workers) members = .failed Report.allFailedMessage := by
        rw [verdict, if_pos (by omega)]
      rw [hverdict] at hsettle
      simp only [hsucceeds, if_false, hsettle]
      refine ⟨_, rfl, .inl hall, ?_, ?_, rfl, rfl, rfl, ⟨now, by rw [hverdict]⟩, ?_⟩
      · simp [hverdict, hkeyed, hrecord, Record.settle]
      · simp [hverdict, hkeyed, hrecord, Record.settle]
      · rw [if_neg (by simp [hverdict]), Floor.notice, hstate]

/-- So does a run one after another, in which no more than one member has failed. -/
theorem concludeStopped_closing
    (hrunning : floor.keyed → ∃ record, floor.ledger.get? id = some record ∧
      record.status = .running)
    {failure : Nat × Definition × String} (hfailure : firstFailure? members = some failure)
    (honce : failed members ≤ 1) :
    ∃ report, (concludeStopped id floor members failure).1 = .ok report ∧
      Closing .sequential id floor members report
        (concludeStopped id floor members failure).2.state := by
  obtain ⟨index, definition, error⟩ := failure
  have hone : failed members = 1 := by
    have hnot : ¬ failed members = 0 := fun hzero => by
      simp [failed_eq_zero_iff.1 hzero] at hfailure
    omega
  have hverdict : verdict .sequential members = .failed (stoppedMessage definition error) := by
    simp only [verdict, hfailure]
  have hnoticed : ∀ notice, (floor.notice notice).keyed → ∃ record,
      (floor.notice notice).ledger.get? id = some record ∧ record.status = .running :=
    fun _ => hrunning
  obtain ⟨now, settled, hsettle, hstate⟩ := settleRecord_of_running
    (hnoticed (.pipelineStopped id index (stoppedMessage definition error)))
    (.failed (stoppedMessage definition error))
  rw [stoppedMessage] at hsettle
  simp only [concludeStopped, hsettle]
  refine ⟨_, rfl, .inr ⟨rfl, by omega⟩, ?_, ?_, rfl, hone.symm, rfl,
    ⟨now, by rw [hverdict]; rfl⟩, ?_⟩
  · rw [hverdict]
    rfl
  · rw [hverdict]
    rfl
  · rw [if_neg (by simp [hverdict]), hstate]
    rfl

theorem concludeCompleted_closing
    (hrunning : floor.keyed → ∃ record, floor.ledger.get? id = some record ∧
      record.status = .running)
    (hnone : firstFailure? members = none)
    (hall : ∀ member ∈ members, member.phase.settlement?.isSome) :
    ∃ report, (concludeCompleted id floor members).1 = .ok report ∧
      Closing .sequential id floor members report
        (concludeCompleted id floor members).2.state := by
  have hverdict : verdict .sequential members = .completed := by simp only [verdict, hnone]
  obtain ⟨now, settled, hsettle, hstate⟩ := settleRecord_of_running hrunning .completed
  simp only [concludeCompleted, hsettle]
  refine ⟨_, rfl, .inl hall, ?_, ?_, rfl, (failed_eq_zero_iff.2 hnone).symm, rfl,
    ⟨now, by rw [hverdict]⟩, ?_⟩
  · rw [hverdict]
    rfl
  · rw [hverdict]
    rfl
  · rw [if_pos hverdict, Floor.notice, state_publish, hstate]
    rfl

/-- A run that can bring its record to its end does so with a report, as its
members have settled. -/
theorem conclude_closing {concluded : Except LedgerError Report × Floor}
    (hrunning : floor.keyed → ∃ record, floor.ledger.get? id = some record ∧
      record.status = .running)
    (hsome : floor.keyed → members ≠ [])
    (honce : order = .sequential → failed members ≤ 1)
    (h : conclude order id floor members = some concluded) :
    ∃ report, concluded.1 = .ok report ∧
      Closing order id floor members report concluded.2.state := by
  cases concluded_of_conclude h with
  | parallel _ hall => exact concludeParallel_closing hrunning hsome hall
  | stopped _ hfailure => exact concludeStopped_closing hrunning hfailure (honce rfl)
  | completed hnone hall => exact concludeCompleted_closing hrunning hnone hall

/-- Without output keys, the end of a run leaves everything but the journal as it is. -/
theorem around_conclude_shared {concluded : Except LedgerError Report × Floor}
    (hkeyed : floor.keyed = false) (h : conclude order id floor members = some concluded) :
    floor.Around concluded.2 := by
  have hsettle : ∀ (verdict : Verdict) (floor : Floor), floor.keyed = false →
      settleRecord id verdict floor = .ok (none, floor) := by
    intro verdict floor hkeyed
    simp [settleRecord, hkeyed]
  cases concluded_of_conclude h with
  | parallel =>
    simp only [concludeParallel, hkeyed]
    exact floor.around_notice _
  | stopped failure =>
    obtain ⟨index, definition, error⟩ := failure
    simp only [concludeStopped]
    rw [hsettle _ _ (by exact hkeyed)]
    exact floor.around_notice _
  | completed =>
    simp only [concludeCompleted, hsettle _ _ hkeyed]
    exact floor.around_notice _

/-- A run one after another goes on only while no member has failed. -/
theorem failed_eq_zero_of_conclude_none (h : conclude .sequential id floor members = none) :
    failed members = 0 := by
  rw [failed_eq_zero_iff]
  simp only [conclude] at h
  split at h
  · cases h
  · assumption

end Ends

/-! ## Runs -/

section Runs

variable {behave : σ → Poll σ} {workflow : Workflow σ} {context : Context}

theorem isKeyed_ofWorkflow {τ : Type} (workflow : Workflow τ) :
    (ofWorkflow workflow).isKeyed = workflow.isKeyed := by
  simp [isKeyed, ofWorkflow, Workflow.isKeyed, Function.comp_def]

theorem ledger_lobby {τ : Type} {workflow : Workflow τ} (hshares : workflow.plan.sharesLedger)
    (world : World) :
    ((ofWorkflow workflow).lobby context world).ledger = world.ledger := by
  simp [lobby, Floor.ledger, show (ofWorkflow workflow).plan = workflow.plan from rfl, hshares,
    World.notice]

/-- A run of a workflow that may be run is opened if there is no record yet where it is to
create its own. -/
theorem open_of_free {τ : Type} {workflow : Workflow τ} {world : World}
    (hcheck : workflow.check = .ok ())
    (hfree : workflow.isKeyed → workflow.plan.sharesLedger →
      world.ledger.get? context.session.id = none) :
    ∃ floor, (ofWorkflow workflow).open context world = .ok floor := by
  obtain ⟨recorded, hrecorded⟩ : ∃ recorded, createRecord workflow.plan context
      ((ofWorkflow workflow).lobby context world) = .ok recorded := by
    have hplan : (ofWorkflow workflow).plan = workflow.plan := rfl
    cases hkeyed : (ofWorkflow workflow).isKeyed with
    | false => exact ⟨_, by simp only [createRecord, lobby, hkeyed]; rfl⟩
    | true =>
      have hnone : ((ofWorkflow workflow).lobby context world).ledger.get? context.session.id =
          none := by
        cases hshares : workflow.plan.sharesLedger with
        | true =>
          rw [ledger_lobby hshares]
          exact hfree ((isKeyed_ofWorkflow workflow).symm.trans hkeyed) hshares
        | false => simp [lobby, Floor.ledger, hkeyed, hplan, hshares]
      have hlobby : ((ofWorkflow workflow).lobby context world).keyed = true := hkeyed
      simp only [createRecord, hlobby, if_true, Floor.ledger_stamp]
      rw [Ledger.create_of_get?_none hnone]
      exact ⟨_, rfl⟩
  obtain ⟨floor, hfloor⟩ : ∃ floor,
      (ofWorkflow workflow).putUpGate context recorded = .ok floor := by
    have hworkers := (Workflow.check_eq_ok_iff.1 hcheck).1
    rw [putUpGate]
    split
    next => exact ⟨_, rfl⟩
    next workers horder =>
      have hgate : (Gate.new workers : Except PolicyError (Gate Nat)) =
          .ok (Gate.ofCapacity workers) := by
        simp [Gate.new, hworkers workers horder, bind, Except.bind, pure, Except.pure]
      simp only [hgate, bind, Except.bind, pure, Except.pure]
      exact ⟨_, rfl⟩
  refine ⟨floor, ?_⟩
  simp only [«open», show (ofWorkflow workflow).plan = workflow.plan from rfl, hrecorded, hfloor]

theorem isKeyed_traced (workflow : Workflow σ) : workflow.traced.isKeyed = workflow.isKeyed := by
  simp [Workflow.traced, Workflow.isKeyed, Function.comp_def]

/-- So it is if its tasks are traced. -/
theorem open_traced_of_free {world : World} (hcheck : workflow.check = .ok ())
    (hfree : workflow.isKeyed → workflow.plan.sharesLedger →
      world.ledger.get? context.session.id = none) :
    ∃ floor, (ofWorkflow workflow.traced).open context world = .ok floor := by
  refine open_of_free ?_ ?_
  · rw [Workflow.check_eq_ok_iff] at hcheck ⊢
    simpa [Workflow.traced, Workflow.outputKeys, List.filterMap_map, Function.comp_def] using
      hcheck
  · rw [isKeyed_traced]
    exact hfree

/-- In particular if it has a ledger of its own, or publishes nothing. -/
theorem open_traced_of_own (hcheck : workflow.check = .ok ())
    (hown : workflow.isKeyed → workflow.plan.sharesLedger = false) (context : Context)
    (world : World) : ∃ floor, (ofWorkflow workflow.traced).open context world = .ok floor :=
  open_traced_of_free hcheck fun hkeyed hshares => by simp [hown hkeyed] at hshares

/-- A run without output keys leaves its session as its visits do. -/
theorem Comes.state_shared {P : Floor → List (Member (Traced σ)) → Prop}
    {stretch : Stretch (Traced σ)} (h : Comes P (ofWorkflow workflow.traced) context stretch)
    (hcheck : workflow.check = .ok ()) (hshared : workflow.isKeyed = false)
    (hkeyed : ∀ floor members, P floor members → floor.keyed = workflow.isKeyed) :
    ∃ floor, P floor stretch.step.run.members ∧ stretch.step.state = floor.state ∧
      (stretch.step.result = none →
        conclude workflow.plan.order context.session.id floor stretch.step.run.members = none) := by
  rcases h with ⟨error, world, hopen, -⟩ | ⟨⟨floor, members, hP, hnone, hstep⟩ |
    ⟨floor, after, members, concluded, hP, hconclude, hstep⟩⟩
  · obtain ⟨floor, hfloor⟩ := open_traced_of_own hcheck (fun hkeyed => by simp [hshared] at hkeyed)
      (context.withState stretch.state) stretch.world
    simp [hfloor] at hopen
  · rw [hstep]
    exact ⟨floor, hP, rfl, fun _ => hnone⟩
  · have haround := around_conclude_shared ((hkeyed floor members hP).trans hshared) hconclude
    rw [hstep]
    exact ⟨floor, hP, haround.state, fun hnone => by cases hnone⟩

/-- A run that serves its members and is opened ends with a report, as they have settled. -/
theorem Comes.closing {P : Floor → List (Member (Traced σ)) → Prop} {maxValueBytes : Nat}
    {stretch : Stretch (Traced σ)} {result : Except RunError Report}
    (h : Comes P (ofWorkflow workflow.traced) context stretch)
    (hserving : ∀ floor members, P floor members →
      Serving behave workflow maxValueBytes context floor members)
    (honce : ∀ floor members, P floor members → workflow.plan.order = .sequential →
      failed members ≤ 1)
    (hresult : stretch.step.result = some result)
    (hopened : workflow.check = .ok () ∧ (workflow.isKeyed → workflow.plan.sharesLedger = false) ∨
      ∃ report, result = .ok report) :
    ∃ floor report, P floor stretch.step.run.members ∧ result = .ok report ∧
      Closing workflow.plan.order context.session.id floor stretch.step.run.members report
        stretch.step.state := by
  rcases h with ⟨error, world, hopen, hstep⟩ | ⟨⟨floor, members, -, -, hstep⟩ |
    ⟨floor, after, members, concluded, hP, hconclude, hstep⟩⟩
  · -- A run with a ledger of its own is opened, and else there is a report.
    rcases hopened with ⟨hcheck, hown⟩ | ⟨report, rfl⟩
    · obtain ⟨floor, hfloor⟩ := open_traced_of_own hcheck hown (context.withState stretch.state)
        stretch.world
      simp [hfloor] at hopen
    · simp [hstep] at hresult
  · simp [hstep] at hresult
  · have hserves := hserving floor members hP
    have hrunning : floor.keyed → ∃ record,
        floor.ledger.get? context.session.id = some record ∧ record.status = .running := by
      intro hkeyed
      obtain ⟨record, hrecord, haccord⟩ := (hserves.underway (hserves.keyed ▸ hkeyed)).accord
      exact ⟨record, hrecord, haccord.running⟩
    have hsome : floor.keyed → members ≠ [] := by
      rintro hkeyed rfl
      rw [hserves.keyed, ← hserves.carries.any_isSome] at hkeyed
      simp at hkeyed
    obtain ⟨report, hreport, hclosing⟩ := conclude_closing hrunning hsome (honce floor members hP)
      hconclude
    rw [hstep] at hresult ⊢
    simp only at hreport
    obtain rfl : concluded.mapError .ledger = result := by simpa using hresult
    subst hreport
    exact ⟨floor, report, hP, rfl, hclosing⟩

end Runs

end Run

end Coordination
