import Coordination.Proofs.Gate.Admission
import Coordination.Proofs.Run.Deadline
import Coordination.Proofs.Run.Fairness
import Coordination.Proofs.Run.Line

/-!
# When a run fails as a whole

A run fails only at its start, and only if the place of its record is taken: with output
keys, in the shared ledger, under the id of its session (`Workflow.Taken`). Then it starts
nobody and leaves everything as it is (`Run.Refused`). Any other run is opened, and from
then on it can always bring its record to its end (`Run.Ready`), so it ends with a report,
of itself or at its deadline, and never with an error (`Run.fails_iff_taken`).

* `Run.open_of_taken`: a run whose place is taken is not opened;
* `Run.conclude_reports`, `Run.Ready.cancel`: the ends of a run that is ready do not fail;
* `Run.History.arrives_ready`: so every run stays that is opened;
* `Run.History.fate`: what becomes of a run.
-/

namespace Coordination

variable {σ : Type}

/-- The place of the record of a workflow in the shared ledger is taken. -/
structure Workflow.Taken (workflow : Workflow σ) (id : String) (world : World) : Prop where
  keyed : workflow.isKeyed
  shares : workflow.plan.sharesLedger
  held : ∃ record, world.ledger.get? id = some record

theorem Workflow.Taken.traced {workflow : Workflow σ} {id : String} {world : World}
    (h : workflow.Taken id world) : workflow.traced.Taken id world :=
  ⟨(Run.isKeyed_traced workflow).trans h.keyed, h.shares, h.held⟩

namespace Run

/-! ## The start -/

section Start

variable {workflow : Workflow σ} {context : Context} {world : World}

/-- A run is not opened if the place of its record is taken. -/
theorem open_of_taken (h : workflow.Taken context.session.id world) :
    (ofWorkflow workflow).open context world = .error (.ledger (.alreadyExists context.session.id),
      ((ofWorkflow workflow).lobby context world).world) := by
  obtain ⟨record, hrecord⟩ := h.held
  have hplan : (ofWorkflow workflow).plan = workflow.plan := rfl
  have hkeyed : ((ofWorkflow workflow).lobby context world).keyed = true :=
    (isKeyed_ofWorkflow workflow).trans h.keyed
  have hheld : ((ofWorkflow workflow).lobby context world).ledger.get? context.session.id =
      some record := by
    rw [ledger_lobby h.shares]
    exact hrecord
  have hcreate : createRecord workflow.plan context ((ofWorkflow workflow).lobby context world) =
      .error (.alreadyExists context.session.id) := by
    simp only [createRecord, hkeyed, if_true, Floor.ledger_stamp]
    rw [Ledger.create_of_get? hheld]
    rfl
  simp only [«open», hplan, hcreate]

variable {behave : σ → Poll σ} {start : Run σ} {history : List (Stretch σ)} {first : Stretch σ}

/-- The first stretch of a history is the first one that the run is given. -/
theorem History.step_first (h : History behave context start history)
    (hfirst : history.getLast? = some first) :
    first.step = start.give behave first.turn (context.withState first.state) first.world := by
  induction h with
  | first turn state world =>
    obtain rfl := Option.some.inj hfirst
    rfl
  | next _ _ _ _ _ ih => exact ih (by simpa using hfirst)

/-- A run that is not opened is given no further stretch, and visits nobody. -/
theorem History.of_refused (hfresh : start.stage = .fresh)
    (h : History behave context start history) (hfirst : history.getLast? = some first)
    {refusal : RunError × World}
    (hopen : start.open (context.withState first.state) first.world = .error refusal) :
    history = [first] ∧ log behave context start history = [] ∧ first.step =
      ⟨{ start with stage := .closed }, first.state, refusal.2, some (.error refusal.1)⟩ := by
  obtain ⟨hvisits, hgive⟩ := @give_of_refused _ behave start first.turn _ _ _ hfresh hopen
  have hstep := (h.step_first hfirst).trans hgive
  cases h with
  | first turn state world =>
    obtain rfl := Option.some.inj hfirst
    exact ⟨rfl, hvisits, hstep⟩
  | @next earlier before h hnone turn state world =>
    have hmem : first ∈ earlier :: before := List.mem_of_getLast? (by simpa using hfirst)
    have hopened := (h.next hnone turn state world).result_of_mem first hmem
    rw [hstep] at hopened
    cases hopened

end Start

/-! ## The end -/

section End

variable {order : Order} {id : String} {floor : Floor} {members : List (Member σ)}

/-- A run that can bring its record to its end, if it has one, ends with a report, and
its status says how. -/
theorem conclude_reports {concluded : Except LedgerError Report × Floor}
    (hrunning : floor.keyed → ∃ record, floor.ledger.get? id = some record ∧
      record.status = .running)
    (h : conclude order id floor members = some concluded) :
    ∃ report, concluded.1 = .ok report ∧ report.status ≠ .running := by
  cases concluded_of_conclude h with
  | parallel =>
    cases hkeyed : floor.keyed with
    | false =>
      simp only [concludeParallel, hkeyed]
      refine ⟨_, rfl, ?_⟩
      dsimp only
      split <;> simp
    | true =>
      obtain ⟨record, hrecord, hstatus⟩ := hrunning hkeyed
      have hsettle := settleRecord_of_get? hkeyed hrecord hstatus
      simp only [concludeParallel, hkeyed, if_true, hsettle]
      split
      · exact ⟨_, rfl, by simp [Record.settle, Verdict.status]⟩
      · exact ⟨_, rfl, by simp [Record.settle, Verdict.status]⟩
  | stopped failure =>
    obtain ⟨index, definition, error⟩ := failure
    have hsettles := fun notice =>
      @settleRecord_of_running id (floor.notice notice) (by exact hrunning)
    simp only [concludeStopped]
    obtain ⟨_, _, hsettle, -⟩ := hsettles (.pipelineStopped id index
      (stoppedMessage definition error)) (.failed (stoppedMessage definition error))
    rw [stoppedMessage] at hsettle
    simp only [hsettle]
    exact ⟨_, rfl, by simp⟩
  | completed =>
    obtain ⟨_, _, hsettle, -⟩ := settleRecord_of_running hrunning .completed
    simp only [concludeCompleted, hsettle]
    exact ⟨_, rfl, by simp⟩

end End

/-! ## Under way -/

/-- A run of a workflow can bring its record to its end, if it has one. -/
structure Ready (workflow : Workflow σ) (id : String) (floor : Floor)
    (members : List (Member (Traced σ))) : Prop where
  keyed : floor.keyed = workflow.isKeyed
  publishes : (members.any fun member => member.definition.outputKey.isSome) = workflow.isKeyed
  running : workflow.isKeyed → ∃ record, floor.ledger.get? id = some record ∧
    record.status = .running
  shares : workflow.isKeyed → floor.own = none → workflow.plan.sharesLedger

section Ready

variable {behave : σ → Poll σ} {workflow : Workflow σ} {context : Context}
  {history : List (Stretch (Traced σ))} {first last : Stretch (Traced σ)}

theorem Underway.ready {id : String} {floor : Floor} {members : List (Member (Traced σ))}
    (h : Underway behave workflow id floor members) (hkeyed : workflow.isKeyed = true) :
    Ready workflow id floor members where
  keyed := h.keyed.trans hkeyed.symm
  publishes := h.carries.any_isSome
  running := fun _ => h.accord.imp fun _ hrecord => ⟨hrecord.1, hrecord.2.running⟩
  shares := fun _ => h.own_eq_none_iff.1

/-- A run that is opened stays ready while nobody else touches its record. -/
theorem History.arrives_ready (hcheck : workflow.check = .ok ())
    (h : History (Traced.poll behave) context (ofWorkflow workflow.traced) history)
    (hlast : history.head? = some last) (hfirst : history.getLast? = some first)
    (hundisturbed : workflow.isKeyed → workflow.plan.sharesLedger →
      Undisturbed context.session.id history)
    (hfree : ¬ workflow.Taken context.session.id first.world) :
    Arrives (Ready workflow context.session.id) workflow.plan context.session.id last.step := by
  -- Nothing keeps the run from being opened.
  have hopens : ∃ floor, (ofWorkflow workflow.traced).open (context.withState first.state)
      first.world = .ok floor := by
    refine open_traced_of_free hcheck fun hkeyed hshares => ?_
    rw [Option.eq_none_iff_forall_ne_some]
    exact fun record hrecord => hfree ⟨hkeyed, hshares, record, hrecord⟩
  obtain ⟨opened, hopened⟩ := hopens
  cases hkeyed : workflow.isKeyed with
  | true =>
    rcases h.underway_latest hcheck hkeyed (hundisturbed hkeyed) hlast with
      harrives | ⟨honly, refusal, hopen⟩
    · exact harrives.imp fun _ _ hunder => hunder.ready hkeyed
    · obtain rfl : last = first := by simpa [honly] using hfirst
      simp [hopened] at hopen
  | false =>
    obtain ⟨-, hstretches⟩ := h.serving_induction (P := fun _ _ _ => True) (S := fun _ => True)
      (R := fun _ _ => True) hcheck (guarded_of_shared behave hkeyed _ _) (fun _ _ => trivial)
      (List.pairwise_of_forall fun _ _ => trivial).isChain (fun _ _ _ _ _ => trivial)
      (fun _ _ _ _ => trivial) (fun _ _ _ _ _ _ _ _ _ => trivial)
    rcases hstretches last (List.mem_of_head? hlast) with ⟨error, world, hopen, -⟩ | harrives
    · obtain ⟨floor, hfloor⟩ := open_traced_of_own hcheck (fun h => by simp [hkeyed] at h)
        (context.withState last.state) last.world
      simp [hfloor] at hopen
    · refine harrives.imp fun floor members hserving => ?_
      exact ⟨hserving.1.keyed, hserving.1.carries.any_isSome, fun h => by simp [hkeyed] at h,
        fun h => by simp [hkeyed] at h⟩

/-- At its deadline a run that is ready ends with a report, too. -/
theorem Ready.cancel {run : Run (Traced σ)} {floor : Floor}
    (h : Ready workflow context.session.id floor run.members)
    (hstage : run.stage = .open floor.gate floor.own) (abandons : List Abandon) (deadline : Nat)
    {world : World}
    (hsame : workflow.isKeyed → workflow.plan.sharesLedger →
      (run.abandon abandons world).ledger.get? context.session.id =
        floor.world.ledger.get? context.session.id) :
    ∃ report after, run.cancel abandons deadline context world = (.ok report, after) ∧
      report.status = .cancelled := by
  have hrun : run.isKeyed = workflow.isKeyed := h.publishes
  have hsettles := @settleRecord_of_running context.session.id ⟨context.state, run.isKeyed,
    floor.own, Gate.ofCapacity 0, run.abandon abandons world⟩ (by
      intro hkeyed
      have hkeyed : workflow.isKeyed = true := hrun.symm.trans hkeyed
      obtain ⟨record, hrecord, hrunning⟩ := h.running hkeyed
      refine ⟨record, (floor.get?_ledger_withWorld fun hown => ?_).trans hrecord, hrunning⟩
      exact hsame hkeyed (h.shares hkeyed hown))
  obtain ⟨now, settled, hsettle, -⟩ := hsettles .cancelled
  simp only [Run.cancel, hstage, hsettle]
  exact ⟨_, _, rfl, rfl⟩

end Ready

/-! ## What becomes of a run -/

/-- A run has failed at its start: it has visited nobody, and all is as it was. -/
structure Refused (behave : σ → Poll σ) (context : Context) (start : Run σ) (first : Stretch σ)
    (history : List (Stretch σ)) : Prop where
  only : history = [first]
  result : first.step.result = some (.error (.ledger (.alreadyExists context.session.id)))
  unvisited : log behave context start history = []
  members : first.step.run.members = start.members
  /-- The record that is there and all others are as they were. -/
  ledger : first.step.world.ledger = first.world.ledger
  state : first.step.state = first.state

/-- What has become of a run after its latest stretch. -/
inductive Fate (behave : σ → Poll σ) (workflow : Workflow σ) (context : Context)
    (first last : Stretch (Traced σ)) (history : List (Stretch (Traced σ))) : Prop
  /-- The place of its record is taken, and it has failed at its start. -/
  | refused (htaken : workflow.Taken context.session.id first.world)
      (hrefused : Refused (Traced.poll behave) context (ofWorkflow workflow.traced) first history)
  /-- It is under way. At its deadline it ends with a report. -/
  | underway (hfree : ¬ workflow.Taken context.session.id first.world)
      (hresult : last.step.result = none)
      (hcancel : ∀ (abandons : List Abandon) (deadline : Nat) (state : KeyMap String)
        (world : World), (workflow.isKeyed → workflow.plan.sharesLedger →
          (last.step.run.abandon abandons world).ledger.get? context.session.id =
            last.step.world.ledger.get? context.session.id) →
        ∃ report after, last.step.run.cancel abandons deadline (context.withState state) world =
            (.ok report, after) ∧ report.status = .cancelled)
  /-- It has ended with a report. -/
  | reported (hfree : ¬ workflow.Taken context.session.id first.world) (report : Report)
      (hresult : last.step.result = some (.ok report)) (hstatus : report.status ≠ .running)

section Fate

variable {behave : σ → Poll σ} {workflow : Workflow σ} {context : Context}
  {history : List (Stretch (Traced σ))} {first last : Stretch (Traced σ)}

/-- Only a run that has failed at its start ends with an error. -/
theorem Fate.error_iff (h : Fate behave workflow context first last history)
    (hlast : history.head? = some last) :
    (∃ error, last.step.result = some (.error error)) ↔
      workflow.Taken context.session.id first.world := by
  cases h with
  | refused htaken hrefused =>
    obtain rfl : last = first := by simpa [hrefused.only, eq_comm] using hlast
    exact iff_of_true ⟨_, hrefused.result⟩ htaken
  | underway hfree hresult => exact iff_of_false (by simp [hresult]) hfree
  | reported hfree report hresult => exact iff_of_false (by simp [hresult]) hfree

theorem History.fate (hcheck : workflow.check = .ok ())
    (h : History (Traced.poll behave) context (ofWorkflow workflow.traced) history)
    (hlast : history.head? = some last) (hfirst : history.getLast? = some first)
    (hundisturbed : workflow.isKeyed → workflow.plan.sharesLedger →
      Undisturbed context.session.id history) :
    Fate behave workflow context first last history := by
  by_cases htaken : workflow.Taken context.session.id first.world
  · have hopen := @open_of_taken _ _ (context.withState first.state) _ htaken.traced
    obtain ⟨honly, hlog, hstep⟩ := h.of_refused rfl hfirst hopen
    refine .refused htaken ⟨honly, ?_, hlog, ?_, ?_, ?_⟩ <;> rw [hstep]
    · rfl
    · rfl
  · rcases h.arrives_ready hcheck hlast hfirst hundisturbed htaken with
      ⟨floor, members, hready, -, hstep⟩ | ⟨floor, after, members, result, hready, hconclude, hstep⟩
    · refine .underway htaken (by rw [hstep]) fun abandons deadline state world hsame => ?_
      have hready' : Ready workflow (context.withState state).session.id floor
          last.step.run.members := by
        rw [hstep]
        exact hready
      have hworld : last.step.world = floor.world := by rw [hstep]
      exact hready'.cancel (by rw [hstep]) abandons deadline (hworld ▸ hsame)
    · obtain ⟨report, hreport, hstatus⟩ :=
        conclude_reports (fun hkeyed => hready.running (hready.keyed ▸ hkeyed)) hconclude
      obtain rfl : result = .ok report := hreport
      exact .reported htaken report (by rw [hstep]; rfl) hstatus

end Fate

/-- When the runs of a workflow fail as a whole. -/
structure FailsIffTaken (behave : σ → Poll σ) (workflow : Workflow σ) (context : Context) :
    Prop where
  /-- A run ends with an error exactly if the place of its record is taken at its start,
  provided that nobody else touches the record. Then nothing has happened; any other
  run is under way, or has ended with a report. -/
  fate : ∀ history first last,
    History (Traced.poll behave) context (ofWorkflow workflow.traced) history →
    history.head? = some last → history.getLast? = some first →
    (workflow.isKeyed → workflow.plan.sharesLedger → Undisturbed context.session.id history) →
    ((∃ error, last.step.result = some (.error error)) ↔
      workflow.Taken context.session.id first.world) ∧
        Fate behave workflow context first last history
  /-- A run in which whoever is let in comes to an end is over at last. -/
  ends : ∀ driver, Fair (Traced.poll behave) context (ofWorkflow workflow.traced) driver →
    ∃ count, isOver (drive (Traced.poll behave) context (ofWorkflow workflow.traced) driver count)
  /-- The gate can always be put up. -/
  gate : ∀ workers, workflow.plan.order = .parallel workers →
    (Gate.new workers : Except PolicyError (Gate Nat)) = .ok (Gate.ofCapacity workers)
  /-- Whoever asks for a slot waits for it or starts. -/
  admission : ∀ workers, workflow.plan.order = .parallel workers → ∀ history,
    History (Traced.poll behave) context (ofWorkflow workflow.traced) history →
    ∀ visit ∈ log (Traced.poll behave) context (ofWorkflow workflow.traced) history,
      Member.Queues visit.index visit.floor visit.member visit.after
  /-- So it is at any desk where no request has a signal. -/
  desk : ∀ desk : Desk, desk.Unsignalled → ∀ steps : List Desk.Step,
    (∀ step ∈ steps, step.Unsignalled) → ∀ answer ∈ desk.answers steps, answer.2 ≠ .cancelled

/-- A run of a workflow that may be run fails as a whole exactly if the place of its record
is taken, and then at its start. Else it ends with a report. -/
theorem fails_iff_taken {workflow : Workflow σ} (hcheck : workflow.check = .ok ())
    (behave : σ → Poll σ) (context : Context) : FailsIffTaken behave workflow context where
  fate := by
    intro history first last h hlast hfirst hundisturbed
    have hfate := h.fate hcheck hlast hfirst hundisturbed
    exact ⟨hfate.error_iff hlast, hfate⟩
  ends := fun driver hfair => hfair.comes_to_end
  gate := by
    intro workers horder
    have hworkers := (Workflow.check_eq_ok_iff.1 hcheck).1 workers horder
    simp [Gate.new, hworkers, bind, Except.bind, pure, Except.pure]
  admission := by
    intro workers horder history h visit hmem
    obtain ⟨stretch, -, hof⟩ := h.of_mem_log hmem
    exact hof.queues horder
  desk := fun _ hunsignalled _ hsteps => Desk.not_cancelled_of_unsignalled hunsignalled hsteps

/-- A lookout that is sent out a second time, under the same id. -/
def lookoutAgain : Stretch (Traced Leaf) :=
  let world := lookoutSecond.step.world
  ⟨.at 5, .empty, world, (ofWorkflow lookout.traced).give (Traced.poll Leaf.poll) (.at 5)
    (lookoutContext.withState .empty) world⟩

theorem lookoutAgain_undisturbed : Undisturbed "s" [lookoutAgain] where
  between := List.isChain_singleton _
  within := by decide +kernel

theorem lookout_taken : ¬ lookout.Taken "s" lookoutFirst.world ∧
    lookout.Taken "s" lookoutAgain.world := by
  refine ⟨fun h => ?_, rfl, rfl, Option.isSome_iff_exists.1 (by decide +kernel)⟩
  obtain ⟨record, hrecord⟩ := h.held
  cases hrecord

theorem fails_iff_taken_lookout : lookout.check = .ok () ∧
    (∃ report, lookoutSecond.step.result = some (.ok report) ∧ report.status ≠ .running) ∧
    Refused (Traced.poll Leaf.poll) lookoutContext (ofWorkflow lookout.traced) lookoutAgain
      [lookoutAgain] := by
  have hfails := @fails_iff_taken _ lookout rfl Leaf.poll lookoutContext
  have hfirst : History (Traced.poll Leaf.poll) lookoutContext (ofWorkflow lookout.traced)
      [lookoutSecond, lookoutFirst] := .next (.first _ _ _) rfl _ _ _
  have hagain : History (Traced.poll Leaf.poll) lookoutContext (ofWorkflow lookout.traced)
      [lookoutAgain] := .first _ _ _
  obtain ⟨hfree, htaken⟩ := lookout_taken
  refine ⟨rfl, ?_, ?_⟩
  · cases (hfails.fate _ _ _ hfirst rfl rfl fun _ _ => lookout_undisturbed).2 with
    | refused htaken => exact absurd htaken hfree
    | underway _ hresult => cases hresult
    | reported _ report hresult hstatus => exact ⟨report, hresult, hstatus⟩
  · cases (hfails.fate _ _ _ hagain rfl rfl fun _ _ => lookoutAgain_undisturbed).2 with
    | refused _ hrefused => exact hrefused
    | underway hfree | reported hfree => exact absurd htaken hfree

end Run

end Coordination
