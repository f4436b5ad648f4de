import Coordination.Proofs.Run.FanOut

/-!
# The record of a run that is cancelled

A deadline may cut a run off between any two stretches. Its sub-tasks are then
either settled, in the report and in the record alike, or have left nothing
behind in either (`cancel_agrees`).

* `Record.Cut`: how a record and the report of a cancelled run agree.
-/

namespace Coordination

variable {σ : Type}

/-- The record and the report of a cancelled run, told from where its members stood. -/
structure Record.Cut (behave : σ → Poll σ) (workflow : Workflow σ)
    (members : List (Member (Traced σ))) (report : Report) (record : Record) : Prop
    extends record.Reported behave workflow members report where
  status : report.status = .cancelled ∧ record.status = .cancelled
  message : report.error = none ∧ record.errorMessage = none
  /-- No sub-task has two executions. -/
  once : (record.executions.map (·.index)).Nodup
  counted : report.succeeded = Run.succeeded members ∧ report.failed = Run.failed members
  succeeded_iff : ∀ (index : Nat) (member : Member (Traced σ)), members[index]? = some member →
    ((∃ execution ∈ record.executions, execution.index = index ∧ execution.isSuccess) ↔
      ∃ settlement, member.phase.settlement? = some settlement ∧ settlement.isSuccess)
  failed_iff : ∀ (index : Nat) (member : Member (Traced σ)), members[index]? = some member →
    ((∃ execution ∈ record.executions, execution.index = index ∧ execution.status = .failed) ↔
      ∃ settlement, member.phase.settlement? = some settlement ∧ ¬ settlement.isSuccess)
  /-- What was abandoned has no execution, no output and no event. -/
  abandoned : ∀ (index : Nat) (member : Member (Traced σ)), members[index]? = some member →
    member.phase.settlement? = none →
      (∀ execution ∈ record.executions, execution.index ≠ index) ∧
      (∀ key, member.definition.outputKey = some key → record.outputs.get? key = none) ∧
      Run.block workflow.plan record index member = []
  events : report.events = members.zipIdx.flatMap fun (member, index) =>
    Run.block workflow.plan record index member

namespace Run

variable {behave : σ → Poll σ} {workflow : Workflow σ} {id : String}
  {members : List (Member (Traced σ))} {record : Record}

/-- A member has an execution of a status exactly if it has settled so. -/
theorem Accord.exists_execution_iff (h : Accord workflow.plan id members record) {index : Nat}
    {member : Member (Traced σ)} (hget : members[index]? = some member) (success : Bool) :
    (∃ execution ∈ record.executions, execution.index = index ∧ execution.isSuccess = success) ↔
      ∃ settlement, member.phase.settlement? = some settlement ∧
        settlement.isSuccess = success := by
  constructor
  · rintro ⟨execution, hmem, rfl, hsuccess⟩
    obtain ⟨_, settlement, hsettled, htells⟩ := h.told execution hmem
    obtain ⟨member', hget', rfl, hphase⟩ := settledAt_iff.1 hsettled
    obtain rfl := Option.some.inj (hget.symm.trans hget')
    exact ⟨settlement, hphase, htells.isSuccess.symm.trans hsuccess⟩
  · rintro ⟨settlement, hphase, hsuccess⟩
    obtain ⟨execution, hmem, hindex, htells⟩ :=
      h.exists_execution (settledAt_iff.2 ⟨member, hget, rfl, hphase⟩)
    exact ⟨execution, hmem, hindex, htells.isSuccess.trans hsuccess⟩

theorem Accord.abandoned (h : Accord workflow.plan id members record) {index : Nat}
    {member : Member (Traced σ)} (hget : members[index]? = some member)
    (hunsettled : member.phase.settlement? = none) :
    (∀ execution ∈ record.executions, execution.index ≠ index) ∧
      (∀ key, member.definition.outputKey = some key → record.outputs.get? key = none) ∧
      block workflow.plan record index member = [] := by
  have hnone := h.index_ne hget hunsettled
  have hfind : record.executions.find? (·.index = index) = none := by simpa using hnone
  refine ⟨hnone, fun key hkey => h.get?_outputs_eq_none hget hunsettled hkey, ?_⟩
  rw [block, hfind]

/-- The report of a cancelled run over its members and its record. -/
def cutReport (members : List (Member σ)) (record : Record) : Report where
  status := .cancelled
  succeeded := succeeded members
  failed := failed members
  events := events members
  error := none
  record := some record

/-- What cancelling a run makes of a record that was in accord with its members. -/
theorem Accord.cut (h : Accord workflow.plan id members record)
    (hcarries : Carries behave workflow members) (now : Timestamp) :
    (record.settle now .cancelled).Cut behave workflow members
      (cutReport members (record.settle now .cancelled)) where
  toReported := h.reported hcarries rfl rfl now .cancelled
  status := ⟨rfl, rfl⟩
  message := ⟨rfl, rfl⟩
  once := h.nodup
  counted := ⟨rfl, rfl⟩
  succeeded_iff := fun index member hget => h.exists_execution_iff hget true
  failed_iff := by
    intro index member hget
    simp only [← Execution.isSuccess_eq_false_iff, Bool.not_eq_true]
    exact h.exists_execution_iff hget false
  abandoned := fun index member hget hunsettled => h.abandoned hget hunsettled
  events := h.events_eq

/-- Cancelling brings a running record to its end, in the ledger as in the report. -/
theorem cancel_of_get? {run : Run σ} {gate : Gate Nat} {own : Option Ledger} {context : Context}
    (hstage : run.stage = .open gate own) (hkeyed : run.isKeyed = true) (abandons : List Abandon)
    (deadline : Nat) (world : World)
    (hrecord : (⟨context.state, true, own, gate, run.abandon abandons world⟩ : Floor).ledger.get?
      context.session.id = some record) (hrunning : record.status = .running) :
    ∃ now after, run.cancel abandons deadline context world =
        (.ok (cutReport run.members (record.settle now .cancelled)), after) ∧
      (own = none →
        after.ledger.get? context.session.id = some (record.settle now .cancelled)) := by
  let floor : Floor := ⟨context.state, true, own, .ofCapacity 0, run.abandon abandons world⟩
  have hfloor : floor.ledger.get? context.session.id = some record := hrecord
  have hsettle := settleRecord_of_get? rfl hfloor hrunning .cancelled
  have hcancel : ∃ notice, run.cancel abandons deadline context world =
      (.ok (cutReport run.members (record.settle floor.stamp.1 .cancelled)),
        ((floor.stamp.2.setLedger (floor.ledger.put context.session.id
          (record.settle floor.stamp.1 .cancelled))).notice notice).world) := by
    simp only [cancel, hstage, hkeyed]
    rw [hsettle]
    exact ⟨_, rfl⟩
  obtain ⟨notice, hcancel⟩ := hcancel
  refine ⟨floor.stamp.1, _, hcancel, ?_⟩
  rintro rfl
  exact (Ledger.get?_put _ _ _ _).trans (if_pos rfl)

/-- A run under way can be cancelled while nobody touches its record. The record is then
brought to its end as it stands. -/
theorem Underway.cuts {run : Run (Traced σ)} {floor : Floor} {context : Context}
    (h : Underway behave workflow context.session.id floor run.members)
    (hstage : run.stage = .open floor.gate floor.own) (hkeyed : workflow.isKeyed = true)
    (abandons : List Abandon) (deadline : Nat) (world : World)
    (hsame : workflow.plan.sharesLedger →
      (run.abandon abandons world).ledger.get? context.session.id =
        floor.world.ledger.get? context.session.id) :
    ∃ record now after, Accord workflow.plan context.session.id run.members record ∧
      run.cancel abandons deadline context world =
        (.ok (cutReport run.members (record.settle now .cancelled)), after) ∧
      (workflow.plan.sharesLedger →
        after.ledger.get? context.session.id = some (record.settle now .cancelled)) := by
  obtain ⟨record, hrecord, haccord⟩ := (h.resume context.state hsame).accord
  obtain ⟨now, after, hcancel, hshared⟩ := cancel_of_get? hstage (h.carries.isKeyed.trans hkeyed)
    abandons deadline world hrecord haccord.running
  exact ⟨record, now, after, haccord, hcancel,
    fun hshares => hshared (h.own_eq_none_iff.2 hshares)⟩

/-- Its report and its record then agree. -/
theorem Underway.cancel {run : Run (Traced σ)} {floor : Floor} {context : Context}
    (h : Underway behave workflow context.session.id floor run.members)
    (hstage : run.stage = .open floor.gate floor.own) (hkeyed : workflow.isKeyed = true)
    (abandons : List Abandon) (deadline : Nat) (world : World)
    (hsame : workflow.plan.sharesLedger →
      (run.abandon abandons world).ledger.get? context.session.id =
        floor.world.ledger.get? context.session.id) :
    ∃ record after, run.cancel abandons deadline context world =
        (.ok (cutReport run.members record), after) ∧
      record.Cut behave workflow run.members (cutReport run.members record) ∧
      (workflow.plan.sharesLedger → after.ledger.get? context.session.id = some record) := by
  obtain ⟨record, now, after, haccord, hcancel, hshared⟩ :=
    h.cuts hstage hkeyed abandons deadline world hsame
  exact ⟨_, after, hcancel, haccord.cut h.carries now, hshared⟩

/-- At whatever moment a parallel run with output keys is cancelled, its report
and its record agree, and nothing was written into its session, provided that
nobody else touches the record. Without the shared ledger nobody can. -/
theorem cancel_agrees {context : Context} {workers : Nat} {last : Stretch (Traced σ)}
    {past : List (Stretch (Traced σ))}
    (horder : workflow.plan.order = .parallel workers) (hcheck : workflow.check = .ok ())
    (hkeyed : workflow.isKeyed = true)
    (h : History (Traced.poll behave) context (ofWorkflow workflow.traced) (last :: past))
    (hundisturbed : workflow.plan.sharesLedger → Undisturbed context.session.id (last :: past))
    (hopen : last.step.result = none) (abandons : List Abandon) (deadline : Nat)
    (state : KeyMap String) (world : World)
    (hsame : workflow.plan.sharesLedger →
      (last.step.run.abandon abandons world).ledger.get? context.session.id =
        last.step.world.ledger.get? context.session.id) :
    (∃ report record after,
      last.step.run.cancel abandons deadline (context.withState state) world = (.ok report, after) ∧
        report.record = some record ∧
        record.Cut behave workflow last.step.run.members report ∧
        (workflow.plan.sharesLedger → after.ledger.get? context.session.id = some record)) ∧
      ∀ stretch ∈ last :: past, stretch.step.state = stretch.state := by
  have hleads := h.leads horder hcheck hkeyed hundisturbed
  refine ⟨?_, ?_⟩
  · obtain ⟨floor, hunder, hstage, -, -, hworld⟩ := (hleads last List.mem_cons_self).of_none hopen
    rw [hworld] at hsame
    obtain ⟨record, after, hcancel, hcut, hshared⟩ :=
      @Underway.cancel _ _ _ _ _ (context.withState state) hunder hstage hkeyed abandons deadline
        world hsame
    exact ⟨_, record, after, hcancel, rfl, hcut, hshared⟩
  · intro stretch hmem
    have hnone : stretch.step.result = none := by
      rcases List.mem_cons.1 hmem with rfl | hpast
      · exact hopen
      · exact h.result_of_mem stretch hpast
    obtain ⟨_, -, -, -, hstate, -⟩ := (hleads stretch hmem).of_none hnone
    exact hstate

theorem cancel_agrees_lookout : ∃ report record after,
    lookoutFirst.step.result = none ∧
      lookoutFirst.step.run.cancel (.replicate 3 fun world => world) 3
        (lookoutContext.withState .empty) lookoutFirst.step.world = (.ok report, after) ∧
      report.record = some record ∧
      record.Cut Leaf.poll lookout lookoutFirst.step.run.members report ∧
      after.ledger.get? "s" = some record ∧ lookoutFirst.step.state = .empty := by
  have h : History (Traced.poll Leaf.poll) lookoutContext (ofWorkflow lookout.traced)
      [lookoutFirst] := .first _ _ _
  obtain ⟨⟨report, record, after, hcancel, hrecord, hcut, hshared⟩, hstate⟩ :=
    cancel_agrees rfl rfl rfl h (fun _ => lookout_undisturbed.tail) rfl
      (.replicate 3 fun world => world) 3 .empty lookoutFirst.step.world fun _ => rfl
  exact ⟨report, record, after, rfl, hcancel, hrecord, hcut, hshared rfl,
    hstate _ List.mem_cons_self⟩

end Run

end Coordination
