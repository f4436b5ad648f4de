import Coordination.Proofs.Gate.Conservation
import Coordination.Proofs.Gate.Occupancy
import Coordination.Proofs.Run.ByClock
import Coordination.Proofs.Run.Quiet
import Coordination.Proofs.Run.Successes

/-!
# The balance of the metrics

Whatever is done at a gate, its levels tell how many hold a slot and how many wait for one.
A run, in whatever order its sub-tasks go and however it returns, leaves the levels under its
name as they were, and is counted by the successes that it has appended to its record: once
for each, and once more if it has an output (`Balanced`).

* `Account.balanced`: the account of a run of which nothing else is heard;
* `metrics_balance`: the levels of gates, and the measurements of runs.
-/

namespace Coordination

/-- Whether measurements leave the levels under the name of a workflow as they were, and
count these successes. -/
structure Balanced (plan : Plan) (successes : List Execution) (measured : List Measurement) :
    Prop where
  queue : ∀ level, Measurement.levelFrom? .queueDepth plan.name level measured = some level
  active : ∀ level, Measurement.levelFrom? .activeExecutions plan.name level measured = some level
  /-- Outputs are counted under the namespace of the workflow, and under no other. -/
  writes : ∀ «namespace», measured.count (.outputWritten plan.name «namespace») =
    if «namespace» = plan.namespace then successes.countP (·.outputKey.isSome) else 0
  waits : measured.count (.turnAwaited plan.name) = successes.length

theorem Account.balanced {plan : Plan} {appended : List (Record × Execution)}
    {heard measured : List Measurement} (h : Account plan.name 0 0 appended heard measured)
    (hlabels : ∀ success ∈ appended, success.1.Bears plan)
    (hquiet : ∀ measurement ∈ heard, measurement.workflow ≠ plan.name) :
    Balanced plan (appended.map (·.2)) measured := by
  have hnone : ∀ measurement : Measurement, measurement.workflow = plan.name →
      heard.count measurement = 0 :=
    fun measurement hname => List.count_eq_zero.2 fun hmem => hquiet measurement hmem hname
  refine ⟨h.queue, h.active, fun «namespace» => ?_, ?_⟩
  · rw [h.writes, hnone (.outputWritten plan.name «namespace») rfl, Nat.add_zero, List.countP_map]
    split
    next hsame =>
      refine List.countP_congr fun success hmem => ?_
      obtain ⟨hname, hnamespace⟩ := hlabels success hmem
      simp [isWritten, hname, hnamespace, hsame]
    next hother =>
      refine List.countP_eq_zero.2 fun success hmem => ?_
      obtain ⟨-, hnamespace⟩ := hlabels success hmem
      simp [isWritten, hnamespace, Ne.symm hother]
  · rw [h.waits, hnone (.turnAwaited plan.name) rfl, Nat.add_zero, List.length_map]
    exact List.countP_eq_length.2 fun success hmem => decide_eq_true (hlabels success hmem).1

namespace Workflow

variable {workflow : Workflow (Task Body)}

theorem keepsAt_processes (id : String) :
    workflow.processes.KeepsAt id = workflow.KeepsAt id := by
  funext target
  rw [KeepsAt, isKeyed_processes]
  rfl

end Workflow

namespace Run

section Histories

variable {workflow : Workflow (Task Body)} {context : Context}
  {history : List (Stretch (Traced Process))}
  (h : History (Traced.poll Process.poll) context (ofWorkflow workflow.processes.traced) history)
  (hnames : ∀ member ∈ workflow.members,
    member.2.Workflows fun inner => inner.plan.name ≠ workflow.plan.name)
include h hnames

/-- Without output keys, a run over a tree of tasks appends nothing. -/
theorem History.filterMap_appended (hkeyed : workflow.isKeyed = false) :
    (log (Traced.poll Process.poll) context (ofWorkflow workflow.processes.traced)
      history).filterMap Visit.appended = [] := by
  have hunheard := Workflow.forall_mem_processes fun member hmem =>
    unheard_ofTask (hnames member hmem)
  rw [List.filterMap_eq_nil_iff]
  exact h.appended_of_not_keyed (Workflow.isKeyed_processes.trans hkeyed)
    (fun _ hprocess => hprocess.poll fun _ _ _ => trivial) (fun _ => trivial) hunheard

/-- Nothing is heard under the name of a run from a tree of tasks that keeps to it. -/
theorem History.quiet_processes
    (hbodies : ∀ member ∈ workflow.members, member.2.All
      (Body.Performs (Ledger.Op.Avoids workflow.plan.name (workflow.KeepsAt context.session.id))))
    (hledgers : ∀ stretch ∈ history, stretch.world.ledger.BearsOnly workflow.plan.name
      (workflow.KeepsAt context.session.id)) :
    ∀ measurement ∈ (log (Traced.poll Process.poll) context
        (ofWorkflow workflow.processes.traced) history).flatMap Visit.heard,
      measurement.workflow ≠ workflow.plan.name := by
  have hquiet := Workflow.forall_mem_processes fun member hmem =>
    Process.quiet_ofTask (hnames member hmem) (hbodies member hmem)
  rw [← Workflow.keepsAt_processes] at hledgers hquiet
  have hlonger : ∀ index, LongerThan (workflow.processes.KeepsAt context.session.id)
      (Member.startId workflow.processes.isKeyed context.session.id index) := by
    rintro index target ⟨hkeyed, -, rfl⟩
    rw [Member.startId, if_pos hkeyed]
    exact Context.length_lt_childId _ index
  intro measurement hmem
  obtain ⟨visit, hvisit, hheard⟩ := List.mem_flatMap.1 hmem
  exact h.quiet (fun _ hprocess => hprocess.poll fun _ index hlonger => hlonger.childId index)
    hlonger hquiet hledgers visit hvisit measurement hheard

end Histories

/-- At every moment the levels of a gate tell how many hold a slot and how many wait for one.
A run under a name of its own, however it returns, leaves the levels as they were, and is
counted by the successes that it has appended, beside what is heard from its tasks. If
these keep to the name and to the record, nothing is heard from them; and if nobody else
touches the record, these are its successes and it bears the name. -/
theorem metrics_balance :
    (∀ (workers : Nat) (gate : Gate String), Gate.new workers = .ok gate →
      ∀ (label : String) (steps : List Desk.Step),
        let desk := Desk.ofGate label gate
        Measurement.levelFrom? .activeExecutions label 0 (desk.run steps).2 =
            some (Desk.heldOf (desk.answers steps)).length ∧
          Measurement.levelFrom? .queueDepth label 0 (desk.run steps).2 =
            some (desk.after steps).gate.waiting) ∧
    ∀ (workflow : Workflow (Task Body)) (context : Context)
      (first last : Stretch (Traced Process)) (past : List (Stretch (Traced Process)))
      (later after : World) (more : List Measurement) (answer : Option (Except RunError Report)),
      (∀ member ∈ workflow.members,
        member.2.Workflows fun inner => inner.plan.name ≠ workflow.plan.name) →
      History (Traced.poll Process.poll) context (ofWorkflow workflow.processes.traced)
        (last :: past) →
      (last :: past).getLast? = some first →
      MeasuredElsewhere workflow.plan.name (last :: past) →
      last.step.world.Measures later more → Elsewhere workflow.plan.name more →
      (last.step.map (·.task)).Returns context later answer after →
      let id := context.session.id
      let kept := workflow.KeepsAt id
      let visits := log (Traced.poll Process.poll) context (ofWorkflow workflow.processes.traced)
        (last :: past)
      let appended := visits.filterMap Visit.appended
      ∃ measured, first.world.Measures after measured ∧
        Account workflow.plan.name 0 0 appended (visits.flatMap Visit.heard) measured ∧
        (workflow.isKeyed = false → appended = []) ∧
        ((∀ member ∈ workflow.members,
            member.2.All (Body.Performs (Ledger.Op.Avoids workflow.plan.name kept))) →
          (∀ stretch ∈ last :: past, stretch.world.ledger.BearsOnly workflow.plan.name kept) →
          (workflow.isKeyed → workflow.check = .ok () ∧ (workflow.plan.sharesLedger →
            Undisturbed id (last :: past) ∧
              later.ledger.get? id = last.step.world.ledger.get? id)) →
          Balanced workflow.plan (appended.map (·.2)) measured ∧
            (workflow.isKeyed → ∀ report record, answer = some (.ok report) →
              report.record = some record → record.successes = appended.map (·.2))) := by
  refine ⟨fun workers gate hgate label steps => Desk.levels_run hgate label steps, ?_⟩
  intro workflow context first last past later after more answer hnames h hfirst helsewhere hlater
    hmore hreturns id kept visits appended
  have hunheard := Workflow.forall_mem_processes fun member hmem =>
    unheard_ofTask (hnames member hmem)
  obtain ⟨measured, hmeasures, haccount⟩ :=
    hreturns.balanced h hunheard hfirst helsewhere hlater hmore
  have hnone : workflow.isKeyed = false → appended = [] := h.filterMap_appended hnames
  refine ⟨measured, hmeasures, haccount, hnone, fun hbodies hledgers htouched => ?_⟩
  have hquiet := h.quiet_processes hnames hbodies hledgers
  cases hkeyed : workflow.isKeyed with
  | false =>
    have hlabels : ∀ success ∈ appended, success.1.Bears workflow.plan := by
      rw [hnone hkeyed]
      exact fun _ hmem => absurd hmem List.not_mem_nil
    exact ⟨haccount.balanced hlabels hquiet, fun hkeyed' => by cases hkeyed'⟩
  | true =>
    obtain ⟨hcheck, hown⟩ := htouched hkeyed
    have hcheck' := Workflow.check_processes.trans hcheck
    have hkeyed' := Workflow.isKeyed_processes.trans hkeyed
    have hlabels := h.bears hcheck' hkeyed' (fun hshares => (hown hshares).1) rfl
    refine ⟨haccount.balanced hlabels hquiet, ?_⟩
    intro _ report record hanswer hrecord
    subst hanswer
    exact (hreturns.credited hcheck' hkeyed' h (fun hshares => (hown hshares).1)
      (fun hshares => (hown hshares).2) hrecord).successes

/-- One sub-task ends at once, the next one waits in a workflow of its own, and the third one
waits for the only slot. -/
def errands : Workflow (Task Body) where
  plan := ⟨"errands", "town", .parallel 1, 100, true⟩
  members :=
    [(⟨"bake", none, some "bread", none⟩, .leaf (.emit (.text "bake" "rye") .finish)),
      (⟨"fetch", none, none, none⟩, .workflow
        ⟨⟨"fetch", "town", .sequential, 100, false⟩,
          [(⟨"walk", none, some "milk", none⟩, .leaf (.pause 50 .finish))]⟩),
      (⟨"mend", none, none, none⟩, .leaf .finish)]

/-- The session of the errands. -/
def errandsContext : Context := ⟨⟨"s", "u", "a", .empty⟩, 0, none⟩

/-- The only stretch of the errands before their deadline. -/
def errandsFirst : Stretch (Traced Process) :=
  ⟨.at 0, .empty, .start 100, (ofWorkflow errands.processes.traced).give
    (Traced.poll Process.poll) (.at 0) (errandsContext.withState .empty) (.start 100)⟩

theorem errands_workflows : ∀ member ∈ errands.members,
    member.2.Workflows fun inner => inner.plan.name ≠ errands.plan.name := by
  refine List.forall_mem_cons.2 ⟨.leaf _, List.forall_mem_cons.2 ⟨?_, ?_⟩⟩
  · exact .workflow _ (by decide) (List.forall_mem_singleton.2 (.leaf _))
  · exact List.forall_mem_singleton.2 (.leaf _)

theorem errands_avoid : ∀ member ∈ errands.members, member.2.All
    (Body.Performs (Ledger.Op.Avoids errands.plan.name (errands.KeepsAt "s"))) := by
  refine List.forall_mem_cons.2 ⟨.leaf _ trivial, List.forall_mem_cons.2 ⟨?_, ?_⟩⟩
  · exact .workflow _ (List.forall_mem_singleton.2 (.leaf _ trivial))
  · exact List.forall_mem_singleton.2 (.leaf _ trivial)

theorem errands_history : History (Traced.poll Process.poll) errandsContext
    (ofWorkflow errands.processes.traced) [errandsFirst] :=
  .first _ _ _

theorem errands_undisturbed : Undisturbed "s" [errandsFirst] where
  between := .singleton _
  within := by decide +kernel

theorem errands_open : errandsFirst.step.result = none :=
  Option.isNone_iff_eq_none.1 (by decide +kernel)

/-- At their deadline one errand is done. -/
theorem expire_errands : ∃ report record after,
    (errandsFirst.step.map (·.task)).run.expire 10 (errandsContext.withState .empty)
      errandsFirst.step.world = (.ok report, after) ∧
    report.record = some record ∧ record.successes.length = 1 := by
  have hreturned : ((errandsFirst.step.map (·.task)).run.expire 10
      (errandsContext.withState .empty) errandsFirst.step.world).1.toOption.bind
        (·.record.map (·.successes.length)) = some 1 := by decide +kernel
  generalize (errandsFirst.step.map (·.task)).run.expire 10 _ _ = expired at hreturned ⊢
  obtain ⟨result, after⟩ := expired
  cases result with
  | error => cases hreturned
  | ok report =>
    obtain ⟨record, hrecord, hone⟩ := Option.map_eq_some_iff.1 hreturned
    exact ⟨report, record, after, rfl, hrecord, hone⟩

theorem metrics_balance_errands :
    (Gate.new 1 = .ok (.ofCapacity 1 : Gate String) ∧
      Measurement.levelFrom? .activeExecutions "g" 0
          ((Desk.ofGate "g" (.ofCapacity 1)).run Desk.calledOff).2 =
        some (Desk.heldOf ((Desk.ofGate "g" (.ofCapacity 1)).answers Desk.calledOff)).length) ∧
    ∃ measured report record after, errandsFirst.step.result = none ∧
      (errandsFirst.step.map (·.task)).run.expire 10 (errandsContext.withState .empty)
        errandsFirst.step.world = (.ok report, after) ∧
      report.record = some record ∧ record.successes.length = 1 ∧
      (World.start 100).Measures after measured ∧
      Balanced errands.plan record.successes measured := by
  refine ⟨⟨rfl, (metrics_balance.1 1 (.ofCapacity 1) rfl "g" Desk.calledOff).1⟩, ?_⟩
  have hworld : errandsFirst.world = .start 100 := rfl
  obtain ⟨report, record, after, hexpire, hrecord, hone⟩ := expire_errands
  -- From here on only what is known of the stretch matters, not what was done in it.
  have h := errands_history
  have hundisturbed := errands_undisturbed
  have hopen := errands_open
  generalize errandsFirst = first at *
  have hreturns : (first.step.map (·.task)).Returns errandsContext first.step.world
      (some (.ok report)) after := by
    have hexpired := @Step.Returns.expired (first.step.map (·.task)) errandsContext
      first.step.world 10 .empty hopen
    rwa [hexpire] at hexpired
  obtain ⟨measured, hmeasures, -, -, hbalanced⟩ := metrics_balance.2 errands errandsContext
    first first [] first.step.world after [] (some (.ok report)) errands_workflows h rfl
    (.singleton _) (.refl _) (fun _ hmem => absurd hmem List.not_mem_nil) hreturns
  rw [hworld] at hmeasures
  obtain ⟨hbalanced, hreturned⟩ := hbalanced errands_avoid
    (List.forall_mem_singleton.2 (hworld ▸ Ledger.named_empty 100))
    fun _ => ⟨rfl, fun _ => ⟨hundisturbed, rfl⟩⟩
  rw [← hreturned rfl report record rfl hrecord] at hbalanced
  exact ⟨measured, report, record, after, hopen, hexpire, hrecord, hone, hmeasures, hbalanced⟩

end Run

end Coordination
