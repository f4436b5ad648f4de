import Coordination.Proofs.Run.Moments

/-!
# The record of a run that is over

Sub-tasks that run side by side and publish their outputs are told of in the
record of their run each exactly once, whatever they do and in whatever order
they go on (`record_complete`).

* `Execution.Attests`: what an execution says of its sub-task;
* `Record.Reported`, `Record.Complete`: what a record and a report say of those
  that have settled, and of all.
-/

namespace Coordination

variable {σ : Type}

/-- What an execution says of the sub-task of its place: the key of the
sub-task, and, if it was a success, that the task came to a good end and that
all that it yielded is published under this key, with its length. -/
def Execution.Attests (behave : σ → Poll σ) (workflow : Workflow σ)
    (members : List (Member (Traced σ))) (outputs : KeyMap String) (execution : Execution) : Prop :=
  ∃ definition task member, workflow.members[execution.index]? = some (definition, task) ∧
    members[execution.index]? = some member ∧ member.process.Follows behave task ∧
    execution.outputKey = definition.outputKey ∧
    (execution.isSuccess → member.process.Ended ∧ ∀ key, definition.outputKey = some key →
      outputs.get? key = some (textOf member.process.events) ∧
      execution.outputSize = (textOf member.process.events).utf8ByteSize)

/-- A record and a report that say the same of the sub-tasks that have settled. -/
structure Record.Reported (behave : σ → Poll σ) (workflow : Workflow σ)
    (members : List (Member (Traced σ))) (report : Report) (record : Record) : Prop where
  completions : record.completions = report.succeeded
  succeeded : record.executions.countP (·.isSuccess) = report.succeeded
  failed : record.executions.countP (·.status = .failed) = report.failed
  /-- The successes are numbered from one on, in the order of their ends. -/
  orders : (record.executions.filter (·.isSuccess)).map (·.completionOrder) =
    (List.range' 1 report.succeeded).map some
  unnumbered : ∀ execution ∈ record.executions, execution.status = .failed →
    execution.completionOrder = none
  /-- There is one output for each success with a key, and no other. -/
  keys : record.outputs.keys.Perm
    ((record.executions.filter (·.isSuccess)).filterMap (·.outputKey))
  attested : ∀ execution ∈ record.executions,
    execution.Attests behave workflow members record.outputs

/-- A record and a report that tell of every sub-task of a workflow. -/
structure Record.Complete (behave : σ → Poll σ) (workflow : Workflow σ)
    (members : List (Member (Traced σ))) (report : Report) (record : Record) : Prop
    extends record.Reported behave workflow members report where
  /-- There is one execution for each sub-task. -/
  indices : (record.executions.map (·.index)).Perm (List.range workflow.members.length)
  total : report.succeeded + report.failed = workflow.members.length

namespace Run

variable {behave : σ → Poll σ} {workflow : Workflow σ} {id : String}
  {members : List (Member (Traced σ))} {record : Record}

theorem Accord.attests (h : Accord workflow.plan id members record)
    (hcarries : Carries behave workflow members) :
    ∀ execution ∈ record.executions, execution.Attests behave workflow members record.outputs := by
  intro execution hmem
  obtain ⟨_, settlement, hsettled, htells⟩ := h.told execution hmem
  obtain ⟨member, hget, rfl, hphase⟩ := settledAt_iff.1 hsettled
  obtain ⟨task, htask, hfollows⟩ := hcarries.task execution.index member hget
  have hcoherent := h.coherent execution.index member hget
  refine ⟨member.definition, task, member, htask, hget, hfollows, htells.draft.outputKey, ?_⟩
  intro hsuccess
  rw [htells.isSuccess] at hsuccess
  have hevents : settlement.events = member.process.events ∧ member.process.Ended :=
    hcoherent.ended_of_success hphase hsuccess
  refine ⟨hevents.2, fun key hkey => ⟨?_, ?_⟩⟩
  · rw [h.outputs, ← hevents.1]
    exact ⟨execution.index, _, settlement, hsettled, hsuccess, hkey, rfl⟩
  · rw [← hevents.1]
    exact htells.outputSize hsuccess (by rw [hkey]; rfl)

/-- However it is brought to its end, a record says what the report says. -/
theorem Accord.reported (h : Accord workflow.plan id members record)
    (hcarries : Carries behave workflow members) {report : Report}
    (hsucceeded : report.succeeded = succeeded members) (hfailed : report.failed = failed members)
    (now : Timestamp) (verdict : Verdict) :
    (record.settle now verdict).Reported behave workflow members report := by
  have hcompletions : record.completions = report.succeeded := by
    rw [h.numbered.completions_eq, h.countP_isSuccess, hsucceeded]
  exact {
    completions := hcompletions
    succeeded := h.countP_isSuccess.trans hsucceeded.symm
    failed := h.countP_failed.trans hfailed.symm
    orders := hcompletions ▸ h.numbered.orders
    unnumbered := fun execution hmem hfailed => (h.numbered.failed execution hmem hfailed).1
    keys := h.perm_keys
    attested := h.attests hcarries }

/-- Once the members have settled, a record in accord with them is complete. -/
theorem Closes.complete {report : Report} (h : Closes behave workflow id members report) :
    ∃ record, report.record = some record ∧ record.Complete behave workflow members report := by
  obtain ⟨record, now, verdict, haccord, hrecord⟩ := h.record
  have hindices := haccord.perm_range h.settled
  rw [h.carries.length] at hindices
  have hlength := hindices.length_eq
  rw [List.length_map, List.length_range, haccord.length_executions] at hlength
  have hle : Run.succeeded members ≤ (settlements members).length := List.countP_le_length
  refine ⟨record.settle now verdict, hrecord,
    haccord.reported h.carries h.succeeded h.failed now verdict, hindices, ?_⟩
  rw [h.succeeded, h.failed, Run.failed]
  omega

/-- However the sub-tasks behave and go on, once a parallel run with output
keys is over its record tells of each of them exactly once, provided that
nobody else touches the record. Without the shared ledger nobody can. -/
theorem record_complete {context : Context} {workers : Nat} {last : Stretch (Traced σ)}
    {past : List (Stretch (Traced σ))} {report : Report}
    (horder : workflow.plan.order = .parallel workers) (hcheck : workflow.check = .ok ())
    (hkeyed : workflow.isKeyed = true)
    (h : History (Traced.poll behave) context (ofWorkflow workflow.traced) (last :: past))
    (hundisturbed : workflow.plan.sharesLedger → Undisturbed context.session.id (last :: past))
    (hresult : last.step.result = some (.ok report)) :
    ∃ record, report.record = some record ∧
      record.Complete behave workflow last.step.run.members report := by
  have hleads := h.leads horder hcheck hkeyed hundisturbed last List.mem_cons_self
  exact (hleads.of_ok hresult).complete

/-- Three sub-tasks with an output key each: one waits and then succeeds, one
fails at once and one succeeds at once. -/
def lookout : Workflow Leaf where
  plan := ⟨"lookout", "default", .parallel 2, 100, true⟩
  members :=
    [(⟨"east", none, some "e", none⟩, .ofBody (.pause 5 (.emit (.text "east" "sun") .finish))),
      (⟨"west", none, some "w", none⟩, .ofBody (.fail (.ofMessage "lost") .finish)),
      (⟨"north", none, some "n", none⟩, .ofBody (.emit (.text "north" "ice") .finish))]

/-- The session of a lookout. -/
def lookoutContext : Context := ⟨⟨"s", "u", "a", .empty⟩, 0, none⟩

/-- The first stretch of a lookout. -/
def lookoutFirst : Stretch (Traced Leaf) :=
  ⟨.at 0, .empty, .start 100, (ofWorkflow lookout.traced).give (Traced.poll Leaf.poll) (.at 0)
    (lookoutContext.withState .empty) (.start 100)⟩

/-- The second, when the first sub-task has waited long enough. -/
def lookoutSecond : Stretch (Traced Leaf) :=
  let world := { lookoutFirst.step.world with clock := 5 }
  ⟨.at 5, .empty, world, lookoutFirst.step.run.give (Traced.poll Leaf.poll) (.at 5)
    (lookoutContext.withState .empty) world⟩

theorem lookout_undisturbed : Undisturbed "s" [lookoutSecond, lookoutFirst] where
  between := List.isChain_cons_cons.2 ⟨rfl, List.isChain_singleton _⟩
  within := by decide +kernel

theorem record_complete_lookout : ∃ report record,
    lookoutSecond.step.result = some (.ok report) ∧ report.record = some record ∧
      record.Complete Leaf.poll lookout lookoutSecond.step.run.members report := by
  have h : History (Traced.poll Leaf.poll) lookoutContext (ofWorkflow lookout.traced)
      [lookoutSecond, lookoutFirst] := .next (.first _ _ _) rfl _ _ _
  obtain ⟨record, hrecord, hcomplete⟩ := record_complete rfl rfl rfl h
    (fun _ => lookout_undisturbed) rfl
  exact ⟨_, record, rfl, hrecord, hcomplete⟩

end Run

end Coordination
