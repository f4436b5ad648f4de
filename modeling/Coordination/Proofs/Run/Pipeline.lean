import Coordination.Proofs.Run.Stages

/-!
# What a pipeline comes to

The sub-tasks of a run one after another are its stages. Each is carried out from
the values of the run's session and, over them, the outputs of the stages before
it, up to the first that fails: its instruction cannot be filled in, its task
fails, or its output is refused. What the run reports is told from how these
stages have settled (`Run.pipeline_report`); no later one is ever started.

* `Run.Stage`: what has become of a stage;
* `Run.Pipelined`: what a pipeline reports whose stages have settled so.
-/

namespace Coordination

variable {σ : Type}

namespace Run

/-- What has become of the stage of a place, if these are all that have settled:
it is one of them, and has settled as its task has that was begun from the values
of the session and, over them, the outputs of the stages before it; or it is behind
them, and has done nothing. -/
inductive Stage (behave : σ → Poll σ) (workflow : Workflow σ) (maxValueBytes : Nat)
    (context : Context) (initial : KeyMap String) (stages : List (Definition × Settlement))
    (index : Nat) (member : Member (Traced σ)) : Prop
  | settled (task : σ) (settlement : Settlement)
      (hstage : stages[index]? = some (member.definition, settlement))
      (htask : workflow.members[index]? = some (member.definition, task))
      (hsettles : Settles behave True (workflow.terms maxValueBytes context) index member.definition
        task (initial.overlay (outputsOf (stages.take index))) settlement member.process)
  | untouched (hbehind : stages.length ≤ index) (hphase : member.phase.hasStarted = false)
      (hpast : member.process.past = [])

/-- Whether a record tells of these stages, and with these outputs and this end. -/
structure Recorded (plan : Plan) (id : String) (stages : List (Definition × Settlement))
    (outputs : KeyMap String) (status : RunStatus) (error : Option String) (record : Record) :
    Prop where
  executions : record.executions.map (·.timeless) =
    stages.mapIdx (Execution.ofStage plan.namespace id)
  outputs : record.outputs = outputs
  status : record.status = status
  errorMessage : record.errorMessage = error

/-- What a pipeline of so many stages reports, and the values that it leaves, if
these of its stages have settled. -/
inductive Pipelined (plan : Plan) (id : String) (total : Nat) (initial : KeyMap String)
    (stages : List (Definition × Settlement)) (report : Report) (state : KeyMap String) : Prop
  /-- All have succeeded. -/
  | completed (record : Record) (htotal : stages.length = total)
      (hsuccess : ∀ stage ∈ stages, stage.2.isSuccess)
      (hreport : report =
        ⟨.completed, total, 0, stages.flatMap (·.2.events), none, some record⟩)
      (hrecord : Recorded plan id stages (outputsOf stages) .completed none record)
      (hstate : state = initial.overlay (outputsOf stages))
  /-- The last of them has failed. -/
  | stopped (record : Record) (done : List (Definition × Settlement)) (definition : Definition)
      (events : List Event) (error : String)
      (hstages : stages = done ++ [(definition, ⟨events, some error⟩)])
      (hsuccess : ∀ stage ∈ done, stage.2.isSuccess)
      (hreport : report = ⟨.failed, done.length, 1, stages.flatMap (·.2.events),
        some (stoppedMessage definition error), some record⟩)
      (hrecord : Recorded plan id stages (outputsOf done) .failed
        (some (stoppedMessage definition error)) record)
      (hstate : state = initial)

/-! ## Ends -/

section Ends

variable {members : List (Member σ)}

theorem firstFailure?_eq_some {index : Nat} {definition : Definition} {error : String}
    (h : firstFailure? members = some (index, definition, error)) :
    ∃ settlement, SettledAt members index definition settlement ∧
      settlement.error = some error := by
  obtain ⟨⟨member, i⟩, hmem, hfound⟩ := List.exists_of_findSome?_eq_some h
  have hget : members[i]? = some member := List.mem_zipIdx_iff_getElem?.1 hmem
  simp only [Option.bind_eq_bind, Option.bind_eq_some_iff, Option.pure_def, Option.some.injEq,
    Prod.mk.injEq] at hfound
  obtain ⟨settlement, hsettled, message, herror, rfl, rfl, rfl⟩ := hfound
  exact ⟨settlement, settledAt_iff.2 ⟨member, hget, rfl, hsettled⟩, herror⟩

/-- Of those that settle one after another, all succeed, or all but the last. -/
theorem InTurn.finished_cases (h : InTurn (·.isSuccess) members) :
    (∀ stage ∈ finished members, stage.2.isSuccess) ∨
      ∃ done definition events error,
        finished members = done ++ [(definition, ⟨events, some error⟩)] ∧
          ∀ stage ∈ done, stage.2.isSuccess := by
  rcases List.eq_nil_or_concat (finished members) with
    hnil | ⟨done, ⟨definition, events, error⟩, hdone⟩
  · exact .inl (by simp [hnil])
  · rw [List.concat_eq_append] at hdone
    have hbefore : ∀ stage ∈ done, stage.2.isSuccess := by
      intro stage hmem
      obtain ⟨i, hget⟩ := List.mem_iff_getElem?.1 hmem
      have hlt := (List.getElem?_eq_some_iff.1 hget).1
      refine h.passes_of_lt (j := done.length) hlt (by simp [hdone]) ?_
      rw [hdone, List.getElem?_append_left hlt, hget]
    cases error with
    | none =>
      refine .inl ?_
      rw [hdone]
      exact List.forall_mem_append.2 ⟨hbefore, by simp [Settlement.isSuccess]⟩
    | some error => exact .inr ⟨done, definition, events, error, hdone, hbefore⟩

theorem InTurn.failed_le_one (h : InTurn (·.isSuccess) members) : failed members ≤ 1 := by
  rw [failed_eq_countP_finished]
  rcases h.finished_cases with hall | ⟨done, definition, events, error, hdone, hbefore⟩
  · rw [List.countP_eq_zero.2 fun stage hmem => by simp [hall stage hmem]]
    omega
  · rw [hdone, List.countP_append,
      List.countP_eq_zero.2 fun stage hmem => by simp [hbefore stage hmem], Nat.zero_add]
    exact List.countP_le_length

/-- If all but the last succeed, the last is the one that stops the run. -/
theorem InTurn.firstFailure?_eq (h : InTurn (·.isSuccess) members)
    {done : List (Definition × Settlement)} {definition : Definition} {events : List Event}
    {error : String} (hdone : finished members = done ++ [(definition, ⟨events, some error⟩)])
    (hbefore : ∀ stage ∈ done, stage.2.isSuccess) :
    ∃ index, firstFailure? members = some (index, definition, error) := by
  cases hfailure : firstFailure? members with
  | none =>
    rw [← failed_eq_zero_iff, failed_eq_countP_finished, List.countP_eq_zero] at hfailure
    have hlast := hfailure (definition, ⟨events, some error⟩) (by simp [hdone])
    simp [Settlement.isSuccess] at hlast
  | some failure =>
    obtain ⟨index, definition', error'⟩ := failure
    obtain ⟨settlement, hsettled, herror⟩ := firstFailure?_eq_some hfailure
    have hstage := List.mem_of_getElem? (h.settledAt_iff_getElem?.1 hsettled)
    rw [hdone, List.mem_append, List.mem_singleton] at hstage
    rcases hstage with hmem | hlast
    · simpa [Settlement.isSuccess, herror] using hbefore _ hmem
    · obtain ⟨rfl, rfl⟩ := Prod.mk.inj hlast
      obtain rfl : error = error' := by simpa using herror
      exact ⟨index, rfl⟩

/-- A run one after another that is over has completed with all its members, or was
stopped by the last of those that have settled. -/
theorem InTurn.verdict_cases (h : InTurn (·.isSuccess) members) (hover : Over .sequential members) :
    (verdict .sequential members = .completed ∧ (finished members).length = members.length ∧
        ∀ stage ∈ finished members, stage.2.isSuccess) ∨
      ∃ done definition events error,
        verdict .sequential members = .failed (stoppedMessage definition error) ∧
          finished members = done ++ [(definition, ⟨events, some error⟩)] ∧
            ∀ stage ∈ done, stage.2.isSuccess := by
  rcases h.finished_cases with hall | ⟨done, definition, events, error, hdone, hbefore⟩
  · have hnone : firstFailure? members = none := by
      rw [← failed_eq_zero_iff, failed_eq_countP_finished, List.countP_eq_zero]
      exact fun stage hmem => by simp [hall stage hmem]
    refine .inl ⟨by simp only [verdict, hnone], ?_, hall⟩
    rcases hover with hsettled | ⟨-, hfails⟩
    · exact length_finished_of_all hsettled
    · rw [failed_eq_zero_iff.2 hnone] at hfails
      cases hfails
  · obtain ⟨index, hfailure⟩ := h.firstFailure?_eq hdone hbefore
    exact .inr ⟨done, definition, events, error, by simp only [verdict, hfailure], hdone, hbefore⟩

/-- Once a run one after another is over, whoever has not settled has not started. -/
theorem InTurn.unstarted_of_over (h : InTurn (·.isSuccess) members)
    (hover : Over .sequential members) {index : Nat} {member : Member σ}
    (hget : members[index]? = some member) (hunsettled : member.phase.settlement? = none) :
    member.phase.hasStarted = false := by
  rcases hover with hall | ⟨-, hfails⟩
  · simpa [hunsettled] using hall member (List.mem_of_getElem? hget)
  rcases h.finished_cases with hall | ⟨done, definition, events, error, hdone, -⟩
  · rw [failed_eq_countP_finished,
      List.countP_eq_zero.2 fun stage hmem => by simp [hall stage hmem]] at hfails
    cases hfails
  · have hlast : (finished members)[done.length]? = some (definition, ⟨events, some error⟩) := by
      simp [hdone]
    obtain ⟨other, hother, -, hsettled⟩ := settledAt_iff.1 (h.settledAt_iff_getElem?.2 hlast)
    obtain ⟨hlt, rfl⟩ := List.getElem?_eq_some_iff.1 hget
    obtain ⟨hlt', rfl⟩ := List.getElem?_eq_some_iff.1 hother
    refine Bool.eq_false_iff.2 fun hstarted => ?_
    rcases Nat.lt_trichotomy index done.length with hbefore | rfl | hbehind
    · have hpasses := List.pairwise_iff_getElem.1 h _ _ hlt hlt' hbefore
        (Member.hasStarted_of_settled (by rw [hsettled]; rfl))
      simp [hunsettled] at hpasses
    · simp [hunsettled] at hsettled
    · have hpasses := List.pairwise_iff_getElem.1 h _ _ hlt' hlt hbehind hstarted
      simp [hsettled, Settlement.isSuccess] at hpasses

variable {plan : Plan} {id : String} {floor : Floor} {report : Report} {record : Record}
  {state initial : KeyMap String}

/-- A run one after another with output keys reports how its stages have settled. -/
theorem Closing.pipelined (h : Closing .sequential id floor members report state)
    (hturn : InTurn (·.isSuccess) members) (hkeyed : floor.keyed = true)
    (hrecord : floor.ledger.get? id = some record)
    (hexecutions : record.executions.map (·.timeless) =
      (finished members).mapIdx (Execution.ofStage plan.namespace id))
    (houtputs : record.outputs = outputsOf (finished members)) (hstate : floor.state = initial) :
    Pipelined plan id members.length initial (finished members) report state := by
  obtain ⟨now, hreported⟩ := h.record
  rw [hkeyed, if_pos rfl, hrecord, Option.map_some] at hreported
  have hevents := h.events.trans (events_eq_flatMap_finished members)
  have hsucceeded := h.succeeded.trans (succeeded_eq_countP_finished members)
  have hfailed := h.failed.trans (failed_eq_countP_finished members)
  have hstatus := h.status
  have herror := h.error
  have hleft := h.state
  obtain ⟨status, succeeded, failed, events, error, record?⟩ := report
  simp only at hreported hevents hsucceeded hfailed hstatus herror hleft
  subst hreported hevents hsucceeded hfailed hstatus herror
  rcases hturn.verdict_cases h.isOver with ⟨hverdict, hlength, hall⟩ |
    ⟨done, definition, events, error, hverdict, hdone, hbefore⟩
  · have hcount : (finished members).countP (·.2.isSuccess) = members.length := by
      rw [List.countP_eq_length.2 hall, hlength]
    have hzero : (finished members).countP (!·.2.isSuccess) = 0 :=
      List.countP_eq_zero.2 fun stage hmem => by simp [hall stage hmem]
    rw [hverdict, if_pos rfl, hstate] at hleft
    rw [hverdict, hcount, hzero]
    exact .completed (record.settle now .completed) hlength hall rfl
      ⟨hexecutions, houtputs, rfl, rfl⟩ (houtputs ▸ hleft)
  · have hcount : (finished members).countP (·.2.isSuccess) = done.length := by
      rw [hdone, List.countP_append, List.countP_eq_length.2 hbefore]
      simp [Settlement.isSuccess]
    have hone : (finished members).countP (!·.2.isSuccess) = 1 := by
      rw [hdone, List.countP_append,
        List.countP_eq_zero.2 fun stage hmem => by simp [hbefore stage hmem]]
      simp [Settlement.isSuccess]
    have hpublished : outputsOf (finished members) = outputsOf done := by
      rw [hdone, outputsOf, List.filterMap_append]
      simp [outputsOf, Settlement.output?, Settlement.isSuccess]
    rw [hverdict, if_neg (by simp), hstate] at hleft
    rw [hverdict, hcount, hone]
    exact .stopped (record.settle now _) done definition events error hdone hbefore rfl
      ⟨hexecutions, houtputs.trans hpublished, rfl, rfl⟩ hleft

end Ends

/-! ## Runs -/

section Runs

variable {behave : σ → Poll σ} {workflow : Workflow σ} {maxValueBytes : Nat} {context : Context}
  {initial : KeyMap String}

/-- What has become of the stages of a pipeline that is over. -/
theorem Turns.stage {floor : Floor} {members : List (Member (Traced σ))}
    (h : Turns behave workflow maxValueBytes context initial (·.isSuccess) floor members)
    (hkeyed : workflow.isKeyed = true) {index : Nat} {member : Member (Traced σ)}
    (hget : members[index]? = some member) (hover : Over .sequential members) :
    Stage behave workflow maxValueBytes context initial (finished members) index member := by
  cases hsettled : member.phase.settlement? with
  | some settlement =>
    obtain ⟨task, htask, hsettles⟩ := h.settles hget hsettled
    have hstage := h.inTurn.settledAt_iff_getElem?.1 (settledAt_iff.2 ⟨member, hget, rfl, hsettled⟩)
    have hlt := (List.getElem?_eq_some_iff.1 hstage).1
    rw [valuesAfter, if_pos hkeyed, h.inTurn.finished_take (Nat.le_of_lt hlt)] at hsettles
    exact .settled task settlement hstage htask hsettles
  | none =>
    have hphase := h.inTurn.unstarted_of_over hover hget hsettled
    obtain ⟨task, -, hstands⟩ := h.standing index member hget
    refine .untouched ?_ hphase (by rw [hstands.unstarted_of hphase]; rfl)
    by_contra hlt
    have hstage := h.inTurn.getElem?_finished index
    rw [hget, Option.bind_some, hsettled, Option.map_none, List.getElem?_eq_none_iff] at hstage
    exact hlt hstage

/-- A run one after another that ends with a report ends as its members say, which have
worked in turn. -/
theorem History.closing_sequential {last : Stretch (Traced σ)} {past : List (Stretch (Traced σ))}
    {report : Report} (horder : workflow.plan.order = .sequential)
    (hcheck : workflow.check = .ok ())
    (hguarded : Guarded behave workflow maxValueBytes context.session.id (last :: past))
    (h : History (Traced.poll behave) context (ofWorkflow workflow.traced) (last :: past))
    (huntouched : Untouched initial (last :: past))
    (hreport : last.step.result = some (.ok report)) :
    ∃ floor, Serving behave workflow maxValueBytes context floor last.step.run.members ∧
      Turns behave workflow maxValueBytes context initial (·.isSuccess) floor
        last.step.run.members ∧
      Closing .sequential context.session.id floor last.step.run.members report
        last.step.state := by
  obtain ⟨-, hstretches⟩ := h.turns hcheck (fun _ => hguarded) huntouched
    fun visit hmem _ => h.front_sequential horder visit hmem
  obtain ⟨floor, _, ⟨hserving, hturns⟩, ⟨⟩, hclosing⟩ :=
    (hstretches last List.mem_cons_self).closing (fun _ _ hP => hP.1)
      (fun _ _ hP _ => hP.2.inTurn.failed_le_one) hreport (.inr ⟨report, rfl⟩)
  exact ⟨floor, hserving, hturns, horder ▸ hclosing⟩

/-- What a pipeline comes to. Take a run one after another with output keys whose
record nobody else touches and into whose session nobody else writes, and which has
ended with a report. Each of its stages, up to the first that fails, has settled as
its task has that was begun from the values of the session, overlaid with the
outputs of the stages before it; no later one has started. The report, the record
and the values that the run leaves say so, and nothing else. -/
theorem pipeline_report {last : Stretch (Traced σ)} {past : List (Stretch (Traced σ))}
    {report : Report} (horder : workflow.plan.order = .sequential)
    (hcheck : workflow.check = .ok ()) (hkeyed : workflow.isKeyed = true)
    (hguarded : Guarded behave workflow maxValueBytes context.session.id (last :: past))
    (h : History (Traced.poll behave) context (ofWorkflow workflow.traced) (last :: past))
    (huntouched : Untouched initial (last :: past))
    (hreport : last.step.result = some (.ok report)) :
    ∃ stages, (∀ (index : Nat) (member : Member (Traced σ)),
        last.step.run.members[index]? = some member →
        Stage behave workflow maxValueBytes context initial stages index member) ∧
      Pipelined workflow.plan context.session.id workflow.members.length initial stages report
        last.step.state := by
  obtain ⟨floor, hserving, hturns, hclosing⟩ :=
    h.closing_sequential horder hcheck hguarded huntouched hreport
  obtain ⟨record, hrecord, haccord⟩ := (hserving.underway hkeyed).accord
  have hexecutions := hturns.executions_eq hkeyed hrecord haccord
    (hserving.tended hkeyed record hrecord)
    fun index stage hget hlt => hturns.inTurn.passes_of_lt (Nat.lt_succ_self index) hlt hget
  have hstate := hturns.state
  rw [if_pos hkeyed] at hstate
  refine ⟨_, fun index member hget => hturns.stage hkeyed hget hclosing.isOver, ?_⟩
  rw [← hserving.carries.length]
  exact hclosing.pipelined hturns.inTurn (hserving.keyed.trans hkeyed) hrecord hexecutions
    haccord.outputs_eq_outputsOf hstate

end Runs

/-- Three stages with outputs of at most four bytes. The second yields its
instruction, which is longer, and waits before that. -/
def convoy : Workflow Leaf where
  plan := ⟨"convoy", "default", .sequential, 4, false⟩
  members :=
    [(⟨"one", none, some "a", none⟩, .ofBody (.emit (.text "one" "sun") .finish)),
      (⟨"two", none, some "b", some "after \x7ba\x7d"⟩,
        .ofBody (.pause 5 (.look fun context =>
          .emit (.text "two" (context.instruction.getD "")) .finish))),
      (⟨"three", none, some "c", none⟩, .ofBody .finish)]

/-- The session of a convoy. -/
def convoyContext : Context := ⟨⟨"s", "u", "a", .empty⟩, 0, none⟩

/-- A stretch of a convoy at a time. -/
def convoyStretch (run : Run (Traced Leaf)) (world : World) (clock : Nat) :
    Stretch (Traced Leaf) :=
  ⟨.at clock, .empty, { world with clock }, run.give (Traced.poll Leaf.poll) (.at clock)
    (convoyContext.withState .empty) { world with clock }⟩

/-- The first stretch of a convoy: the second stage waits. -/
def convoyFirst : Stretch (Traced Leaf) :=
  convoyStretch (ofWorkflow convoy.traced) (.start 100) 0

/-- The second, when it has waited long enough. -/
def convoyLast : Stretch (Traced Leaf) :=
  convoyStretch convoyFirst.step.run convoyFirst.step.world 5

/-- The message that a convoy ends with. -/
def convoyMessage : String :=
  "sub-task 'two' failed: Commit rejected: " ++
    "Output value for key 'b' exceeds maximum size (9 > 4 bytes)"

theorem pipeline_report_convoy : ∃ report stages,
    convoyLast.step.result = some (.ok report) ∧
      Pipelined convoy.plan "s" 3 .empty stages report convoyLast.step.state ∧
      report.error = some convoyMessage ∧
      report.record.map (·.executions.map fun e => (e.index, e.completionOrder)) =
        some [(0, some 1), (1, none)] := by
  have h : History (Traced.poll Leaf.poll) convoyContext (ofWorkflow convoy.traced)
      [convoyLast, convoyFirst] := .next (.first _ _ _) rfl _ _ _
  have huntouched : Untouched .empty [convoyLast, convoyFirst] := by
    refine ⟨?_, List.isChain_pair.2 rfl⟩
    rintro _ ⟨⟩
    rfl
  obtain ⟨report, hreport⟩ : ∃ report, convoyLast.step.result = some (.ok report) := ⟨_, rfl⟩
  obtain ⟨stages, -, hpipelined⟩ := pipeline_report rfl rfl rfl
    (guarded_of_own Leaf.poll rfl "s" [convoyLast, convoyFirst]) h huntouched hreport
  have herror : convoyLast.step.result.map (·.toOption.bind (·.error)) =
      some (some convoyMessage) := by decide +kernel
  have horders : convoyLast.step.result.map (·.toOption.bind fun report =>
      report.record.map (·.executions.map fun e => (e.index, e.completionOrder))) =
      some (some [(0, some 1), (1, none)]) := by decide +kernel
  rw [hreport] at herror horders
  exact ⟨report, stages, hreport, hpipelined, Option.some.inj herror, Option.some.inj horders⟩

end Run

end Coordination
