import Coordination.Proofs.Run.Ending
import Coordination.Proofs.Run.Pipeline

/-!
# One worker means a pipeline

Side by side with one slot, sub-tasks work in turn just as they do one after
another. While all succeed, each starts from the same values in both orders, so a
task that depends on its context alone settles alike (`Run.Turns.finished_take_eq`).
Then both runs report the same, but for times (`Run.one_worker_pipeline`).

* `Settles.determined`: how a sub-task settles is decided by the values it starts from;
* `Run.Closing.timeless_eq`: runs whose members have settled alike report the same.
-/

namespace Coordination

variable {σ : Type}

/-- The report without the times in its record. -/
def Report.timeless (report : Report) : Report :=
  { report with record := report.record.map (·.timeless) }

/-- Records tell the same at their end, but for times, that told the same before. -/
theorem Record.timeless_settle_eq {record record' : Record}
    (hheading : record.heading = record'.heading) (houtputs : record.outputs = record'.outputs)
    (hexecutions : record.executions.map (·.timeless) = record'.executions.map (·.timeless))
    (hcompletions : record.completions = record'.completions) (now now' : Timestamp)
    (verdict : Verdict) :
    (record.settle now verdict).timeless = (record'.settle now' verdict).timeless := by
  obtain ⟨id, owner, name, «namespace», outputs, executions, _, _, _, _, _, completions⟩ := record
  obtain ⟨_, _, _, _, _, executions', _, _, _, _, _, _⟩ := record'
  simp only [heading, Prod.mk.injEq] at hheading houtputs hexecutions hcompletions
  obtain ⟨rfl, rfl, rfl, rfl⟩ := hheading
  subst houtputs hcompletions
  simp only [settle, timeless, hexecutions, Option.map_some]

/-- A task that depends on its context alone settles alike from the same values,
and leaves the same. -/
theorem Settles.determined {behave : σ → Poll σ} {terms : Terms} {index : Nat}
    {definition : Definition} {task : σ} {values : KeyMap String}
    {settlement settlement' : Settlement} {traced traced' : Traced σ}
    (hdetermined : Determined behave task)
    (h : Settles behave True terms index definition task values settlement traced)
    (h' : Settles behave True terms index definition task values settlement' traced') :
    settlement = settlement' ∧ ∀ state, traced.leaves state = traced'.leaves state := by
  cases h with
  | unfilled error herror =>
    cases h' with
    | unfilled error' herror' =>
      obtain rfl : error = error' := by simpa [herror] using herror'
      exact ⟨rfl, fun _ => rfl⟩
    | ended _ _ _ hok' => simp [herror] at hok'
  | ended instruction _ last hok hcourse hended =>
    cases h' with
    | unfilled _ herror' => simp [hok] at herror'
    | ended instruction' _ last' hok' hcourse' hended' =>
      obtain rfl : instruction = instruction' := by simpa [hok] using hok'
      obtain ⟨hevents, houtcome, hstate⟩ := hdetermined _ _ _ _ _ hcourse hcourse' hended hended'
      refine ⟨by rw [hevents, houtcome], fun state => ?_⟩
      rw [Traced.leaves_of_getLast? hcourse.getLast?, Traced.leaves_of_getLast? hcourse'.getLast?,
        hstate]

namespace Run

variable {behave : σ → Poll σ} {workflow : Workflow σ} {order order' : Order} {maxValueBytes : Nat}
  {context : Context} {initial : KeyMap String} {passes passes' : Settlement → Bool}
  {floor floor' : Floor} {members members' : List (Member (Traced σ))}

/-! ## Members in turn -/

/-- The members of two runs in turn have settled alike, from the first to the last,
and have left the same, if their tasks depend on their contexts alone. -/
theorem Turns.finished_take_eq
    (h : Turns behave (workflow.inOrder order) maxValueBytes context initial passes floor members)
    (h' : Turns behave (workflow.inOrder order') maxValueBytes context initial passes' floor'
      members')
    (hlength : members.length = members'.length)
    (hdetermined : ∀ (index : Nat) (definition : Definition) (task : σ),
      workflow.members[index]? = some (definition, task) → Determined behave task)
    (hall : ∀ member ∈ members, member.phase.settlement?.isSome)
    (hall' : ∀ member ∈ members', member.phase.settlement?.isSome) (count : Nat) :
    finished (members.take count) = finished (members'.take count) ∧
      stateAfter initial (members.take count) = stateAfter initial (members'.take count) := by
  induction count with
  | zero => exact ⟨rfl, rfl⟩
  | succ index ih =>
    obtain ⟨hfinished, hstate⟩ := ih
    rw [List.take_add_one, List.take_add_one]
    cases hget : members[index]? with
    | none =>
      have hget' : members'[index]? = none := by
        rw [List.getElem?_eq_none_iff] at hget ⊢
        omega
      simpa [hget'] using ⟨hfinished, hstate⟩
    | some member =>
      obtain ⟨member', hget'⟩ : ∃ member', members'[index]? = some member' := by
        have := (List.getElem?_eq_some_iff.1 hget).1
        exact ⟨_, List.getElem?_eq_getElem (by omega)⟩
      obtain ⟨settlement, hsettled⟩ :=
        Option.isSome_iff_exists.1 (hall member (List.mem_of_getElem? hget))
      obtain ⟨settlement', hsettled'⟩ :=
        Option.isSome_iff_exists.1 (hall' member' (List.mem_of_getElem? hget'))
      obtain ⟨task, htask, hsettles⟩ := h.settles hget hsettled
      obtain ⟨task', htask', hsettles'⟩ := h'.settles hget' hsettled'
      obtain ⟨hdefinition, rfl⟩ : member.definition = member'.definition ∧ task = task' :=
        Prod.mk.inj (Option.some.inj (htask.symm.trans htask'))
      -- Both have started from the same values.
      rw [valuesAfter, hfinished, hstate, hdefinition] at hsettles
      obtain ⟨rfl, hleaves⟩ :=
        hsettles.inOrder.determined (hdetermined index _ task htask) hsettles'.inOrder
      have hone : finished [member] = finished [member'] := by
        simp [finished, hsettled, hsettled', hdefinition]
      simp only [hget', Option.toList_some, finished_append, stateAfter_append, hfinished, hstate,
        hone, true_and]
      exact hleaves _

/-! ## Reports -/

/-- Two runs report the same, but for times, if their members have settled alike
and their records tell the same. -/
theorem Closing.timeless_eq {id : String} {report report' : Report} {state state' : KeyMap String}
    (h : Closing order id floor members report state)
    (h' : Closing order' id floor' members' report' state')
    (hkeyed : floor.keyed = floor'.keyed) (hfinished : finished members = finished members')
    (hverdict : verdict order members = verdict order' members')
    (hrecord : floor.keyed → ∃ record record', floor.ledger.get? id = some record ∧
      floor'.ledger.get? id = some record' ∧ ∀ now now' verdict,
        (record.settle now verdict).timeless = (record'.settle now' verdict).timeless) :
    report.timeless = report'.timeless := by
  obtain ⟨now, hreported⟩ := h.record
  obtain ⟨now', hreported'⟩ := h'.record
  have hsame : report.record.map (·.timeless) = report'.record.map (·.timeless) := by
    rw [hreported, hreported', ← hkeyed, hverdict]
    cases hisKeyed : floor.keyed with
    | false => rfl
    | true =>
      obtain ⟨record, record', hget, hget', htells⟩ := hrecord hisKeyed
      simp [hget, hget', htells now now']
  have hsucceeded := h.succeeded.trans (succeeded_eq_countP_finished members)
  have hfailed := h.failed.trans (failed_eq_countP_finished members)
  have hevents := h.events.trans (events_eq_flatMap_finished members)
  have hsucceeded' := h'.succeeded.trans (succeeded_eq_countP_finished members')
  have hfailed' := h'.failed.trans (failed_eq_countP_finished members')
  have hevents' := h'.events.trans (events_eq_flatMap_finished members')
  rw [Report.timeless, Report.timeless, hsame, h.status, h'.status, h.error, h'.error, hverdict,
    hsucceeded, hsucceeded', hfailed, hfailed', hevents, hevents', hfinished]

/-- The records of two runs in turn tell the same, but for times, if all their
members have settled alike and succeeded. -/
theorem Turns.records_eq {order order' : Order}
    (hserving : Serving behave (workflow.inOrder order) maxValueBytes context floor members)
    (h : Turns behave (workflow.inOrder order) maxValueBytes context initial passes floor members)
    (hserving' : Serving behave (workflow.inOrder order') maxValueBytes context floor' members')
    (h' : Turns behave (workflow.inOrder order') maxValueBytes context initial passes' floor'
      members')
    (hfinished : finished members = finished members')
    (hsuccess : ∀ stage ∈ finished members, stage.2.isSuccess)
    (hkeyed : workflow.isKeyed = true) :
    ∃ record record', floor.ledger.get? context.session.id = some record ∧
      floor'.ledger.get? context.session.id = some record' ∧
      record.outputs = outputsOf (finished members) ∧
      record'.outputs = outputsOf (finished members) ∧ ∀ now now' verdict,
        (record.settle now verdict).timeless = (record'.settle now' verdict).timeless := by
  obtain ⟨record, hget, haccord⟩ := (hserving.underway hkeyed).accord
  obtain ⟨record', hget', haccord'⟩ := (hserving'.underway hkeyed).accord
  have htended := hserving.tended hkeyed record hget
  have htended' := hserving'.tended hkeyed record' hget'
  have houtputs := haccord.outputs_eq_outputsOf
  have houtputs' := haccord'.outputs_eq_outputsOf
  have hexecutions : record.executions.map (·.timeless) =
      record'.executions.map (·.timeless) := by
    rw [h.executions_eq hkeyed hget haccord htended
        fun _ stage hstage _ => hsuccess stage (List.mem_of_getElem? hstage),
      h'.executions_eq hkeyed hget' haccord' htended'
        fun _ stage hstage _ => hsuccess stage (hfinished ▸ List.mem_of_getElem? hstage),
      hfinished]
    rfl
  have hcompletions : record.completions = record'.completions := by
    have hcount : ∀ executions : List Execution, executions.countP (·.isSuccess) =
        (executions.map (·.timeless)).countP (·.isSuccess) := by
      intro executions
      rw [List.countP_map]
      rfl
    rw [haccord.numbered.completions_eq, haccord'.numbered.completions_eq, hcount, hexecutions,
      ← hcount]
  refine ⟨record, record', hget, hget', houtputs, hfinished ▸ houtputs', fun now now' verdict => ?_⟩
  exact Record.timeless_settle_eq (htended.heading.trans htended'.heading.symm)
    (by rw [houtputs, houtputs', hfinished]) hexecutions hcompletions now now' verdict

/-! ## Histories -/

/-- A workflow that may be run one after another may be run with one worker. -/
theorem check_oneWorker (h : (workflow.inOrder .sequential).check = .ok ()) :
    (workflow.inOrder (.parallel 1)).check = .ok () := by
  rw [Workflow.check_eq_ok_iff] at h ⊢
  refine ⟨?_, h.2⟩
  rintro _ ⟨⟩
  rfl

theorem verdict_eq_completed {members : List (Member σ)} (h : failed members = 0) (order : Order) :
    verdict order members = .completed := by
  cases order with
  | parallel workers => simp [verdict, h]
  | sequential => simp only [verdict, failed_eq_zero_iff.1 h]

/-- All members of a run one after another that has completed have succeeded. -/
theorem Closing.succeeded_of_completed {id : String} {report : Report} {state : KeyMap String}
    {members : List (Member σ)} (h : Closing .sequential id floor members report state)
    (hcompleted : report.status = .completed) :
    (∀ member ∈ members, member.phase.settlement?.isSome) ∧ Run.failed members = 0 := by
  have hzero : Run.failed members = 0 := by
    rw [failed_eq_zero_iff]
    have hstatus := h.status
    cases hfailure : firstFailure? members with
    | none => rfl
    | some failure => simp [verdict, hfailure, hcompleted, Verdict.status] at hstatus
  refine ⟨?_, hzero⟩
  rcases h.isOver with hall | ⟨-, hfails⟩
  · exact hall
  · omega

/-- What a completed run in turn leaves in its session: the outputs of its members
over the values that were there, or what the tasks have left that share it. -/
theorem Turns.state_of_completed {id : String} {report : Report} {state : KeyMap String}
    (h : Turns behave workflow maxValueBytes context initial passes floor members)
    (hclosing : Closing order id floor members report state)
    (hkeyed : floor.keyed = workflow.isKeyed) (hverdict : verdict order members = .completed)
    (hoverlay : workflow.isKeyed → ∃ record, floor.ledger.get? id = some record ∧
      record.outputs = outputsOf (finished members)) :
    state = valuesAfter workflow.isKeyed initial members := by
  obtain ⟨now, hrecord⟩ := hclosing.record
  rw [hclosing.state, if_pos hverdict, Report.outputs, hrecord, h.state, hkeyed, valuesAfter]
  cases hisKeyed : workflow.isKeyed with
  | false => exact KeyMap.overlay_empty _
  | true =>
    obtain ⟨record, hget, houtputs⟩ := hoverlay hisKeyed
    simp only [if_true, hget, Option.map_some, Option.getD_some, Record.settle, houtputs]

/-- A run with one worker and a ledger of its own ends with a report, if it ends, and
this as its members say, which have worked in turn. -/
theorem History.closing_oneWorker {last : Stretch (Traced σ)} {past : List (Stretch (Traced σ))}
    {result : Except RunError Report} (horder : workflow.plan.order = .parallel 1)
    (hcheck : workflow.check = .ok ()) (hown : workflow.plan.sharesLedger = false)
    (h : History (Traced.poll behave) context (ofWorkflow workflow.traced) (last :: past))
    (huntouched : Untouched initial (last :: past)) (hresult : last.step.result = some result) :
    ∃ floor report, result = .ok report ∧
      Serving behave workflow workflow.plan.maxValueBytes context floor last.step.run.members ∧
      Turns behave workflow workflow.plan.maxValueBytes context initial (fun _ => true) floor
        last.step.run.members ∧
      Closing (.parallel 1) context.session.id floor last.step.run.members report
        last.step.state := by
  have hguarded := guarded_of_own behave hown context.session.id (last :: past)
  obtain ⟨-, hstretches⟩ := h.turns hcheck (fun _ => hguarded) huntouched
    fun visit hmem hstarts member hfront => by
      have hsome := h.front_oneWorker horder visit hmem hstarts member hfront
      obtain ⟨settlement, hsettled⟩ := Option.isSome_iff_exists.1 hsome
      rw [hsettled]
      rfl
  obtain ⟨floor, report, ⟨hserving, hturns⟩, hreport, hclosing⟩ :=
    (hstretches last List.mem_cons_self).closing (fun _ _ hP => hP.1)
      (fun _ _ _ hsequential => by simp [horder] at hsequential) hresult (.inl ⟨hcheck, fun _ => hown⟩)
  exact ⟨floor, report, hreport, hserving, hturns, horder ▸ hclosing⟩

/-- A run with one worker that is over reports what the run one after another did
that has completed. -/
theorem History.oneWorker_eq {last last' : Stretch (Traced σ)}
    {past past' : List (Stretch (Traced σ))}
    {report : Report} {result' : Except RunError Report}
    (hcheck : (workflow.inOrder .sequential).check = .ok ())
    (hown : workflow.plan.sharesLedger = false)
    (hdetermined : ∀ (index : Nat) (definition : Definition) (task : σ),
      workflow.members[index]? = some (definition, task) → Determined behave task)
    (h : History (Traced.poll behave) context (ofWorkflow (workflow.inOrder .sequential).traced)
      (last :: past))
    (h' : History (Traced.poll behave) context (ofWorkflow (workflow.inOrder (.parallel 1)).traced)
      (last' :: past'))
    (huntouched : Untouched initial (last :: past))
    (huntouched' : Untouched initial (last' :: past'))
    (hreport : last.step.result = some (.ok report)) (hcompleted : report.status = .completed)
    (hresult' : last'.step.result = some result') :
    ∃ report', result' = .ok report' ∧ report'.timeless = report.timeless ∧
      last'.step.state = last.step.state := by
  have howns : ∀ order, (workflow.inOrder order).plan.sharesLedger = false := fun _ => hown
  obtain ⟨floor, hserving, hturns, hclosing⟩ := h.closing_sequential rfl hcheck
    (guarded_of_own behave (howns .sequential) context.session.id (last :: past)) huntouched
    hreport
  obtain ⟨floor', report', hreport', hserving', hturns', hclosing'⟩ :=
    h'.closing_oneWorker rfl (check_oneWorker hcheck) (howns (.parallel 1)) huntouched' hresult'
  obtain ⟨hall, hzero⟩ := hclosing.succeeded_of_completed hcompleted
  have hall' : ∀ member ∈ last'.step.run.members, member.phase.settlement?.isSome :=
    hclosing'.isOver.settled
  have hlength : last.step.run.members.length = last'.step.run.members.length :=
    hserving.carries.length.trans hserving'.carries.length.symm
  obtain ⟨hfinished, hleft⟩ := hturns.finished_take_eq hturns' hlength hdetermined hall hall'
    last.step.run.members.length
  rw [List.take_length, hlength, List.take_length] at hfinished hleft
  have hsuccess : ∀ stage ∈ finished last.step.run.members, stage.2.isSuccess := by
    rw [failed_eq_countP_finished, List.countP_eq_zero] at hzero
    simpa using hzero
  have hzero' : failed last'.step.run.members = 0 := by
    rw [failed_eq_countP_finished, ← hfinished, ← failed_eq_countP_finished, hzero]
  have hverdict := verdict_eq_completed hzero .sequential
  have hverdict' := verdict_eq_completed hzero' (.parallel 1)
  have hrecords := hturns.records_eq hserving hserving' hturns' hfinished hsuccess
  refine ⟨report', hreport', ?_, ?_⟩
  · refine (hclosing.timeless_eq hclosing' (hserving.keyed.trans hserving'.keyed.symm) hfinished
      (hverdict.trans hverdict'.symm) fun hkeyed => ?_).symm
    obtain ⟨record, record', hget, hget', -, -, htells⟩ := hrecords (hserving.keyed ▸ hkeyed)
    exact ⟨record, record', hget, hget', htells⟩
  · rw [hturns.state_of_completed hclosing hserving.keyed hverdict fun hkeyed => ?_,
      hturns'.state_of_completed hclosing' hserving'.keyed hverdict' fun hkeyed => ?_]
    · rw [valuesAfter, valuesAfter, hfinished, hleft]
      rfl
    · obtain ⟨_, record', -, hget', -, houtputs', -⟩ := hrecords hkeyed
      exact ⟨record', hget', hfinished ▸ houtputs'⟩
    · obtain ⟨record, _, hget, -, houtputs, -⟩ := hrecords hkeyed
      exact ⟨record, hget, houtputs⟩

/-- Nobody writes into the session of a run that is carried on like this. -/
theorem Untouched.resumed {surroundings : World → World} {last : Stretch σ}
    {past further : List (Stretch σ)} (h : Untouched initial (last :: past))
    (hchain : (further ++ [last]).IsChain (Resumed surroundings)) :
    Untouched initial (further ++ last :: past) where
  first := by
    intro first hfirst
    rw [List.getLast?_append_of_ne_nil _ (List.cons_ne_nil _ _)] at hfirst
    exact h.first first hfirst
  between := List.isChain_split.2 ⟨hchain.imp fun _ _ hresumed => hresumed.state, h.between⟩

/-- One worker means a pipeline. Take tasks that depend on their contexts alone and
terminate, in a workflow with a ledger of its own, with output keys or without. Let
a run of them one after another complete, and a run with one worker begin in the
same context and from the same values, however its tasks wait and go on. Carried on
while everybody goes on, that run ends, and it reports the same, but for times, and
leaves the same values in its session. If it is over already, it is not carried on. -/
theorem one_worker_pipeline {last last' : Stretch σ} {past past' : List (Stretch σ)}
    {report : Report} (hcheck : (workflow.inOrder .sequential).check = .ok ())
    (hown : workflow.plan.sharesLedger = false)
    (hdetermined : ∀ (index : Nat) (definition : Definition) (task : σ),
      workflow.members[index]? = some (definition, task) → Determined behave task)
    (hterminates : ∀ (index : Nat) (definition : Definition) (task : σ),
      workflow.members[index]? = some (definition, task) → Terminates behave task)
    (h : History behave context (ofWorkflow (workflow.inOrder .sequential)) (last :: past))
    (h' : History behave context (ofWorkflow (workflow.inOrder (.parallel 1))) (last' :: past'))
    (huntouched : Untouched initial (last :: past))
    (huntouched' : Untouched initial (last' :: past'))
    (hreport : last.step.result = some (.ok report)) (hcompleted : report.status = .completed)
    (surroundings : World → World) :
    ∃ further final report',
      History behave context (ofWorkflow (workflow.inOrder (.parallel 1)))
        (further ++ last' :: past') ∧
      (further ++ [last']).IsChain (Resumed surroundings) ∧
      (last'.step.result.isSome → further = []) ∧
      (further ++ [last']).head? = some final ∧ final.step.result = some (.ok report') ∧
      report'.timeless = report.timeless ∧ final.step.state = last.step.state := by
  obtain ⟨further, final, hfurther, hchain, hhead, hended⟩ :=
    h'.comes_to_end rfl hterminates surroundings
  obtain ⟨result', hresult'⟩ := Option.isSome_iff_exists.1 hended
  have hextended := huntouched'.resumed hchain
  have honly : last'.step.result.isSome → further = [] := by
    intro hsome
    cases further with
    | nil => rfl
    | cons next rest => simp [hfurther.result_of_mem last' (by simp)] at hsome
  obtain ⟨before, hbefore⟩ : ∃ before, further ++ last' :: past' = final :: before := by
    cases further <;> cases hhead <;> exact ⟨_, rfl⟩
  have hhistory := hfurther
  rw [hbefore] at hhistory hextended
  obtain ⟨tlast, tpast, htraced, rfl, rfl⟩ := h.exists_traced_cons
  obtain ⟨tfinal, tbefore, htraced', rfl, rfl⟩ := hhistory.exists_traced_cons
  obtain ⟨report', rfl, htimeless, hstate⟩ := htraced.oneWorker_eq hcheck hown hdetermined htraced'
    huntouched.of_map hextended.of_map hreport hcompleted hresult'
  exact ⟨further, _, report', hfurther, hchain, honly, hhead, hresult', htimeless, hstate⟩

/-- Two sub-tasks. The first waits, and the second yields its instruction, in which
the output of the first stands. -/
def tandem : Workflow Leaf where
  plan := ⟨"tandem", "default", .sequential, 100, false⟩
  members :=
    [(⟨"one", none, some "a", none⟩, .ofBody (.pause 5 (.emit (.text "one" "sun") .finish))),
      (⟨"two", none, some "b", some "after \x7ba\x7d"⟩, .ofBody (.look fun context =>
        .emit (.text "two" (context.instruction.getD "")) .finish))]

/-- The session of a tandem. -/
def tandemContext : Context := ⟨⟨"s", "u", "a", .empty⟩, 0, none⟩

/-- A stretch of a tandem at a time. -/
def tandemStretch (run : Run Leaf) (world : World) (clock : Nat) : Stretch Leaf :=
  ⟨.at clock, .empty, { world with clock }, run.give Leaf.poll (.at clock)
    (tandemContext.withState .empty) { world with clock }⟩

/-- The first stretch of a tandem in an order: the first sub-task waits. -/
def tandemFirst (order : Order) : Stretch Leaf :=
  tandemStretch (ofWorkflow (tandem.inOrder order)) (.start 100) 0

/-- The second, one after another. -/
def tandemLast : Stretch Leaf :=
  tandemStretch (tandemFirst .sequential).step.run (tandemFirst .sequential).step.world 5

/-- The sub-tasks of a tandem depend on their contexts alone. -/
theorem tandem_determined (index : Nat) (definition : Definition) (task : Leaf)
    (hget : tandem.members[index]? = some (definition, task)) : Determined Leaf.poll task := by
  match index with
  | 0 =>
    cases hget
    exact Body.Ignores.determined trivial
  | 1 =>
    cases hget
    refine Body.Ignores.determined ⟨fun a b hagree => ?_, fun _ => trivial⟩
    rw [hagree.eq_of_nil]
  | _ + 2 => cases hget

theorem one_worker_pipeline_tandem : ∃ report further final report',
    tandemLast.step.result = some (.ok report) ∧
      report.outputs.bind (·.get? "b") = some "after sun" ∧
      (tandemFirst (.parallel 1)).step.result = none ∧
      History Leaf.poll tandemContext (ofWorkflow (tandem.inOrder (.parallel 1)))
        (further ++ [tandemFirst (.parallel 1)]) ∧
      (further ++ [tandemFirst (.parallel 1)]).head? = some final ∧
      final.step.result = some (.ok report') ∧ report'.timeless = report.timeless := by
  have h : History Leaf.poll tandemContext (ofWorkflow (tandem.inOrder .sequential))
      [tandemLast, tandemFirst .sequential] := .next (.first _ _ _) rfl _ _ _
  have h' : History Leaf.poll tandemContext (ofWorkflow (tandem.inOrder (.parallel 1)))
      [tandemFirst (.parallel 1)] := .first _ _ _
  have huntouched : Untouched .empty [tandemLast, tandemFirst .sequential] := by
    refine ⟨?_, List.isChain_pair.2 rfl⟩
    rintro _ ⟨⟩
    rfl
  have huntouched' : Untouched .empty [tandemFirst (.parallel 1)] := by
    refine ⟨?_, List.isChain_singleton _⟩
    rintro _ ⟨⟩
    rfl
  obtain ⟨report, hreport⟩ : ∃ report, tandemLast.step.result = some (.ok report) := ⟨_, rfl⟩
  have hstatus : tandemLast.step.result.map (·.toOption.map (·.status)) =
      some (some .completed) := by decide +kernel
  have houtput : tandemLast.step.result.map (·.toOption.bind fun report =>
      report.outputs.bind (·.get? "b")) = some (some "after sun") := by decide +kernel
  rw [hreport] at hstatus houtput
  obtain ⟨further, final, report', hfurther, -, -, hhead, hfinal, htimeless, -⟩ :=
    one_worker_pipeline rfl rfl tandem_determined (fun _ _ task _ => task.terminates) h h'
      huntouched huntouched' hreport (Option.some.inj (Option.some.inj hstatus)) id
  exact ⟨report, further, final, report', hreport, Option.some.inj houtput, rfl, hfurther, hhead,
    hfinal, htimeless⟩

end Run

end Coordination
