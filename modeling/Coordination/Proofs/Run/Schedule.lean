import Coordination.Proofs.Run.Agreement
import Coordination.Proofs.Template

/-!
# The result does not depend on the schedule

Sub-tasks that run side by side and publish their outputs may be given slots and
stretches in any order, and any number of them may run at once. What they find
of each other's outputs when they start depends on that. But if none of them
reads these, in its instruction or in its session, all runs come to the same
result (`Run.schedule_invariant`).

* `Definition.Fillable`: an instruction that does not depend on the outputs of others;
* `Run.Serving.values_agree`: what a member may find that depends on the schedule.
-/

namespace Coordination

variable {σ : Type}

namespace Workflow

/-- The output keys of all sub-tasks but that of a place. -/
def otherKeys (workflow : Workflow σ) (index : Nat) : List String :=
  (workflow.members.eraseIdx index).filterMap (·.1.outputKey)

theorem mem_otherKeys {workflow : Workflow σ} {index i : Nat} {definition : Definition} {task : σ}
    (hget : workflow.members[i]? = some (definition, task)) (hne : i ≠ index) {key : String}
    (hkey : definition.outputKey = some key) : key ∈ workflow.otherKeys index := by
  refine List.mem_filterMap.2 ⟨(definition, task), ?_, hkey⟩
  rw [List.mem_eraseIdx_iff_getElem?]
  exact ⟨i, hne, hget⟩

end Workflow

/-- A template names only keys that the values hold, and none of these. -/
def Definition.Fillable (definition : Definition) (values : KeyMap String) (keys : List String) :
    Prop :=
  ∀ template, definition.instruction = some template →
    ∀ name ∈ Template.placeholders template, values.contains name ∧ name ∉ keys

/-- Such an instruction is the same from all values that agree but for these keys. -/
theorem Definition.Fillable.expand_eq {definition : Definition} {initial values : KeyMap String}
    {keys : List String} (h : definition.Fillable initial keys)
    (hagree : ∀ key, key ∉ keys → values.get? key = initial.get? key) :
    Member.expand definition values = Member.expand definition initial := by
  unfold Member.expand
  cases htemplate : definition.instruction with
  | none => rfl
  | some template =>
    obtain ⟨text, hinitial, hvalues⟩ := Template.substitute_congr fun name hname => by
      obtain ⟨hpresent, hnot⟩ := h template htemplate name hname
      exact ⟨hpresent, (hagree name hnot).symm⟩
    simp only [hinitial, hvalues]

/-- What two runs report that come to the same result: the same in all but the
times of executions and their order. -/
structure Report.Alike (a b : Report) : Prop where
  status : a.status = b.status
  succeeded : a.succeeded = b.succeeded
  failed : a.failed = b.failed
  error : a.error = b.error
  events : a.events = b.events
  record : ∃ record record', a.record = some record ∧ b.record = some record' ∧
    record.outputs = record'.outputs ∧ ∀ index : Nat,
      (record.executions.find? (·.index = index)).map (·.unordered) =
        (record'.executions.find? (·.index = index)).map (·.unordered)

namespace Run

variable {behave : σ → Poll σ} {workflow : Workflow σ} {context : Context}
  {initial : KeyMap String}

/-- A member that starts finds the values of the run's session, but for the
outputs of others. -/
theorem Serving.values_agree {maxValueBytes : Nat} {visit : Visit (Traced σ)}
    (h : Serving behave workflow maxValueBytes context visit.floor visit.members)
    (hkeyed : workflow.isKeyed = true) (hstarts : visit.starts) {key : String}
    (hkey : key ∉ workflow.otherKeys visit.index) :
    (visit.floor.values (workflow.terms maxValueBytes context)).get? key =
      visit.floor.state.get? key := by
  obtain ⟨record, hrecord, haccord⟩ := (h.underway hkeyed).accord
  have hvalues : visit.floor.values (workflow.terms maxValueBytes context) =
      visit.floor.state.overlay record.outputs := Floor.values_of_get? hkeyed hrecord
  have hnone : record.outputs.get? key = none := by
    rw [Option.eq_none_iff_forall_ne_some]
    intro value hvalue
    obtain ⟨i, definition, settlement, hsettled, -, hown, -⟩ := (haccord.outputs key value).1 hvalue
    obtain ⟨member, hget, rfl, hphase⟩ := settledAt_iff.1 hsettled
    obtain ⟨task, htask, -⟩ := h.carries.task i member hget
    refine hkey (workflow.mem_otherKeys htask ?_ hown)
    -- Whoever starts has not settled.
    rintro rfl
    obtain rfl := Option.some.inj (visit.getElem?_members.symm.trans hget)
    have hstarted := Member.hasStarted_of_settled (by rw [hphase]; rfl)
    simp [Visit.starts, hstarted] at hstarts
  rw [hvalues, KeyMap.get?_overlay, hnone, Option.none_or]

/-- What there is to know of the end of a run with output keys, if nobody else
writes into its session. -/
structure FannedOut (behave : σ → Poll σ) (workflow : Workflow σ) (context : Context)
    (initial : KeyMap String) (floor : Floor) (members : List (Member (Traced σ)))
    (report : Report) (state : KeyMap String) : Prop where
  serving : Serving behave workflow workflow.plan.maxValueBytes context floor members
  standing : Standing behave True (workflow.terms workflow.plan.maxValueBytes context) workflow
    (fun index values => ∀ key, key ∉ workflow.otherKeys index →
      values.get? key = initial.get? key) members
  initial : floor.state = initial
  closing : Closing workflow.plan.order context.session.id floor members report state

theorem History.fannedOut {workers : Nat} {last : Stretch (Traced σ)}
    {past : List (Stretch (Traced σ))} {result : Except RunError Report}
    (horder : workflow.plan.order = .parallel workers) (hcheck : workflow.check = .ok ())
    (hkeyed : workflow.isKeyed = true) (hown : workflow.plan.sharesLedger = false)
    (h : History (Traced.poll behave) context (ofWorkflow workflow.traced) (last :: past))
    (huntouched : Untouched initial (last :: past)) (hresult : last.step.result = some result) :
    ∃ floor report, result = .ok report ∧ FannedOut behave workflow context initial floor
      last.step.run.members report last.step.state := by
  have hguarded := guarded_of_own behave hown context.session.id (last :: past)
  have hvisit : ∀ visit ∈ log (Traced.poll behave) context (ofWorkflow workflow.traced)
      (last :: past),
      Serving behave workflow workflow.plan.maxValueBytes context visit.floor visit.members →
      visit.floor.state = initial → visit.after.1.state = initial := by
    intro visit hmem hserving hstate
    obtain ⟨stretch, -, hof⟩ := h.of_mem_log hmem
    exact ((hserving.underway hkeyed).toApart.visited hof).2.state.trans hstate
  obtain ⟨hvisits, hstretches⟩ := h.standing (P := fun _ floor _ => floor.state = initial)
    (S := fun state => state = initial) (R := fun before after => after = before) True hcheck
    (fun _ => hguarded) huntouched.first huntouched.between
    (fun _ _ _ _ hshared => by simp [hkeyed] at hshared)
    (fun state world floor hstate hopened => by
      rw [(apart_open behave hkeyed hopened).2]
      exact hstate)
    (fun visit hmem hserving _ => hvisit visit hmem hserving)
    (fun _ _ _ _ _ hstate hsame => hsame.trans hstate)
  obtain ⟨floor, report, ⟨hserving, hstanding, hinitial⟩, hreport, hclosing⟩ :=
    (hstretches last List.mem_cons_self).closing (fun _ _ hP => hP.1)
      (fun _ _ _ hsequential => by simp [horder] at hsequential) hresult
      (.inl ⟨hcheck, fun _ => hown⟩)
  refine ⟨floor, report, hreport, hserving, ?_, hinitial, hclosing⟩
  intro index member hget
  obtain ⟨task, htask, hstands⟩ := hstanding index member hget
  refine ⟨task, htask, hstands.imp fun _ => ?_⟩
  rintro _ ⟨visit, hmem, rfl, hstarts, rfl⟩ key hkey
  obtain ⟨hserving, -, hstate⟩ := hvisits visit hmem
  rw [hserving.values_agree hkeyed hstarts hkey, hstate]

section Alike

variable {order order' : Order} {floor floor' : Floor} {members members' : List (Member (Traced σ))}
  {report report' : Report} {state state' : KeyMap String}

/-- The members of two runs that are over stand alike, if their tasks are steady. -/
theorem FannedOut.standing_eq {workers workers' : Nat}
    (h : FannedOut behave (workflow.inOrder (.parallel workers)) context initial floor members
      report state)
    (h' : FannedOut behave (workflow.inOrder (.parallel workers')) context initial floor' members'
      report' state')
    (hkeyed : workflow.isKeyed = true)
    (htemplates : ∀ (index : Nat) (definition : Definition) (task : σ),
      workflow.members[index]? = some (definition, task) →
      definition.Fillable initial (workflow.otherKeys index))
    (hsteady : ∀ (index : Nat) (definition : Definition) (task : σ),
      workflow.members[index]? = some (definition, task) →
      Steady behave (workflow.otherKeys index) task) :
    members.map Member.standing = members'.map Member.standing := by
  have hall : ∀ member ∈ members, member.phase.settlement?.isSome := h.closing.isOver.settled
  have hall' : ∀ member ∈ members', member.phase.settlement?.isSome := h'.closing.isOver.settled
  refine Run.standing_eq h.serving.carries h'.serving.carries ?_
  intro index member member' hget hget' hdefinition
  obtain ⟨task, htask, hstands⟩ := h.standing index member hget
  obtain ⟨task', htask', hstands'⟩ := h'.standing index member' hget'
  obtain rfl : task = task' := by
    rw [show (workflow.inOrder (.parallel workers')).members = workflow.members from rfl,
      hdefinition] at htask'
    simpa using htask.symm.trans htask'
  obtain ⟨settlement, hsettled⟩ :=
    Option.isSome_iff_exists.1 (hall member (List.mem_of_getElem? hget))
  obtain ⟨settlement', hsettled'⟩ :=
    Option.isSome_iff_exists.1 (hall' member' (List.mem_of_getElem? hget'))
  obtain ⟨values, hvalues, hsettles⟩ := hstands.settles hsettled
  obtain ⟨values', hvalues', hsettles'⟩ := hstands'.settles hsettled'
  have hfillable := htemplates index member.definition task htask
  rw [hdefinition] at hsettles'
  rw [hsettled, hsettled', hsettles.inOrder.congr hsettles'.inOrder]
  · rw [hfillable.expand_eq hvalues, hfillable.expand_eq hvalues']
  · intro instruction _
    refine hsteady index member.definition task htask _ _ ⟨values', ?_, fun key hkey => ?_⟩
    · simp [Terms.session, Workflow.terms, hkeyed, Context.child, Context.withInstruction,
        Context.withState]
    · rw [hvalues' key hkey, ← hvalues key hkey]
      simp [Terms.session, Workflow.terms, hkeyed, Context.child, Context.withInstruction,
        Context.state]

/-- If they stand alike, the runs come to the same result. -/
theorem FannedOut.alike {workers workers' : Nat}
    (h : FannedOut behave (workflow.inOrder (.parallel workers)) context initial floor members
      report state)
    (h' : FannedOut behave (workflow.inOrder (.parallel workers')) context initial floor' members'
      report' state')
    (hkeyed : workflow.isKeyed = true)
    (hsame : members.map Member.standing = members'.map Member.standing) :
    report.Alike report' ∧ state = state' := by
  have hsettlements := settlements_congr hsame
  have hsucceeded : succeeded members = succeeded members' := by
    rw [succeeded, hsettlements, succeeded]
  have hfailed : failed members = failed members' := by
    rw [failed, hsettlements, hsucceeded, failed]
  have hverdict : verdict (workflow.inOrder (.parallel workers)).plan.order members =
      verdict (workflow.inOrder (.parallel workers')).plan.order members' := by
    simp only [Workflow.inOrder, verdict, hfailed, hsucceeded]
  obtain ⟨record, hrecord, haccord⟩ := (h.serving.underway hkeyed).accord
  obtain ⟨record', hrecord', haccord'⟩ := (h'.serving.underway hkeyed).accord
  have htended := h.serving.tended hkeyed record hrecord
  have htended' := h'.serving.tended hkeyed record' hrecord'
  have houtputs := haccord.outputs_eq haccord' hsame
  have hexecutions := haccord.find?_unordered haccord' htended htended' hsame rfl
  obtain ⟨now, hreported⟩ := h.closing.record
  obtain ⟨now', hreported'⟩ := h'.closing.record
  rw [h.serving.keyed, Workflow.isKeyed_inOrder, hkeyed, hrecord] at hreported
  rw [h'.serving.keyed, Workflow.isKeyed_inOrder, hkeyed, hrecord'] at hreported'
  refine ⟨⟨?_, ?_, ?_, ?_, ?_, _, _, hreported, hreported', houtputs, hexecutions⟩, ?_⟩
  · rw [h.closing.status, h'.closing.status, hverdict]
  · rw [h.closing.succeeded, h'.closing.succeeded, hsucceeded]
  · rw [h.closing.failed, h'.closing.failed, hfailed]
  · rw [h.closing.error, h'.closing.error, hverdict]
  · rw [h.closing.events, h'.closing.events, events, hsettlements, events]
  · rw [h.closing.state, h'.closing.state, h.initial, h'.initial, Report.outputs, Report.outputs,
      hreported, hreported']
    simp only [if_true, Option.map_some, Option.getD_some, Record.settle, hverdict, houtputs]

end Alike

/-- Sub-tasks that run side by side come to the same result in any schedule.
Take two runs of one workflow with output keys and a ledger of its own, in the
same context and from the same values, that let any numbers of sub-tasks run at
once and let them go on in any order. No instruction and no task depends on what
the other sub-tasks publish. Then both runs end with a report, if they end, and
report the same status, numbers, error and events, the same outputs, and the same
of every sub-task, but for times and the order of the successes. They leave the
same values in the session. -/
theorem schedule_invariant {workers workers' : Nat} {last last' : Stretch σ}
    {past past' : List (Stretch σ)} {result result' : Except RunError Report}
    (hcheck : (workflow.inOrder (.parallel workers)).check = .ok ())
    (hcheck' : (workflow.inOrder (.parallel workers')).check = .ok ())
    (hkeyed : workflow.isKeyed = true) (hown : workflow.plan.sharesLedger = false)
    (htemplates : ∀ (index : Nat) (definition : Definition) (task : σ),
      workflow.members[index]? = some (definition, task) →
      definition.Fillable initial (workflow.otherKeys index))
    (hsteady : ∀ (index : Nat) (definition : Definition) (task : σ),
      workflow.members[index]? = some (definition, task) →
      Steady behave (workflow.otherKeys index) task)
    (h : History behave context (ofWorkflow (workflow.inOrder (.parallel workers))) (last :: past))
    (h' : History behave context (ofWorkflow (workflow.inOrder (.parallel workers')))
      (last' :: past'))
    (huntouched : Untouched initial (last :: past))
    (huntouched' : Untouched initial (last' :: past'))
    (hresult : last.step.result = some result) (hresult' : last'.step.result = some result') :
    ∃ report report', result = .ok report ∧ result' = .ok report' ∧ report.Alike report' ∧
      last.step.state = last'.step.state := by
  obtain ⟨tlast, tpast, htraced, rfl, rfl⟩ := h.exists_traced_cons
  obtain ⟨tlast', tpast', htraced', rfl, rfl⟩ := h'.exists_traced_cons
  obtain ⟨floor, report, hreport, hend⟩ :=
    htraced.fannedOut rfl hcheck hkeyed hown huntouched.of_map hresult
  obtain ⟨floor', report', hreport', hend'⟩ :=
    htraced'.fannedOut rfl hcheck' hkeyed hown huntouched'.of_map hresult'
  have hsame := hend.standing_eq hend' hkeyed htemplates hsteady
  exact ⟨report, report', hreport, hreport', hend.alike hend' hkeyed hsame⟩

/-- Two sub-tasks. The first yields its instruction; both wait before they end. -/
def survey : Workflow Leaf where
  plan := ⟨"survey", "default", .sequential, 100, false⟩
  members :=
    [(⟨"one", none, some "a", some "on \x7btopic\x7d"⟩, .ofBody (.pause 5 (.look fun context =>
        .emit (.text "one" (context.instruction.getD "")) .finish))),
      (⟨"two", none, some "b", none⟩,
        .ofBody (.pause 5 (.emit (.text "two" "ice") .finish)))]

/-- The session of a survey. -/
def surveyContext : Context := ⟨⟨"s", "u", "a", .empty⟩, 0, none⟩

/-- The values that a survey finds. -/
def surveyState : KeyMap String := KeyMap.empty.insert "topic" "fog"

/-- A stretch of a survey at a time, in which the sub-task of this place alone goes on. -/
def surveyStretch (run : Run Leaf) (world : World) (clock index : Nat) : Stretch Leaf :=
  let turn : Turn := ⟨fun place _ => place = [index], fun _ => true⟩
  ⟨turn, surveyState, { world with clock }, run.give Leaf.poll turn
    (surveyContext.withState surveyState) { world with clock }⟩

/-- A survey by so many workers, in which the sub-tasks go on in this order. -/
def surveyHistory (workers first second : Nat) : List (Stretch Leaf) :=
  let run := ofWorkflow (survey.inOrder (.parallel workers))
  let opening := surveyStretch run (.start 100) 0 first
  let middle := surveyStretch opening.step.run opening.step.world 5 first
  [surveyStretch middle.step.run middle.step.world 10 second, middle, opening]

/-- Neither sub-task looks at what the other publishes. -/
theorem survey_heeds (index : Nat) (definition : Definition) (task : Leaf)
    (hget : survey.members[index]? = some (definition, task)) :
    definition.Fillable surveyState (survey.otherKeys index) ∧
      Steady Leaf.poll (survey.otherKeys index) task := by
  match index with
  | 0 =>
    cases hget
    refine ⟨?_, Body.Ignores.steady ⟨?_, fun _ => trivial⟩⟩
    · rintro _ ⟨⟩
      decide +kernel
    · rintro a b ⟨state, rfl, -⟩
      rfl
  | 1 =>
    cases hget
    refine ⟨?_, Body.Ignores.steady trivial⟩
    rintro _ ⟨⟩
  | _ + 2 => cases hget

theorem schedule_invariant_survey : ∃ report report' : Report,
    (surveyHistory 1 0 1).head?.bind (·.step.result) = some (.ok report) ∧
      (surveyHistory 2 1 0).head?.bind (·.step.result) = some (.ok report') ∧
      report.Alike report' ∧
      report.record.map (·.executions.map (·.index)) = some [0, 1] ∧
      report'.record.map (·.executions.map (·.index)) = some [1, 0] := by
  have h : History Leaf.poll surveyContext (ofWorkflow (survey.inOrder (.parallel 1)))
      (surveyHistory 1 0 1) := .next (.next (.first _ _ _) rfl _ _ _) rfl _ _ _
  have h' : History Leaf.poll surveyContext (ofWorkflow (survey.inOrder (.parallel 2)))
      (surveyHistory 2 1 0) := .next (.next (.first _ _ _) rfl _ _ _) rfl _ _ _
  have huntouched : Untouched surveyState (surveyHistory 1 0 1) := by
    refine ⟨?_, ?_⟩
    · rintro _ ⟨⟩
      rfl
    · exact List.isChain_cons_cons.2 ⟨rfl, List.isChain_pair.2 rfl⟩
  have huntouched' : Untouched surveyState (surveyHistory 2 1 0) := by
    refine ⟨?_, ?_⟩
    · rintro _ ⟨⟩
      rfl
    · exact List.isChain_cons_cons.2 ⟨rfl, List.isChain_pair.2 rfl⟩
  obtain ⟨report, report', hreport, hreport', halike, -⟩ := schedule_invariant rfl rfl rfl rfl
    (fun index definition task hget => (survey_heeds index definition task hget).1)
    (fun index definition task hget => (survey_heeds index definition task hget).2)
    h h' huntouched huntouched' rfl rfl
  have horders : ((surveyHistory 1 0 1).head?.bind (·.step.result)).map (·.toOption.bind
      fun report => report.record.map (·.executions.map (·.index))) = some (some [0, 1]) := by
    decide +kernel
  have horders' : ((surveyHistory 2 1 0).head?.bind (·.step.result)).map (·.toOption.bind
      fun report => report.record.map (·.executions.map (·.index))) = some (some [1, 0]) := by
    decide +kernel
  have hfirst : (surveyHistory 1 0 1).head?.bind (·.step.result) = some (.ok report) :=
    congrArg some hreport
  have hsecond : (surveyHistory 2 1 0).head?.bind (·.step.result) = some (.ok report') :=
    congrArg some hreport'
  rw [hfirst] at horders
  rw [hsecond] at horders'
  exact ⟨report, report', hfirst, hsecond, halike, Option.some.inj horders,
    Option.some.inj horders'⟩

end Run

end Coordination
