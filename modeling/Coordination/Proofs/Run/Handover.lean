import Coordination.Proofs.Run.Agreement
import Coordination.Proofs.Run.OneSession
import Coordination.Proofs.Run.Writing

/-!
# What a workflow hands over to the stages behind it

A stage of a run one after another without output keys may be a workflow that publishes
outputs. When it has completed, the next stage starts from the values that it started from
itself, overlaid with its outputs and nothing else, and every later stage finds an output
there unless a stage between the two has put another value under the key. When it has
failed, the session is as it was before it, and the run is over
(`Run.outputs_handed_over`).

* `Course.delivers`: what a workflow within a tree reports, and leaves in its session;
* `Run.History.get?_kept`: a value stays from stage to stage unless one overwrites it.
-/

namespace Coordination

/-! ## Workflows within a tree -/

/-- Whether a workflow within a tree that was begun in this context has ended with this
report: what it was given are the stretches of a history of its run. -/
def Workflow.Ended (workflow : Workflow (Task Body)) (start : Context) (traced : Traced Process)
    (report : Report) : Prop :=
  ∃ last past, Run.History Process.poll start (.ofWorkflow workflow.processes) (last :: past) ∧
    traced.past.reverse = (last :: past).map (·.exchange start) ∧
      last.step.result = some (.ok report)

/-- What a workflow with output keys has come to that was begun in this context. -/
structure Workflow.Delivers (workflow : Workflow (Task Body)) (start : Context)
    (traced : Traced Process) (last : Exchange Process) (report : Report)
    (outputs : KeyMap String) : Prop where
  ended : workflow.Ended start traced report
  published : report.outputs = some outputs
  error : last.advance.outcome.error? = report.failure?
  state : report.status = .completed ∧ last.advance.state = start.state.overlay outputs ∨
    report.status = .failed ∧ last.advance.state = start.state

theorem Run.verdict_cases {σ : Type} (order : Order) (members : List (Member σ)) :
    verdict order members = .completed ∨ ∃ message, verdict order members = .failed message := by
  unfold verdict
  split
  · split
    · exact .inr ⟨_, rfl⟩
    · exact .inl rfl
  · split
    · exact .inr ⟨_, rfl⟩
    · exact .inl rfl

/-- A workflow with output keys and a ledger of its own comes to its end with a report. It
leaves its outputs over the values that it found if the report says that it has completed,
and else what it found. -/
theorem Course.delivers {workflow : Workflow (Task Body)} (hcheck : workflow.check = .ok ())
    (hkeyed : workflow.isKeyed = true) (hown : workflow.plan.sharesLedger = false)
    {start : Context} {traced : Traced Process} {last : Exchange Process}
    (h : Course Process.poll True (.workflow (.ofWorkflow workflow.processes)) start traced last)
    (hended : last.advance.outcome ≠ .pending) :
    ∃ report outputs, workflow.Delivers start traced last report outputs := by
  obtain ⟨stretch, past, hcarried⟩ := h.run
  obtain rfl := hcarried.last
  obtain ⟨latest, earlier, hnotes, rfl, rfl⟩ := hcarried.history.exists_traced_cons
  obtain ⟨result, hresult⟩ : ∃ result, latest.step.result = some result :=
    Process.result_of_ended hended
  have hkeyed' := Workflow.isKeyed_processes.trans hkeyed
  obtain ⟨floor, report, rfl, hserving, -, -, hstate, hclosing⟩ :=
    hnotes.closing (Workflow.check_processes.trans hcheck) (fun _ => hown) hresult
  -- Before its end it has published nothing.
  have huntouched : Run.Untouched start.state (latest :: earlier) :=
    .of_map (hcarried.untouched trivial)
  have hfound : floor.state = start.state := by
    rw [hstate hkeyed']
    refine huntouched.state_of_mem (fun known hknown => ?_) latest List.mem_cons_self
    exact hnotes.state_of_none hkeyed' known (List.mem_cons_of_mem _ hknown)
      (hnotes.result_of_mem known hknown)
  obtain ⟨record, hrecord, -⟩ := (hserving.underway hkeyed').accord
  obtain ⟨now, hreported⟩ := hclosing.record
  rw [hserving.keyed, hkeyed', if_pos rfl, hrecord, Option.map_some] at hreported
  have houtputs : report.outputs = some record.outputs := by
    rw [Report.outputs, hreported]
    rfl
  have hleft := hclosing.state
  have hstatus := hclosing.status
  rw [hfound, houtputs] at hleft
  refine ⟨report, record.outputs, ⟨_, _, hcarried.history, hcarried.exchanges, hresult⟩, houtputs,
    (Process.ofStep_of_ok hresult).2, ?_⟩
  rw [Stretch.exchange, Process.state_ofStep]
  rcases Run.verdict_cases workflow.processes.plan.order latest.step.run.members with
    hverdict | ⟨message, hverdict⟩
  · rw [hverdict, if_pos rfl] at hleft
    rw [hverdict] at hstatus
    exact .inl ⟨hstatus, hleft⟩
  · rw [hverdict, if_neg (by simp)] at hleft
    rw [hverdict] at hstatus
    exact .inr ⟨hstatus, hleft⟩

theorem Workflow.getElem?_processes {workflow : Workflow (Task Body)} {index : Nat}
    {definition : Definition} {process : Process}
    (h : workflow.processes.members[index]? = some (definition, process)) :
    ∃ task, workflow.members[index]? = some (definition, task) ∧ process = .ofTask task := by
  rw [processes, Process.ofMembers_eq_map, List.getElem?_map, Option.map_eq_some_iff] at h
  obtain ⟨⟨_, task⟩, hget, ⟨⟩⟩ := h
  exact ⟨task, hget, rfl⟩

/-! ## Values from stage to stage -/

namespace Run

/-- Whether a stage between two others has put another value under a key: its task may write
there, and the stage behind it has found another value than it has itself. -/
def Overwritten (workflow : Workflow (Task Body)) (context : Context)
    (history : List (Stretch (Traced Process))) (key : String) (first last : Nat) : Prop :=
  ∃ index member found left, first < index ∧ index < last ∧
    workflow.members[index]? = some member ∧ member.2.Writes key ∧
    StartedFrom Process.poll workflow.processes context history index found ∧
    StartedFrom Process.poll workflow.processes context history (index + 1) left ∧
    left.get? key ≠ found.get? key

theorem Overwritten.mono {workflow : Workflow (Task Body)} {context : Context}
    {history : List (Stretch (Traced Process))} {key : String} {first last last' : Nat}
    (h : Overwritten workflow context history key first last) (hle : last ≤ last') :
    Overwritten workflow context history key first last' := by
  obtain ⟨index, member, found, left, hfirst, hlast, hrest⟩ := h
  exact ⟨index, member, found, left, hfirst, by omega, hrest⟩

/-- How the outputs of the stage of a place become visible behind it, if it has left these
values. -/
structure VisibleBehind (workflow : Workflow (Task Body)) (context : Context)
    (last : Stretch (Traced Process)) (past : List (Stretch (Traced Process))) (index : Nat)
    (outputs values : KeyMap String) : Prop where
  next : index + 1 < workflow.members.length →
    StartedFrom Process.poll workflow.processes context (last :: past) (index + 1) values
  final : index + 1 = workflow.members.length → last.step.state = values
  /-- A later stage finds an output unless it was overwritten, and its template shows it. -/
  later : ∀ place found key value, index < place →
    StartedFrom Process.poll workflow.processes context (last :: past) place found →
    outputs.get? key = some value →
    ¬ Overwritten workflow context (last :: past) key index place →
      found.get? key = some value ∧ ∀ member template, workflow.members[place]? = some member →
        member.1.instruction = some template → Template.Shows template found key value

/-- What a stage that is a workflow hands over, which has settled and has started from these
values. -/
inductive HandsOver (workflow : Workflow (Task Body)) (context : Context)
    (last : Stretch (Traced Process)) (past : List (Stretch (Traced Process))) (index : Nat)
    (inner : Workflow (Task Body)) (definition : Definition) (traced : Traced Process)
    (values : KeyMap String) : Prop
  /-- Its template misses a key. -/
  | unfilled (hmisses : definition.Misses values) (hpast : traced.past = [])
      (hstopped : StoppedBy Process.poll workflow.processes context last past index values)
  | completed (instruction : Option String) (report : Report) (outputs : KeyMap String)
      (hexpand : Member.expand definition values = .ok instruction)
      (hended : inner.Ended ((context.withState values).withInstruction instruction) traced report)
      (hstatus : report.status = .completed) (houtputs : report.outputs = some outputs)
      (hvisible : VisibleBehind workflow context last past index outputs (values.overlay outputs))
  | failed (instruction : Option String) (report : Report)
      (hexpand : Member.expand definition values = .ok instruction)
      (hended : inner.Ended ((context.withState values).withInstruction instruction) traced report)
      (hstatus : report.status = .failed)
      (hstopped : StoppedBy Process.poll workflow.processes context last past index values)

section Histories

variable {workflow : Workflow (Task Body)} {context : Context} {initial : KeyMap String}
  {last : Stretch (Traced Process)} {past : List (Stretch (Traced Process))}

section Stages

variable {index : Nat} {member : Member (Traced Process)} {settlement : Settlement}
  (horder : workflow.processes.plan.order = .sequential)
  (hcheck : workflow.processes.check = .ok ()) (hshared : workflow.processes.isKeyed = false)
  (h : History (Traced.poll Process.poll) context (ofWorkflow workflow.processes.traced)
    (last :: past))
  (huntouched : Untouched initial (last :: past))
include horder hcheck hshared h huntouched

/-- A stage leaves a value as it is under which its task may not write. -/
theorem History.get?_succ {key : String} {task : Task Body}
    (hget : last.step.run.members[index]? = some member)
    (hsettled : member.phase.settlement? = some settlement)
    (htask : workflow.members[index]? = some (member.definition, task))
    (hallowed : task.check = .ok ()) (hwrites : ¬ task.Writes key) :
    (valuesBefore initial last (index + 1)).get? key =
      (valuesBefore initial last index).get? key := by
  have hone := h.oneSession horder hcheck hshared huntouched
  obtain ⟨process, hprocess, hsettles⟩ := hone.settles hget hsettled
  obtain ⟨task', htask', rfl⟩ := Workflow.getElem?_processes hprocess
  obtain rfl := (Prod.mk.inj (Option.some.inj (htask.symm.trans htask'))).2
  rw [valuesBefore_succ hget]
  generalize member.process = traced at hsettles
  cases hsettles with
  | unfilled => rfl
  | ended instruction _ latest _ hcourse _ =>
    rw [Traced.leaves_of_getLast? hcourse.getLast?,
      (Task.retains task hallowed hwrites).leaves hcourse, Terms.session_shared hshared]
    rfl

/-- A value stays from stage to stage unless one overwrites it. -/
theorem History.get?_kept (hmembers : Task.checkMembers workflow.members = .ok ()) {key : String}
    {first place : Nat} (hlt : first + 1 ≤ place)
    (hreached : reached Phase.hasStarted last.step.run.members place)
    (hkept : ¬ Overwritten workflow context (last :: past) key first place) :
    (valuesBefore initial last place).get? key =
      (valuesBefore initial last (first + 1)).get? key := by
  have hone := h.oneSession horder hcheck hshared huntouched
  have hstarted := h.startedFrom_iff horder hcheck hshared huntouched
  induction place, hlt using Nat.le_induction with
  | base => rfl
  | succ place hle ih =>
    obtain ⟨later, hlater, hbegun⟩ := (Option.any_eq_true ..).1 hreached
    obtain ⟨member, hget⟩ : ∃ member, last.step.run.members[place]? = some member := by
      obtain ⟨hlt, -⟩ := List.getElem?_eq_some_iff.1 hlater
      exact ⟨_, List.getElem?_eq_getElem (by omega)⟩
    -- The stage before one that has started has settled.
    obtain ⟨settlement, hsettled, -⟩ := (Option.any_eq_true ..).1 <|
      hone.inTurn.passes_before hlater hbegun member <|
        List.mem_iff_getElem?.2 ⟨place, by rw [List.getElem?_take_of_lt (by omega), hget]⟩
    have hreached' : reached Phase.hasStarted last.step.run.members place = true := by
      rw [reached, hget, Option.any_some]
      exact Member.hasStarted_of_settled (by rw [hsettled]; rfl)
    rw [← ih hreached' fun hover => hkept (hover.mono (by omega))]
    obtain ⟨process, hprocess, -⟩ := hone.settles hget hsettled
    obtain ⟨task, htask, -⟩ := Workflow.getElem?_processes hprocess
    by_cases hwrites : task.Writes key
    · by_contra hdiffers
      exact hkept ⟨place, _, _, _, hle, Nat.lt_succ_self place, htask, hwrites,
        (hstarted place _).2 ⟨hreached', rfl⟩, (hstarted (place + 1) _).2 ⟨hreached, rfl⟩,
        hdiffers⟩
    · exact h.get?_succ horder hcheck hshared huntouched hget hsettled htask
        (Task.check_of_mem hmembers (List.mem_of_getElem? htask)) hwrites

/-- What a stage that has succeeded has left shows in the stages behind it. -/
theorem History.visibleBehind (hmembers : Task.checkMembers workflow.members = .ok ())
    (outputs : KeyMap String) (hget : last.step.run.members[index]? = some member)
    (hsettled : member.phase.settlement? = some settlement)
    (hsuccess : settlement.isSuccess = true)
    (hleaves : member.process.leaves (valuesBefore initial last index) =
      (valuesBefore initial last index).overlay outputs) :
    VisibleBehind workflow context last past index outputs
      ((valuesBefore initial last index).overlay outputs) := by
  have hlength : workflow.processes.members.length = workflow.members.length := by
    rw [Workflow.processes, Process.ofMembers_eq_map, List.length_map]
  refine ⟨fun hlt => ?_, fun hlast => ?_, ?_⟩
  · rw [← hleaves]
    exact h.next_startedFrom horder hcheck hshared huntouched hget hsettled hsuccess
      (hlength.symm ▸ hlt)
  · have hall : last.step.run.members.length = workflow.members.length :=
      (h.length_latest.trans (List.length_map _)).trans hlength
    rw [← hleaves, ← valuesBefore_succ hget,
      (h.oneSession horder hcheck hshared huntouched).state, valuesBefore,
      List.take_of_length_le (by omega)]
  · intro place found key value hlt hstarted hvalue hkept
    obtain ⟨hreached, rfl⟩ :=
      (h.startedFrom_iff horder hcheck hshared huntouched place found).1 hstarted
    have hfound : (valuesBefore initial last place).get? key = some value := by
      rw [h.get?_kept horder hcheck hshared huntouched hmembers hlt hreached hkept,
        valuesBefore_succ hget, hleaves, KeyMap.get?_overlay, hvalue, Option.some_or]
    exact ⟨hfound, fun _ template _ _ => Template.shows_of_get? template hfound⟩

end Stages

/-- The outputs of a workflow are handed over to every later stage, or it stops the run.
Take a run one after another without output keys, into whose session nobody else writes,
over any tree of tasks that may be run. Let one of its stages be a workflow that has output
keys and a ledger of its own, side by side or one after another, and let it have settled.
It has started from certain values of the session. If its report says that it has
completed, the next stage starts from these, overlaid with its outputs and nothing else,
and every later stage finds an output unless a stage in between has overwritten it. If its
report says that it has failed, or if it has not been run for its template, these values
are still in the session, no later stage has started, and the run has failed. -/
theorem outputs_handed_over (horder : workflow.plan.order = .sequential)
    (hcheck : (Task.workflow workflow).check = .ok ()) (hshared : workflow.isKeyed = false)
    (h : History (Traced.poll Process.poll) context (ofWorkflow workflow.processes.traced)
      (last :: past))
    (huntouched : Untouched initial (last :: past)) {index : Nat}
    {member : Member (Traced Process)} {inner : Workflow (Task Body)}
    (hget : last.step.run.members[index]? = some member)
    (hsettled : member.phase.settlement?.isSome)
    (hinner : workflow.members[index]? = some (member.definition, .workflow inner))
    (hkeyed : inner.isKeyed = true) (hown : inner.plan.sharesLedger = false) :
    ∃ values, StartedFrom Process.poll workflow.processes context (last :: past) index values ∧
      HandsOver workflow context last past index inner member.definition member.process values := by
  obtain ⟨hmembers, hworkflow⟩ := Task.check_workflow hcheck
  obtain ⟨-, hallowed⟩ :=
    Task.check_workflow (Task.check_of_mem hmembers (List.mem_of_getElem? hinner))
  have horder : workflow.processes.plan.order = .sequential := horder
  have hworkflow := Workflow.check_processes.trans hworkflow
  have hshared := Workflow.isKeyed_processes.trans hshared
  have hone := h.oneSession horder hworkflow hshared huntouched
  obtain ⟨settlement, hsettled⟩ := Option.isSome_iff_exists.1 hsettled
  have hstarted : StartedFrom Process.poll workflow.processes context (last :: past) index
      (valuesBefore initial last index) := by
    rw [h.startedFrom_iff horder hworkflow hshared huntouched, reached, hget, Option.any_some]
    exact ⟨Member.hasStarted_of_settled (by rw [hsettled]; rfl), rfl⟩
  refine ⟨_, hstarted, ?_⟩
  have hstopped := h.stoppedBy horder hworkflow hshared huntouched hget hsettled
  have hvisible := fun outputs =>
    h.visibleBehind horder hworkflow hshared huntouched hmembers outputs hget hsettled
  have hnokey := hone.unkeyed member (List.mem_of_getElem? hget)
  obtain ⟨process, hprocess, hsettles⟩ := hone.settles hget hsettled
  obtain ⟨task, htask, rfl⟩ := Workflow.getElem?_processes hprocess
  obtain rfl := (Prod.mk.inj (Option.some.inj (hinner.symm.trans htask))).2
  generalize member.process = traced at *
  cases hsettles with
  | unfilled error hexpand =>
    refine .unfilled (Member.expand_eq_error_iff.1 ⟨error, hexpand⟩) rfl (hstopped ?_ rfl)
    exact Settlement.isSuccess_of _ _ _ (some error)
  | ended instruction _ latest hexpand hcourse hended =>
    have hleaves := traced.leaves_of_getLast? hcourse.getLast? (valuesBefore initial last index)
    rw [Terms.session_shared hshared] at hcourse
    obtain ⟨report, outputs, hdelivers⟩ := hcourse.delivers hallowed hkeyed hown hended
    -- Without an output key nothing is refused, so the stage fails as the report says.
    have hrefused : ∀ events, member.definition.refusal?
        workflow.processes.plan.maxValueBytes events = none := by
      simp [Definition.refusal?, hnokey]
    simp only [Outcome.failure?_eq_or, hdelivers.error, Workflow.terms, hrefused, Option.or_none,
      Settlement.isSuccess_of] at hstopped hvisible
    rcases hdelivers.state with ⟨hstatus, hleft⟩ | ⟨hstatus, hleft⟩
    · refine .completed instruction report outputs hexpand hdelivers.ended hstatus
        hdelivers.published (hvisible outputs ?_ (hleaves.trans hleft))
      simp [Report.failure?, hstatus]
    · refine .failed instruction report hexpand hdelivers.ended hstatus
        (hstopped ?_ (hleaves.trans hleft))
      simp [Report.failure?, hstatus]

end Histories

/-- Two riders, of whom one comes back. -/
def riders : Workflow (Task Body) where
  plan := ⟨"riders", "default", .parallel 2, 100, false⟩
  members :=
    [(⟨"near", none, some "wells", none⟩,
        .leaf (.pause 5 (.emit (.text "near" "three") .finish))),
      (⟨"far", none, some "camps", none⟩, .leaf (.fail (.ofMessage "lost") .finish))]

/-- A caravan of three stages in one session. The second sends riders out, and the third asks
for what the first two have found. -/
def caravan : Workflow (Task Body) where
  plan := ⟨"caravan", "default", .sequential, 100, false⟩
  members :=
    [(⟨"guide", none, none, none⟩, .leaf (.write "road" "east" .finish)),
      (⟨"riders", none, none, none⟩, .workflow riders),
      (⟨"camp", none, none, some "\x7broad\x7d, \x7bwells\x7d"⟩,
        .leaf (.look fun context => .emit (.text "camp" (context.instruction.getD "")) .finish))]

/-- The values that a caravan finds in its session. -/
def caravanState : KeyMap String := KeyMap.empty.insert "wells" "none"

/-- The session of a caravan. -/
def caravanContext : Context := ⟨⟨"s", "u", "a", .empty⟩, 0, none⟩

/-- A stretch of a caravan at a time. -/
def caravanStretch (run : Run (Traced Process)) (state : KeyMap String) (world : World)
    (clock : Nat) : Stretch (Traced Process) :=
  ⟨.at clock, state, { world with clock }, run.give (Traced.poll Process.poll) (.at clock)
    (caravanContext.withState state) { world with clock }⟩

/-- The first stretch of a caravan: one rider is lost, and the other is awaited. -/
def caravanFirst : Stretch (Traced Process) :=
  caravanStretch (ofWorkflow caravan.processes.traced) caravanState (.start 100) 0

/-- The second, in which the other rider is back. -/
def caravanLast : Stretch (Traced Process) :=
  caravanStretch caravanFirst.step.run caravanFirst.step.state caravanFirst.step.world 5

theorem outputs_handed_over_caravan : ∃ values outputs report,
    StartedFrom Process.poll caravan.processes caravanContext [caravanLast, caravanFirst] 1 values ∧
      StartedFrom Process.poll caravan.processes caravanContext [caravanLast, caravanFirst] 2
        (values.overlay outputs) ∧
      caravanLast.step.result = some (.ok report) ∧ report.events = [.text "near" "three",
        .failure "riders" "far" "lost", .text "camp" "east, three"] := by
  have hopen : caravanFirst.step.result = none := Option.isNone_iff_eq_none.1 (by decide +kernel)
  have h : History (Traced.poll Process.poll) caravanContext
      (ofWorkflow caravan.processes.traced) [caravanLast, caravanFirst] :=
    .next (.first _ _ _) hopen _ _ _
  have huntouched : Untouched caravanState [caravanLast, caravanFirst] := by
    refine ⟨?_, List.isChain_pair.2 (by rw [caravanLast, caravanStretch])⟩
    rintro _ ⟨⟩
    rfl
  have hends : caravanLast.step.result.map (·.toOption.map fun report =>
      (report.status, report.events)) = some (some (.completed, [.text "near" "three",
        .failure "riders" "far" "lost", .text "camp" "east, three"])) := by decide +kernel
  obtain ⟨result, hresult, hends⟩ := Option.map_eq_some_iff.1 hends
  cases result with
  | error error => cases hends
  | ok report =>
    obtain ⟨hstatus, hevents⟩ := Prod.mk.inj (Option.some.inj hends)
    have hriders : (caravanLast.step.run.members[1]?.map fun member =>
        (member.definition, member.phase.settlement?.isSome)) =
        some (⟨"riders", none, none, none⟩, true) := by decide +kernel
    obtain ⟨member, hget, hmember⟩ := Option.map_eq_some_iff.1 hriders
    obtain ⟨hdefinition, hsettled⟩ := Prod.mk.inj hmember
    have hinner : caravan.members[1]? = some (member.definition, .workflow riders) := by
      rw [hdefinition]
      rfl
    obtain ⟨values, hstarted, hhands⟩ :=
      outputs_handed_over rfl rfl rfl h huntouched hget hsettled hinner rfl rfl
    have hstops : ∀ values, ¬ StoppedBy Process.poll caravan.processes caravanContext caravanLast
        [caravanFirst] 1 values := by
      rintro values ⟨-, -, failed, hfailed, hfails⟩
      obtain rfl := Except.ok.inj (Option.some.inj (hresult.symm.trans hfailed))
      rw [hstatus] at hfails
      cases hfails
    cases hhands with
    | unfilled _ _ hstopped => exact absurd hstopped (hstops values)
    | failed _ _ _ _ _ hstopped => exact absurd hstopped (hstops values)
    | completed _ _ outputs _ _ _ _ hvisible =>
      exact ⟨values, outputs, report, hstarted, hvisible.next (by decide), hresult, hevents⟩

end Run

end Coordination
