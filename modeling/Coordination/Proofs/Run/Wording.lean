import Coordination.Proofs.Run.Deadline
import Coordination.Proofs.Run.Handover
import Coordination.Proofs.Run.Pursuit

/-!
# The texts of reports and of outputs

The text of a report joins all fragments of its events at once; what a sub-task commits are
the fragments of its own events. Joining by and by comes to the same (`joinLines_flatMap`),
so a report words its members as they have been committed, side by side or one after
another, finished or cut off (`Run.Restates`). A sub-task that is a workflow yields the
events of the report of its run, so it commits the text of that report, and so do the
workflows in it (`Run.AgreesTo`).

* `Run.History.committedAt`: what has been committed of a member is its wording;
* `Run.GivesReport.outputs`: and it is in the outputs, if nobody else touches the record;
* `Run.wording_agrees`: the report of a run and those within it.
-/

namespace Coordination

variable {σ : Type}

/-! ## Texts -/

/-- Texts one after another, a line break between any two that are not empty. -/
def joinLines (texts : List String) : String :=
  String.intercalate "\n" (texts.filter fun text => !text.isEmpty)

/-- Two texts, a line break between them if neither is empty. -/
def beside (text further : String) : String :=
  if text = "" then further else if further = "" then text else text ++ "\n" ++ further

@[simp] theorem empty_beside (text : String) : beside "" text = text := if_pos rfl

@[simp] theorem beside_empty (text : String) : beside text "" = text := by
  unfold beside
  split
  next h => exact h.symm
  next => rw [if_pos rfl]

theorem beside_of_ne {text further : String} (htext : text ≠ "") (hfurther : further ≠ "") :
    beside text further = text ++ "\n" ++ further := by
  rw [beside, if_neg htext, if_neg hfurther]

theorem beside_assoc (first second third : String) :
    beside (beside first second) third = beside first (beside second third) := by
  by_cases hfirst : first = ""
  · rw [hfirst, empty_beside, empty_beside]
  by_cases hsecond : second = ""
  · rw [hsecond, empty_beside, beside_empty]
  by_cases hthird : third = ""
  · rw [hthird, beside_empty, beside_empty]
  have hleft : first ++ "\n" ++ second ≠ "" := by simp
  have hright : second ++ "\n" ++ third ≠ "" := by simp
  rw [beside_of_ne hfirst hsecond, beside_of_ne hsecond hthird, beside_of_ne hleft hthird,
    beside_of_ne hfirst hright]
  simp only [String.append_assoc]

theorem intercalate_ne_empty {text : String} (separator : String) (texts : List String)
    (h : text ≠ "") : String.intercalate separator (text :: texts) ≠ "" := by
  cases texts with
  | nil => rwa [String.intercalate_singleton]
  | cons next texts => simp [h]

theorem joinLines_cons (text : String) (texts : List String) :
    joinLines (text :: texts) = beside text (joinLines texts) := by
  by_cases hempty : text = ""
  · simp [joinLines, hempty]
  rw [joinLines, List.filter_cons_of_pos (by simpa using hempty), joinLines]
  cases hrest : texts.filter fun text => !text.isEmpty with
  | nil => simp
  | cons next rest =>
    have hnext : next ≠ "" := by
      have hmem := List.mem_filter.1 (hrest ▸ List.mem_cons_self : next ∈ texts.filter _)
      simpa using hmem.2
    rw [beside_of_ne hempty (intercalate_ne_empty _ _ hnext), String.intercalate_cons_cons]

theorem joinLines_append (texts further : List String) :
    joinLines (texts ++ further) = beside (joinLines texts) (joinLines further) := by
  induction texts with
  | nil => simp [joinLines]
  | cons text texts ih => rw [List.cons_append, joinLines_cons, joinLines_cons, ih, beside_assoc]

/-- Texts that are joined by and by come to what they come to all at once. -/
theorem joinLines_flatMap {α : Type} (items : List α) (texts : α → List String) :
    joinLines (items.flatMap texts) = joinLines (items.map fun item => joinLines (texts item)) := by
  induction items with
  | nil => rfl
  | cons item items ih =>
    rw [List.flatMap_cons, joinLines_append, ih, List.map_cons, joinLines_cons]

/-- Items without a text may be left out. -/
theorem joinLines_map_filter {α : Type} (items : List α) (text : α → String) (p : α → Bool)
    (h : ∀ item ∈ items, p item = false → text item = "") :
    joinLines ((items.filter p).map text) = joinLines (items.map text) := by
  induction items with
  | nil => rfl
  | cons item items ih =>
    rw [List.forall_mem_cons] at h
    rw [List.map_cons, joinLines_cons, ← ih h.2, List.filter_cons]
    split
    next => rw [List.map_cons, joinLines_cons]
    next hp => rw [h.1 (by simpa using hp), empty_beside]

theorem textOf_eq_joinLines (events : List Event) :
    textOf events = joinLines (events.flatMap (·.parts)) := by
  rw [textOf, joinLines, List.filter_flatMap]
  rfl

/-! ## Members -/

namespace Member

/-- The text of a member: the fragments of the events that a run has to tell of it. -/
def wording (author : String) (member : Member (Traced σ)) : String :=
  joinLines ((member.tells author).flatMap (·.parts))

theorem textOf_tells (author : String) (member : Member (Traced σ)) :
    textOf (member.tells author) = member.wording author :=
  textOf_eq_joinLines _

/-- Of a member that has succeeded a run tells what its task has yielded. -/
theorem tells_of_success {author : String} {member : Member (Traced σ)} {settlement : Settlement}
    (hsettled : member.phase.settlement? = some settlement) (hsuccess : settlement.isSuccess) :
    member.tells author = member.process.events := by
  rw [Settlement.isSuccess, Option.isNone_iff_eq_none] at hsuccess
  simp [tells, hsettled, hsuccess]

/-- The text of all members together, of whom some have nothing told of them. -/
theorem textOf_flatMap_tells (author : String) (members : List (Member (Traced σ))) :
    textOf (members.flatMap (·.tells author)) =
      joinLines ((members.filter fun member => !(member.tells author).isEmpty).map
        (·.wording author)) := by
  rw [joinLines_map_filter, textOf_eq_joinLines, List.flatMap_assoc, joinLines_flatMap]
  · rfl
  · intro member _ hnone
    rw [Bool.not_eq_false', List.isEmpty_iff] at hnone
    rw [wording, hnone]
    rfl

end Member

/-! ## Reports -/

namespace Run

/-- How a run gives a report of how it stands, and the shared ledger as the report finds it:
the run has ended with it, or it is cancelled. -/
inductive GivesReport (context : Context) (last : Stretch (Traced σ)) (report : Report) :
    Ledger → Prop
  | ended (hresult : last.step.result = some (.ok report)) :
    GivesReport context last report last.step.world.ledger
  | cancelled (hopen : last.step.result = none) (abandons : List Abandon) (deadline : Nat)
      (state : KeyMap String) (world after : World)
      (hcancel : last.step.run.cancel abandons deadline (context.withState state) world =
        (.ok report, after)) :
    GivesReport context last report (last.step.run.abandon abandons world).ledger

/-- Nobody but the run has touched its record up to its report. Without the shared ledger
nobody can. -/
def LeftAlone (workflow : Workflow σ) (context : Context) (last : Stretch (Traced σ))
    (past : List (Stretch (Traced σ))) (found : Ledger) : Prop :=
  workflow.plan.sharesLedger → Undisturbed context.session.id (last :: past) ∧
    found.get? context.session.id = last.step.world.ledger.get? context.session.id

/-- Whether the visit in which the member of a place settles commits this text under this key,
to the ledger as the member's task has left it. -/
def CommittedAt (behave : σ → Poll σ) (workflow : Workflow σ) (context : Context)
    (history : List (Stretch (Traced σ))) (index : Nat) (key text : String) : Prop :=
  ∃ visit ∈ log (Traced.poll behave) context (ofWorkflow workflow.traced) history,
    visit.bringsAt Phase.isSettled index ∧
      Ledger.Commits context.session.id (some key) text
        (visit.floor.worked visit.exchanges).ledger visit.after.1.ledger

/-- How a report words the members of its run, and the run their outputs. -/
structure Restates (behave : σ → Poll σ) (workflow : Workflow σ) (context : Context)
    (last : Stretch (Traced σ)) (past : List (Stretch (Traced σ))) (report : Report)
    (found : Ledger) : Prop where
  /-- The members stand as the workflow declares its sub-tasks. -/
  definitions : last.step.run.members.map (·.definition) = workflow.members.map (·.1)
  events : report.events = last.step.run.members.flatMap (·.tells workflow.plan.name)
  text : report.text = joinLines ((last.step.run.members.filter fun member =>
    !(member.tells workflow.plan.name).isEmpty).map (·.wording workflow.plan.name))
  published : ∀ (index : Nat) (member : Member (Traced σ)) (settlement : Settlement) (key : String),
    last.step.run.members[index]? = some member →
    member.phase.settlement? = some settlement → settlement.isSuccess →
    member.definition.outputKey = some key →
    CommittedAt behave workflow context (last :: past) index key
        (member.wording workflow.plan.name) ∧
      (LeftAlone workflow context last past found → ∃ outputs, report.outputs = some outputs ∧
        outputs.get? key = some (member.wording workflow.plan.name))

/-- The report with which a run ends has the events of its members. -/
theorem events_of_conclude {order : Order} {id : String} {floor after : Floor}
    {members : List (Member σ)} {report : Report}
    (h : conclude order id floor members = some (.ok report, after)) :
    report.events = events members := by
  generalize hconcluded : (Except.ok report, after) = concluded at h
  have hreport : concluded.1 = .ok report := by rw [← hconcluded]
  cases concluded_of_conclude h with
  | parallel =>
    simp only [concludeParallel] at hreport
    split at hreport
    · split at hreport <;> split at hreport <;> cases hreport <;> rfl
    · cases hreport
      rfl
  | stopped failure =>
    simp only [concludeStopped] at hreport
    split at hreport <;> cases hreport
    rfl
  | completed =>
    simp only [concludeCompleted] at hreport
    split at hreport <;> cases hreport
    rfl

section Reports

variable {behave : σ → Poll σ} {workflow : Workflow σ} {context : Context}
  {last : Stretch (Traced σ)} {past : List (Stretch (Traced σ))} {report : Report} {found : Ledger}
  (h : History (Traced.poll behave) context (ofWorkflow workflow.traced) (last :: past))
include h

theorem GivesReport.events (hgives : GivesReport context last report found) :
    report.events = Run.events last.step.run.members := by
  cases hgives with
  | ended hresult =>
    have harrives := (h.pursuing.2 last List.mem_cons_self).arrives (by simp [hresult])
    obtain ⟨floor, after, -, hconclude⟩ := harrives.of_ok hresult
    exact events_of_conclude hconclude
  | cancelled hopen abandons deadline state world after hcancel =>
    simp only [cancel] at hcancel
    split at hcancel <;> cases hcancel
    rfl

/-- What a member that has succeeded with an output key is worded as, was committed when it
settled. -/
theorem History.committedAt {index : Nat} {member : Member (Traced σ)} {settlement : Settlement}
    {key : String} (hget : last.step.run.members[index]? = some member)
    (hsettled : member.phase.settlement? = some settlement) (hsuccess : settlement.isSuccess)
    (hkey : member.definition.outputKey = some key) :
    CommittedAt behave workflow context (last :: past) index key
      (member.wording workflow.plan.name) := by
  have hkeyed := h.carries.isKeyed_of_mem (List.mem_of_getElem? hget) hkey
  -- The one visit in which it has settled.
  have hcount : (log (Traced.poll behave) context (ofWorkflow workflow.traced)
      (last :: past)).countP (Visit.bringsAt Phase.isSettled index) = 1 := by
    rw [h.countP_bringsAt lasting_isSettled, latest, reached, hget, Option.any_some,
      Phase.isSettled, hsettled]
    rfl
  obtain ⟨visit, hmem, hbrings⟩ := List.countP_pos_iff.1 (hcount ▸ Nat.one_pos)
  refine ⟨visit, hmem, hbrings, ?_⟩
  simp only [Visit.bringsAt, Visit.brings, Phase.isSettled, Bool.and_eq_true, Bool.not_eq_true',
    Option.isSome_eq_false_iff, Option.isNone_iff_eq_none, beq_iff_eq] at hbrings
  obtain ⟨⟨hunsettled, hsettles⟩, rfl⟩ := hbrings
  obtain ⟨settlement', hsettles⟩ := Option.isSome_iff_exists.1 hsettles
  -- It is settled as it was then.
  obtain ⟨later, hlater, honward⟩ := h.onward_latest hmem visit.index visit.after.2 (by
    rw [visit.left_eq_set, List.getElem?_set_self
      (List.getElem?_eq_some_iff.1 visit.getElem?_members).1])
  obtain rfl : later = member := Option.some.inj (hlater.symm.trans hget)
  obtain rfl : settlement' = settlement :=
    Option.some.inj ((honward.settled settlement' hsettles).symm.trans hsettled)
  obtain ⟨stretch, -, hof⟩ := h.of_mem_log hmem
  obtain ⟨-, task, hpursued⟩ := (h.pursuing.1 visit hmem).visited hof
  obtain ⟨_, -, hpursues⟩ := h.pursues List.mem_cons_self hget
  have hevents : visit.after.2.process.events = later.tells workflow.plan.name := by
    rw [← Member.tells_of_success hsettles hsuccess]
    exact (hpursued.pursues.events_settlement hsettles).symm.trans
      (hpursues.events_settlement hsettled)
  have hcommits := h.committed hkeyed hmem hunsettled hsettles hsuccess
  rwa [hevents, Member.textOf_tells, ← hof.visited.onward.definition, ← honward.definition,
    hkey] at hcommits

/-- And that is in the outputs of the report. -/
theorem GivesReport.outputs (hcheck : workflow.check = .ok ())
    (hgives : GivesReport context last report found)
    (halone : LeftAlone workflow context last past found) {index : Nat}
    {member : Member (Traced σ)} {settlement : Settlement} {key : String}
    (hget : last.step.run.members[index]? = some member)
    (hsettled : member.phase.settlement? = some settlement) (hsuccess : settlement.isSuccess)
    (hkey : member.definition.outputKey = some key) :
    ∃ outputs, report.outputs = some outputs ∧
      outputs.get? key = some (member.wording workflow.plan.name) := by
  have hkeyed := h.carries.isKeyed_of_mem (List.mem_of_getElem? hget) hkey
  obtain ⟨_, -, hpursues⟩ := h.pursues List.mem_cons_self hget
  have hwording : textOf settlement.events = member.wording workflow.plan.name := by
    rw [hpursues.events_settlement hsettled, ← Member.textOf_tells]
    rfl
  have hsettledAt := settledAt_iff.2 ⟨member, hget, rfl, hsettled⟩
  have hcomes := (h.underway hcheck hkeyed fun hshares => (halone hshares).1).2 last
    List.mem_cons_self
  rw [← hwording]
  cases hgives with
  | ended hresult =>
    obtain ⟨floor, after, hunder, hconclude⟩ := (hcomes.arrives (by simp [hresult])).of_ok hresult
    obtain ⟨record, hrecord, -⟩ := hunder.accord
    obtain ⟨_, now, verdict, ⟨⟩, hreported, -⟩ := hunder.settles hrecord hconclude
    exact ⟨_, by rw [Report.outputs, hreported, Option.map_some],
      hunder.outputs_reported hconclude hsettledAt hsuccess hkey hreported⟩
  | cancelled hopen abandons deadline state world after hcancel =>
    obtain ⟨floor, hunder, hstage, hworld⟩ := (hcomes.arrives (by simp [hopen])).of_none hopen
    have hunder : Underway behave workflow (context.withState state).session.id floor
        last.step.run.members := hunder
    obtain ⟨record, now, _, haccord, hcut, -⟩ := hunder.cuts hstage hkeyed abandons deadline world
      fun hshares => hworld ▸ (halone hshares).2
    obtain ⟨rfl, -⟩ := (Prod.mk.inj (hcancel.symm.trans hcut)).imp Except.ok.inj id
    exact ⟨record.outputs, rfl, (haccord.outputs key _).2
      ⟨index, _, _, hsettledAt, hsuccess, hkey, rfl⟩⟩

/-- So every report of a run restates its members. -/
theorem History.restates (hcheck : workflow.check = .ok ())
    (hgives : GivesReport context last report found) :
    Restates behave workflow context last past report found where
  definitions := h.carries.definitions
  events := (hgives.events h).trans h.events_eq_flatMap
  text := by
    rw [Report.text, hgives.events h, h.events_eq_flatMap, Member.textOf_flatMap_tells]
  published _ _ _ _ hget hsettled hsuccess hkey :=
    ⟨h.committedAt hget hsettled hsuccess hkey,
      fun halone => hgives.outputs h hcheck halone hget hsettled hsuccess hkey⟩

end Reports

end Run

/-! ## Trees -/

/-- Whether what a workflow within a tree was given are the stretches of this history of its
run. -/
structure Workflow.RunsOn (inner : Workflow (Task Body)) (start : Context) (traced : Traced Process)
    (last : Stretch (Traced Process)) (past : List (Stretch (Traced Process))) : Prop where
  history : Run.History (Traced.poll Process.poll) start (.ofWorkflow inner.processes.traced)
    (last :: past)
  given : traced.past.reverse = ((last :: past).map (·.map (·.task))).map (·.exchange start)

/-- A workflow within a tree that has come to its end has been given a history of its run. If
this has ended with a report, it has yielded the events of the report; if not, it has failed. -/
theorem Course.runsOn {inner : Workflow (Task Body)} {start : Context} {traced : Traced Process}
    {last : Exchange Process}
    (h : Course Process.poll False (Process.ofTask (.workflow inner)) start traced last)
    (hended : last.advance.outcome ≠ .pending) :
    ∃ latest earlier result, inner.RunsOn start traced latest earlier ∧
      latest.step.result = some result ∧
      (∀ report, result = .ok report → traced.events = report.events) ∧
      ∀ error, result = .error error → last.advance.outcome ≠ .ended := by
  have hcourse : Course Process.poll False (.workflow (.ofWorkflow inner.processes)) start traced
      last := h
  obtain ⟨_, _, hcarried⟩ := hcourse.run
  obtain rfl := hcarried.last
  obtain ⟨latest, earlier, hnotes, rfl, rfl⟩ := hcarried.history.exists_traced_cons
  obtain ⟨result, hresult⟩ : ∃ result, latest.step.result = some result :=
    Process.result_of_ended hended
  refine ⟨latest, earlier, result, ⟨hnotes, hcarried.exchanges⟩, hresult, ?_, ?_⟩
  · rintro report rfl
    exact hcarried.events.trans (Process.ofStep_of_ok hresult).1
  · rintro error rfl
    rw [Stretch.exchange, (Process.ofStep_of_error hresult).2]
    simp

namespace Run

/-- What has become of a sub-task that is a workflow and has settled. -/
inductive Retells
    (agrees : Context → Stretch (Traced Process) → List (Stretch (Traced Process)) → Report →
      Ledger → Prop)
    (workflow inner : Workflow (Task Body)) (context : Context)
    (history : List (Stretch (Traced Process))) (index : Nat) (member : Member (Traced Process))
    (settlement : Settlement) : Prop
  /-- It was not begun. -/
  | unbegun (hpast : member.process.past = []) (hfails : ¬ settlement.isSuccess)
  /-- Its run could not be opened, or brought to an end. -/
  | refused (values : KeyMap String) (instruction : Option String)
      (last : Stretch (Traced Process)) (past : List (Stretch (Traced Process))) (error : RunError)
      (hruns : inner.RunsOn ((workflow.processes.terms workflow.plan.maxValueBytes context).session
        index values instruction) member.process last past)
      (hresult : last.step.result = some (.error error)) (hfails : ¬ settlement.isSuccess)
  /-- Its run has ended with a report. It has yielded the events of this report; if it has
  succeeded, the text of the report is its own, and was committed. -/
  | reported (values : KeyMap String) (instruction : Option String)
      (last : Stretch (Traced Process)) (past : List (Stretch (Traced Process))) (report : Report)
      (hruns : inner.RunsOn ((workflow.processes.terms workflow.plan.maxValueBytes context).session
        index values instruction) member.process last past)
      (hresult : last.step.result = some (.ok report))
      (hevents : member.process.events = report.events)
      (hwording : settlement.isSuccess → member.wording workflow.plan.name = report.text)
      (hcommitted : settlement.isSuccess → ∀ key, member.definition.outputKey = some key →
        CommittedAt Process.poll workflow.processes context history index key report.text)
      (hagrees : agrees ((workflow.processes.terms workflow.plan.maxValueBytes context).session
        index values instruction) last past report last.step.world.ledger)

/-- Whether a report restates what the members of its run have come to, and the reports of the
runs in it do so, down to so many levels. -/
def AgreesTo : Nat → Workflow (Task Body) → Context → Stretch (Traced Process) →
    List (Stretch (Traced Process)) → Report → Ledger → Prop
  | 0, _, _, _, _, _, _ => True
  | depth + 1, workflow, context, last, past, report, found =>
    Restates Process.poll workflow.processes context last past report found ∧
      ∀ (index : Nat) (member : Member (Traced Process)) (inner : Workflow (Task Body))
        (settlement : Settlement), last.step.run.members[index]? = some member →
        workflow.members[index]? = some (member.definition, .workflow inner) →
        member.phase.settlement? = some settlement →
        Retells (AgreesTo depth inner) workflow inner context (last :: past) index member settlement

/-- The report of a run and what it commits are the same text. Take a run over any tree of
tasks that may be run, whatever its tasks do and whatever happens between its stretches, and
any report that it gives: at its end, or cancelled. The report joins the texts of its members
in their order; what a member that has succeeded has committed is its text, and so is its
output in the report, if nobody else has touched the record of the run. If the member is a
workflow, this is the text of the report of its own run; and so it is with that report, however
deep the tree is. -/
theorem wording_agrees (depth : Nat) {workflow : Workflow (Task Body)} {context : Context}
    {last : Stretch (Traced Process)} {past : List (Stretch (Traced Process))} {report : Report}
    {found : Ledger} (hcheck : (Task.workflow workflow).check = .ok ())
    (h : History (Traced.poll Process.poll) context (ofWorkflow workflow.processes.traced)
      (last :: past))
    (hgives : GivesReport context last report found) :
    AgreesTo depth workflow context last past report found := by
  induction depth generalizing workflow context last past report found with
  | zero => trivial
  | succ depth ih =>
    obtain ⟨hmembers, hworkflow⟩ := Task.check_workflow hcheck
    refine ⟨h.restates (Workflow.check_processes.trans hworkflow) hgives,
      fun index member inner settlement hget hinner hsettled => ?_⟩
    obtain ⟨process, hprocess, hpursues⟩ := h.pursues List.mem_cons_self hget
    obtain ⟨task, htask, rfl⟩ := Workflow.getElem?_processes hprocess
    obtain rfl := (Prod.mk.inj (Option.some.inj (hinner.symm.trans htask))).2
    cases hpursues with
    | unstarted hphase =>
      rw [Member.hasStarted_of_settled (by rw [hsettled]; rfl)] at hphase
      cases hphase
    | underway _ _ _ _ _ _ _ hphase =>
      rw [hphase] at hsettled
      cases hsettled
    | barred error hfresh hphase =>
      rw [hphase] at hsettled
      cases hsettled
      exact .unbegun (by rw [hfresh]; rfl) (by simp)
    | settled values instruction _ error? hcourse hended hgood hphase =>
      obtain rfl : Settlement.of _ _ _ error? = settlement := by
        rw [hphase] at hsettled
        exact Option.some.inj hsettled
      obtain ⟨latest, earlier, result, hruns, hresult, hyields, hfails⟩ :=
        Course.runsOn hcourse hended
      cases result with
      | error error =>
        refine .refused values instruction latest earlier error hruns hresult fun hsuccess => ?_
        rw [Settlement.isSuccess_of, Option.isNone_iff_eq_none] at hsuccess
        exact hfails error rfl (hgood hsuccess)
      | ok report =>
        have hevents := hyields report rfl
        have hwording : (Settlement.of workflow.plan.name member.definition member.process.events
            error?).isSuccess → member.wording workflow.plan.name = report.text := by
          intro hsuccess
          rw [← Member.textOf_tells, Member.tells_of_success hsettled hsuccess, hevents,
            Report.text]
        refine .reported values instruction latest earlier report hruns hresult hevents hwording
          (fun hsuccess key hkey => ?_) (ih ?_ hruns.history (.ended hresult))
        · rw [← hwording hsuccess]
          exact h.committedAt hget hsettled hsuccess hkey
        · exact Task.check_of_mem hmembers (List.mem_of_getElem? hinner)

/-- A fleet of two. The first ship sends boats out, one after another, and the second of these
is a workflow again; the other ship is lost. -/
def fleet : Workflow (Task Body) where
  plan := ⟨"fleet", "default", .parallel 2, 100, false⟩
  members :=
    [(⟨"scout", none, some "news", none⟩, .workflow
        ⟨⟨"scout", "default", .sequential, 100, true⟩,
          [(⟨"fog", none, some "sight", none⟩,
              .leaf (.emit (.empty "fog")
                (.emit ⟨"fog", ["mist", "", "haze"], none, .empty⟩ .finish))),
            (⟨"reef", none, some "ground", none⟩, .workflow
              ⟨⟨"reef", "default", .parallel 1, 100, false⟩,
                [(⟨"lead", none, some "depth", none⟩,
                    .leaf (.emit (.text "lead" "rocks") .finish)),
                  (⟨"line", none, none, none⟩, .leaf .finish)]⟩)]⟩),
      (⟨"tender", none, some "stores", none⟩, .leaf (.fail (.ofMessage "lost") .finish))]

/-- The session of a fleet. -/
def fleetContext : Context := ⟨⟨"s", "u", "a", .empty⟩, 0, none⟩

/-- All that a fleet does, in one stretch. -/
def fleetFirst : Stretch (Traced Process) :=
  ⟨.at 0, .empty, .start 100, (ofWorkflow fleet.processes.traced).give (Traced.poll Process.poll)
    (.at 0) (fleetContext.withState .empty) (.start 100)⟩

theorem wording_agrees_fleet : ∃ report, fleetFirst.step.result = some (.ok report) ∧
    AgreesTo 3 fleet fleetContext fleetFirst [] report fleetFirst.step.world.ledger ∧
    report.text = "mist\nhaze\nrocks\nError in sub-task tender: lost" ∧
    report.outputs.bind (·.get? "news") = some "mist\nhaze\nrocks" := by
  have hends : fleetFirst.step.result.map (·.toOption.map fun report =>
      (report.text, report.outputs.bind (·.get? "news"))) =
      some (some ("mist\nhaze\nrocks\nError in sub-task tender: lost",
        some "mist\nhaze\nrocks")) := by decide +kernel
  obtain ⟨result, hresult, hends⟩ := Option.map_eq_some_iff.1 hends
  cases result with
  | error error => cases hends
  | ok report =>
    obtain ⟨htext, houtput⟩ := Prod.mk.inj (Option.some.inj hends)
    exact ⟨report, hresult, wording_agrees 3 rfl (.first _ _ _) (.ended hresult), htext, houtput⟩

/-- A watch of two. One writes over what the other has committed, in the shared ledger. -/
def forgery : Workflow (Task Body) where
  plan := ⟨"watch", "default", .parallel 1, 100, true⟩
  members :=
    [(⟨"sky", none, some "a", none⟩, .leaf (.emit (.text "sky" "sun") .finish)),
      (⟨"forger", none, none, none⟩,
        .leaf (.operate (.write "s" "a" "moon") fun _ => .finish))]

/-- All that the forgery does, in one stretch. -/
def forgeryFirst : Stretch (Traced Process) :=
  ⟨.at 0, .empty, .start 100, (ofWorkflow forgery.processes.traced).give (Traced.poll Process.poll)
    (.at 0) (fleetContext.withState .empty) (.start 100)⟩

/-- Where others touch the record of a run, an output need not be the text of its member. -/
theorem output_forged : ∃ report member settlement,
    (Task.workflow forgery).check = .ok () ∧
    History (Traced.poll Process.poll) fleetContext (ofWorkflow forgery.processes.traced)
      [forgeryFirst] ∧
    forgeryFirst.step.result = some (.ok report) ∧ forgeryFirst.step.run.members[0]? = some member ∧
    member.phase.settlement? = some settlement ∧ settlement.isSuccess ∧
    member.definition.outputKey = some "a" ∧
    report.text = "sun" ∧ member.wording forgery.plan.name = "sun" ∧
    report.outputs.bind (·.get? "a") = some "moon" := by
  have hends : forgeryFirst.step.result.map (·.toOption.map fun report =>
      (report.text, report.outputs.bind (·.get? "a"))) = some (some ("sun", some "moon")) := by
    decide +kernel
  have hstands : forgeryFirst.step.run.members[0]?.map (fun member =>
      (member.phase.settlement?.map (·.isSuccess), member.definition.outputKey,
        member.wording forgery.plan.name)) = some (some true, some "a", "sun") := by
    decide +kernel
  obtain ⟨result, hresult, hends⟩ := Option.map_eq_some_iff.1 hends
  obtain ⟨member, hget, hstands⟩ := Option.map_eq_some_iff.1 hstands
  simp only [Prod.mk.injEq, Option.map_eq_some_iff] at hstands
  obtain ⟨⟨settlement, hsettled, hsuccess⟩, hkey, hwording⟩ := hstands
  cases result with
  | error error => cases hends
  | ok report =>
    obtain ⟨htext, houtput⟩ := Prod.mk.inj (Option.some.inj hends)
    exact ⟨report, member, settlement, rfl, .first _ _ _, hresult, hget, hsettled, hsuccess, hkey,
      htext, hwording, houtput⟩

end Run

end Coordination
