import Coordination.Proofs.Run.ByClock
import Coordination.Proofs.Run.Composition

/-!
# Workflows within workflows

A sub-task may be a workflow again. Given stretches, it goes on as a run of its own
(`Course.run`), yields the events of its report at its end, and fails with the message
of its report if that has failed (`Report.Passes`). So what a tree of tasks comes to is
composed, workflow by workflow, of what its sub-trees come to (`Task.yields`), down to
the leaves, whichever of its workflows run side by side or one after another, and with
output keys or without.

* `Course.leaf`, `Course.run`: the course of a body, and of a run, within a tree;
* `Task.yields_of_process`: every tree comes to what is composed of its sub-trees;
* `Run.nested_report`: so the report of a run is, and those of the workflows in it.
-/

namespace Coordination

/-! ## Courses of processes -/

namespace Process

theorem poll_workflow (run : Run Process) (turn : Turn) (context : Context) (world : World) :
    poll (.workflow run) turn context world =
      ofStep (run.give poll turn context world) := by
  rw [← Run.next_eq_give]
  rfl

/-- A run that is not over has yielded nothing. -/
theorem ofStep_of_pending {step : Run.Step Process} (h : (ofStep step).outcome = .pending) :
    step.result = none ∧ (ofStep step).events = [] := by
  unfold ofStep at h ⊢
  cases hresult : step.result with
  | none => exact ⟨rfl, rfl⟩
  | some result =>
    simp only [hresult] at h
    split at h <;> cases h

/-- A run that has come to an end has something to tell. -/
theorem result_of_ended {step : Run.Step Process} (h : (ofStep step).outcome ≠ .pending) :
    ∃ result, step.result = some result := by
  cases hresult : step.result with
  | some result => exact ⟨result, rfl⟩
  | none =>
    refine absurd ?_ h
    simp only [ofStep, hresult]

theorem process_ofStep (step : Run.Step Process) :
    (ofStep step).process = .workflow step.run := by
  unfold ofStep
  split
  · rfl
  · split <;> rfl

theorem state_ofStep (step : Run.Step Process) : (ofStep step).state = step.state := by
  unfold ofStep
  split
  · rfl
  · split <;> rfl

/-- A run that has ended with a report yields its events, and fails if it says so. -/
theorem ofStep_of_ok {step : Run.Step Process} {report : Report}
    (h : step.result = some (.ok report)) :
    (ofStep step).events = report.events ∧ (ofStep step).outcome.error? = report.failure? := by
  simp only [ofStep, h, Report.yields]
  cases report.failure? <;> exact ⟨rfl, rfl⟩

/-- A run that could not be opened or brought to an end yields nothing and fails. -/
theorem ofStep_of_error {step : Run.Step Process} {error : RunError}
    (h : step.result = some (.error error)) :
    (ofStep step).events = [] ∧ (ofStep step).outcome = .failed (.failed error.failure) := by
  rw [ofStep, h]
  exact ⟨rfl, rfl⟩

end Process

/-- A stretch of a run, as its task is given it within a tree. -/
def Stretch.exchange (context : Context) (stretch : Stretch Process) : Exchange Process :=
  ⟨stretch.turn, context.withState stretch.state, stretch.world, Process.ofStep stretch.step⟩

/-- What a task was given that is a run: the stretches of a history of the run, begun in
the same context. If the task is `alone` in its session, nobody else writes there. -/
structure Carried (start : Context) (run : Run Process) (alone : Prop) (traced : Traced Process)
    (last : Exchange Process) (stretch : Stretch Process) (past : List (Stretch Process)) :
    Prop where
  history : Run.History Process.poll start run (stretch :: past)
  task : traced.task = .workflow stretch.step.run
  exchanges : traced.past.reverse = (stretch :: past).map (·.exchange start)
  last : last = stretch.exchange start
  events : traced.events = (Process.ofStep stretch.step).events
  untouched : alone → Run.Untouched start.state (stretch :: past)

section Courses

variable {alone : Prop} {start : Context} {traced : Traced Process} {last : Exchange Process}

/-- The course of a body within a tree. -/
theorem Course.leaf {leaf : Leaf} (h : Course Process.poll alone (.leaf leaf) start traced last) :
    ∃ body latest, Course Leaf.poll alone leaf start body latest ∧
      traced.task = .leaf body.task ∧ traced.events = body.events ∧
      last.advance = Process.ofLeaf latest.advance := by
  induction h with
  | first turn world => exact ⟨_, _, .first turn world, rfl, rfl, rfl⟩
  | @next traced last _ hpending turn state world halone ih =>
    obtain ⟨body, latest, hcourse, htask, hevents, hadvance⟩ := ih
    have hwaits : latest.advance.outcome = .pending := by
      rw [hadvance] at hpending
      exact hpending
    have hstate : alone → state = latest.advance.state := fun hisAlone => by
      rw [halone hisAlone, hadvance]
      rfl
    have hpoll : Process.poll traced.task turn (start.withState state) world =
        Process.ofLeaf (body.task.poll turn (start.withState state) world) := by
      rw [htask]
      rfl
    refine ⟨_, _, hcourse.next hwaits turn state world hstate, ?_, ?_, ?_⟩
    · simp only [Traced.poll, hpoll]
      rfl
    · rw [Traced.events_poll, Traced.events_poll, hevents]
      simp only [Traced.poll, hpoll]
      rfl
    · simp only [hpoll]

/-- The course of a workflow within a tree is a history of its run, which yields its
events at its end. -/
theorem Course.run {run : Run Process}
    (h : Course Process.poll alone (.workflow run) start traced last) :
    ∃ stretch past, Carried start run alone traced last stretch past := by
  induction h with
  | first turn world =>
    have hpoll := Process.poll_workflow run turn start world
    refine ⟨_, _, .first turn start.state world, ?_, ?_, ?_, ?_, fun _ => ⟨?_, .singleton _⟩⟩
    · simp only [Traced.poll, Traced.fresh, hpoll]
      exact Process.process_ofStep _
    · simp only [Traced.poll, Traced.fresh, hpoll]
      rfl
    · rw [hpoll]
      rfl
    · rw [Traced.events_poll]
      simp only [Traced.poll, Traced.fresh, hpoll]
      rfl
    · rintro _ ⟨⟩
      rfl
  | @next traced last _ hpending turn state world halone ih =>
    obtain ⟨stretch, past, hhistory, htask, hpast, rfl, hevents, huntouched⟩ := ih
    obtain ⟨hopen, hnone⟩ := Process.ofStep_of_pending hpending
    have hpoll : Process.poll traced.task turn (start.withState state) world = Process.ofStep
        (stretch.step.run.give Process.poll turn (start.withState state) world) := by
      rw [htask, Process.poll_workflow]
    refine ⟨_, _, hhistory.next hopen turn state world, ?_, ?_, ?_, ?_, fun hisAlone => ?_⟩
    · simp only [Traced.poll, hpoll]
      exact Process.process_ofStep _
    · simp only [Traced.poll, hpoll, List.reverse_append, hpast]
      rfl
    · rw [hpoll]
      rfl
    · rw [Traced.events_poll, hevents, hnone]
      simp only [Traced.poll, hpoll]
      rfl
    · obtain ⟨hfirst, hbetween⟩ := huntouched hisAlone
      refine ⟨fun first hfirst' => hfirst first (by simpa using hfirst'),
        List.isChain_cons_cons.2 ⟨?_, hbetween⟩⟩
      rw [halone hisAlone]
      exact Process.state_ofStep stretch.step

end Courses

/-! ## Trees -/

/-- Whether a run whose report this is yields these events to the workflow around it,
and fails there with this error: it does if its report has failed, with the same
message. -/
structure Report.Passes (report : Report) (events : List Event) (error? : Option TaskError) :
    Prop where
  events : report.events = events
  fails : error?.isSome ↔ report.status = .failed
  message : error?.map (·.message) = report.error

/-- What a run comes to decides whether it fails, and with which message. -/
theorem Run.Composes.passes {terms : Terms} {yields : List (Definition × Yield)}
    {V : Nat → KeyMap String → Prop} {closes : List Close} {report : Report}
    (h : Run.Composes terms yields V closes report) :
    report.Passes report.events report.failure? where
  events := rfl
  fails := by
    unfold Report.failure?
    split <;> simp [*]
  message := by
    have hcomesTo := h.comesTo
    unfold Report.failure?
    generalize report.status = status at hcomesTo ⊢
    generalize report.error = error at hcomesTo ⊢
    generalize terms.plan.order = order at hcomesTo
    cases hcomesTo <;> rfl

/-- Whether a workflow whose sub-tasks come to what `yields` says may report this: a run
of it has ended with the report, which is composed of how the sub-tasks have closed,
each begun from the values that it found. -/
def Workflow.Reports (workflow : Workflow (Task Body)) (yields : List (Definition × Yield))
    (context : Context) (report : Report) : Prop :=
  let terms := workflow.processes.terms workflow.plan.maxValueBytes context
  let start := Run.ofWorkflow workflow.processes.traced
  ∃ last past closes,
    Run.History (Traced.poll Process.poll) context start (last :: past) ∧
    last.step.result = some (.ok report) ∧
    Run.Composes terms yields
      (Run.Found terms (Run.log (Traced.poll Process.poll) context start (last :: past)))
      closes report

/-- What a workflow comes to whose sub-tasks come to what `yields` says. -/
def Workflow.yields (workflow : Workflow (Task Body)) (yields : List (Definition × Yield)) :
    Yield := fun context events error? =>
  ∃ report, workflow.Reports yields context report ∧ report.Passes events error?

namespace Task

mutual

/-- What a tree of tasks comes to, composed of what its sub-trees come to. -/
def yields : Task Body → Yield
  | .leaf body => .ofTask Leaf.poll (.ofBody body)
  | .workflow ⟨plan, members⟩ => Workflow.yields ⟨plan, members⟩ (yieldsOf members)
  termination_by structural task => task

/-- What the trees of a list come to. -/
def yieldsOf : List (Definition × Task Body) → List (Definition × Yield)
  | [] => []
  | (definition, task) :: rest => (definition, yields task) :: yieldsOf rest
  termination_by structural members => members

end

mutual

/-- Whether every workflow in a tree has a ledger of its own. -/
def ownsLedgers {β : Type} : Task β → Bool
  | .leaf _ => true
  | .workflow ⟨plan, members⟩ => !plan.sharesLedger && ownLedgers members
  termination_by structural task => task

/-- Whether every workflow in the trees of a list does. -/
def ownLedgers {β : Type} : List (Definition × Task β) → Bool
  | [] => true
  | (_, task) :: rest => ownsLedgers task && ownLedgers rest
  termination_by structural members => members

end

theorem yieldsOf_eq_map (members : List (Definition × Task Body)) :
    yieldsOf members = members.map fun member => (member.1, yields member.2) := by
  induction members with
  | nil => rfl
  | cons member rest ih => rw [yieldsOf, ih, List.map_cons]

/-- A tree may only be run if the trees below it may, and its own workflow. -/
theorem check_workflow {workflow : Workflow (Task Body)}
    (h : (Task.workflow workflow).check = .ok ()) :
    checkMembers workflow.members = .ok () ∧ workflow.check = .ok () := by
  simp only [check] at h
  cases hmembers : checkMembers workflow.members with
  | error error =>
    rw [hmembers] at h
    cases h
  | ok =>
    rw [hmembers] at h
    exact ⟨rfl, h⟩

theorem checkMembers_cons {definition : Definition} {task : Task Body}
    {rest : List (Definition × Task Body)}
    (h : checkMembers ((definition, task) :: rest) = .ok ()) :
    task.check = .ok () ∧ checkMembers rest = .ok () := by
  rw [checkMembers] at h
  cases htask : task.check with
  | error error =>
    rw [htask] at h
    cases h
  | ok =>
    rw [htask] at h
    exact ⟨rfl, h⟩

theorem check_of_mem {members : List (Definition × Task Body)} (h : checkMembers members = .ok ())
    {member : Definition × Task Body} (hmem : member ∈ members) : member.2.check = .ok () := by
  induction members with
  | nil => cases hmem
  | cons first rest ih =>
    obtain ⟨definition, task⟩ := first
    obtain ⟨hfirst, hrest⟩ := checkMembers_cons h
    rcases List.mem_cons.1 hmem with rfl | hmem
    · exact hfirst
    · exact ih hrest hmem

end Task

/-! ## Runs of trees -/

/-- What the sub-tasks of a workflow come to that is given stretches. -/
def Process.yieldsOf (members : List (Definition × Task Body)) : List (Definition × Yield) :=
  (ofMembers members).map fun member => (member.1, .ofTask poll member.2)

/-- A workflow within a tree comes to what is composed of what its sub-tasks come to. -/
theorem Workflow.yields_of_process {workflow : Workflow (Task Body)} {context : Context}
    {events : List Event} {error? : Option TaskError} {yields : List (Definition × Yield)}
    (hcheck : workflow.check = .ok ()) (hown : workflow.plan.sharesLedger = false)
    (hmembers : List.Forall₂ Yield.Implies (Process.yieldsOf workflow.members) yields)
    (h : Yield.ofTask Process.poll (.workflow (.ofWorkflow workflow.processes))
      context events error?) :
    workflow.yields yields context events error? := by
  obtain ⟨traced, last, hcourse, hended, rfl, rfl⟩ := h
  obtain ⟨stretch, past, hhistory, -, -, rfl, hevents, -⟩ := hcourse.run
  obtain ⟨latest, earlier, hnotes, rfl, -⟩ := hhistory.exists_traced_cons
  obtain ⟨result, hresult⟩ : ∃ result, latest.step.result = some result :=
    Process.result_of_ended hended
  obtain ⟨report, closes, rfl, hcomposes⟩ :=
    Run.History.composes (check_processes.trans hcheck) hown hnotes hresult
  have hended : (latest.map (·.task)).step.result = some (.ok report) := hresult
  obtain ⟨hyields, hfails⟩ := Process.ofStep_of_ok hended
  refine ⟨report, ⟨latest, earlier, closes, hnotes, hresult, hcomposes.imp hmembers⟩, ?_⟩
  rw [hevents, hyields, Stretch.exchange, hfails]
  exact hcomposes.passes

namespace Task

mutual

/-- Every tree comes to what is composed of what its sub-trees come to. -/
theorem yields_of_process : (task : Task Body) → task.check = .ok () → task.ownsLedgers = true →
    ∀ context events error?, Yield.ofTask Process.poll (Process.ofTask task) context events error? →
      task.yields context events error?
  | .leaf body, _, _ => by
    rintro context _ _ ⟨traced, last, hcourse, hended, rfl, rfl⟩
    obtain ⟨trace, latest, hleaf, -, hevents, hadvance⟩ := hcourse.leaf
    rw [hadvance] at hended ⊢
    exact ⟨trace, latest, hleaf, hended, hevents.symm, rfl⟩
  | .workflow ⟨plan, members⟩, hcheck, hown => by
    intro context events error? h
    obtain ⟨hmembers, hworkflow⟩ := check_workflow hcheck
    simp only [ownsLedgers, Bool.and_eq_true, Bool.not_eq_true'] at hown
    exact Workflow.yields_of_process hworkflow hown.1
      (yieldsOf_of_process members hmembers hown.2) h
  termination_by structural task => task

/-- So does every tree of a list. -/
theorem yieldsOf_of_process : (members : List (Definition × Task Body)) →
    checkMembers members = .ok () → ownLedgers members = true →
      List.Forall₂ Yield.Implies (Process.yieldsOf members) (yieldsOf members)
  | [], _, _ => .nil
  | (_, task) :: rest, hcheck, hown => by
    obtain ⟨htask, hrest⟩ := checkMembers_cons hcheck
    simp only [ownLedgers, Bool.and_eq_true] at hown
    exact .cons ⟨rfl, yields_of_process task htask hown.1⟩
      (yieldsOf_of_process rest hrest hown.2)
  termination_by structural members => members

end

end Task

/-- How a sub-task closes that is a workflow and starts from these values. -/
inductive Workflow.Closes (workflow : Workflow (Task Body)) (yields : List (Definition × Yield))
    (terms : Terms) (index : Nat) (values : KeyMap String) (close : Close) : Prop
  /-- Its template misses a key: it has failed, and nothing has been run. -/
  | unfilled (hmisses : close.definition.Misses values) (hevents : close.events = [])
      (hfails : close.error?.isSome)
  /-- Its run has ended with a report. It has failed if the report has, with the same
  message, or if its output was refused, and only then. -/
  | reported (instruction : Option String) (report : Report)
      (hfilled : ¬ close.definition.Misses values)
      (hreports : workflow.Reports yields (terms.session index values instruction) report)
      (hevents : close.events = report.events)
      (hfails : close.error?.isSome ↔ report.status = .failed ∨
        (close.definition.refusal? terms.maxValueBytes report.events).isSome)
      (hmessage : report.status = .failed → close.error?.map (·.message) = report.error)

theorem Yield.Closes.ofWorkflow {workflow : Workflow (Task Body)}
    {yields : List (Definition × Yield)} {terms : Terms} {index : Nat} {values : KeyMap String}
    {close : Close} (h : (workflow.yields yields).Closes terms index close.definition values
      close.events close.error?) :
    workflow.Closes yields terms index values close := by
  obtain ⟨definition, events, error?⟩ := close
  dsimp only at h
  cases h with
  | unfilled error hmisses hexpand => exact .unfilled hmisses rfl rfl
  | begun instruction _ failure? hfilled hexpand hyield =>
    obtain ⟨report, hreports, rfl, hfails, hmessage⟩ := hyield
    refine .reported instruction report hfilled hreports rfl ?_ fun hfailed => ?_
    · rw [← hfails]
      simp
    · obtain ⟨error, rfl⟩ := Option.isSome_iff_exists.1 (hfails.2 hfailed)
      exact hmessage

namespace Run

section Trees

variable {workflow : Workflow (Task Body)} {context : Context} {last : Stretch (Traced Process)}
  {past : List (Stretch (Traced Process))} {result : Except RunError Report}

/-- What a run of a tree comes to, however deep the tree is: it ends with a report, if it
ends, and this is composed of how its sub-tasks have closed, and so are the reports of
those that are workflows. -/
theorem nested_report (hcheck : (Task.workflow workflow).check = .ok ())
    (hown : (Task.workflow workflow).ownsLedgers = true)
    (h : History (Traced.poll Process.poll) context (ofWorkflow workflow.processes.traced)
      (last :: past))
    (hresult : last.step.result = some result) :
    let terms := workflow.processes.terms workflow.plan.maxValueBytes context
    let found := Found terms
      (log (Traced.poll Process.poll) context (ofWorkflow workflow.processes.traced) (last :: past))
    ∃ report closes, result = .ok report ∧
      Composes terms (Task.yieldsOf workflow.members) found closes report ∧
      ∀ (index : Nat) (close : Close) (inner : Workflow (Task Body)),
        closes[index]? = some close →
        workflow.members[index]? = some (close.definition, .workflow inner) → ∃ values,
          found index values ∧
            inner.Closes (Task.yieldsOf inner.members) terms index values close := by
  intro terms found
  obtain ⟨hmembers, hworkflow⟩ := Task.check_workflow hcheck
  simp only [Task.ownsLedgers, Bool.and_eq_true, Bool.not_eq_true'] at hown
  obtain ⟨report, closes, rfl, hcomposes⟩ :=
    h.composes (Workflow.check_processes.trans hworkflow) hown.1 hresult
  replace hcomposes := hcomposes.imp (Task.yieldsOf_of_process _ hmembers hown.2)
  refine ⟨report, closes, rfl, hcomposes, fun index close inner hclose hinner => ?_⟩
  obtain ⟨yield, values, hyield, hfound, hcloses⟩ := hcomposes.closed index close hclose
  rw [Task.yieldsOf_eq_map, List.getElem?_map, hinner] at hyield
  obtain rfl := (Prod.mk.inj (Option.some.inj hyield)).2
  exact ⟨values, hfound, hcloses.ofWorkflow⟩

end Trees

/-- A voyage of three stages. The second runs two legs side by side; one of them is a
workflow again, and neither arrives. -/
def voyage : Workflow (Task Body) where
  plan := ⟨"voyage", "default", .sequential, 100, false⟩
  members :=
    [(⟨"port", none, some "a", none⟩, .leaf (.emit (.text "port" "sun") .finish)),
      (⟨"legs", none, some "b", none⟩, .workflow
        ⟨⟨"legs", "default", .parallel 2, 100, false⟩,
          [(⟨"north", none, none, none⟩, .workflow
            ⟨⟨"north", "default", .sequential, 100, false⟩,
              [(⟨"cape", none, none, none⟩,
                .leaf (.emit (.text "cape" "dark")
                  (.pause 5 (.fail (.ofMessage "storm") .finish))))]⟩),
            (⟨"south", none, none, none⟩, .leaf (.fail (.ofMessage "ice") .finish))]⟩),
      (⟨"home", none, some "c", none⟩, .leaf .finish)]

/-- The session of a voyage. -/
def voyageContext : Context := ⟨⟨"s", "u", "a", .empty⟩, 0, none⟩

/-- A stretch of a voyage at a time. -/
def voyageStretch (run : Run (Traced Process)) (world : World) (clock : Nat) :
    Stretch (Traced Process) :=
  ⟨.at clock, .empty, { world with clock }, run.give (Traced.poll Process.poll) (.at clock)
    (voyageContext.withState .empty) { world with clock }⟩

/-- The first stretch of a voyage: it waits off the cape. -/
def voyageFirst : Stretch (Traced Process) :=
  voyageStretch (ofWorkflow voyage.processes.traced) (.start 100) 0

/-- The second, in the storm. -/
def voyageLast : Stretch (Traced Process) :=
  voyageStretch voyageFirst.step.run voyageFirst.step.world 5

theorem nested_report_voyage : ∃ report closes,
    voyageLast.step.result = some (.ok report) ∧
      Composes (voyage.processes.terms 100 voyageContext) (Task.yieldsOf voyage.members)
        (Found (voyage.processes.terms 100 voyageContext)
          (log (Traced.poll Process.poll) voyageContext (ofWorkflow voyage.processes.traced)
            [voyageLast, voyageFirst]))
        closes report ∧
      report.error = some "sub-task 'legs' failed: All parallel sub-tasks failed" ∧
      report.events = [.text "port" "sun", .text "cape" "dark", .failure "north" "cape" "storm",
        .failure "legs" "north" "sub-task 'cape' failed: storm", .failure "legs" "south" "ice",
        .failure "voyage" "legs" "All parallel sub-tasks failed"] := by
  have hopen : voyageFirst.step.result.isNone := by decide +kernel
  have h : History (Traced.poll Process.poll) voyageContext
      (ofWorkflow voyage.processes.traced) [voyageLast, voyageFirst] :=
    .next (.first _ _ _) (Option.isNone_iff_eq_none.1 hopen) _ _ _
  have hends : voyageLast.step.result.map (·.toOption.map fun report =>
      (report.error, report.events)) =
      some (some (some "sub-task 'legs' failed: All parallel sub-tasks failed",
        [.text "port" "sun", .text "cape" "dark", .failure "north" "cape" "storm",
          .failure "legs" "north" "sub-task 'cape' failed: storm", .failure "legs" "south" "ice",
          .failure "voyage" "legs" "All parallel sub-tasks failed"])) := by decide +kernel
  obtain ⟨result, hresult, hends⟩ := Option.map_eq_some_iff.1 hends
  cases result with
  | error error => cases hends
  | ok report =>
    obtain ⟨_, closes, ⟨⟩, hcomposes, -⟩ := nested_report rfl rfl h hresult
    obtain ⟨herror, hevents⟩ := Prod.mk.inj (Option.some.inj hends)
    exact ⟨report, closes, hresult, hcomposes, herror, hevents⟩

end Run

end Coordination
