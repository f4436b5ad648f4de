import Coordination.Clock
import Coordination.Proofs.Run.Deadline
import Coordination.Proofs.Run.Tracing

/-!
# Histories by the clock

Running by the clock is one way among many to give a run its stretches, so
what holds of every history holds of every `Workflow.run` (`run_history`).

* `run_reports`: a parallel workflow with output keys and a ledger of its own
  reports a complete record, or one that was cut off at its deadline.
-/

namespace Coordination

namespace Run

/-- How a run by the clock comes out of its last stretch: the run is over, or
its deadline has passed and it is cancelled. -/
inductive Ends (deadline : Option (Nat × Nat)) (context : Context) (last : Stretch Process) :
    Finish → Prop
  | finished (result : Except RunError Report) (hresult : last.step.result = some result) :
    Ends deadline context last ⟨result, last.step.state, last.step.world⟩
  | expired (millis time : Nat) (hdeadline : deadline = some (millis, time))
      (hopen : last.step.result = none) :
    Ends deadline context last
      ⟨(last.step.run.expire millis (context.withState last.step.state) last.step.world).1,
        last.step.state,
        (last.step.run.expire millis (context.withState last.step.state) last.step.world).2⟩

/-- A run that goes on by the clock goes on with its history. -/
theorem byClock_history {start : Run Process} {context : Context} {deadline : Option (Nat × Nat)}
    {instants : Nat} {run : Run Process} {past : List (Stretch Process)} {state : KeyMap String}
    {world : World} {finish : Finish}
    (hnext : ∀ turn state world, History Process.poll context start
      (⟨turn, state, world, run.give Process.poll turn (context.withState state) world⟩ :: past))
    (h : run.byClock deadline instants (context.withState state) world = some finish) :
    ∃ last past, History Process.poll context start (last :: past) ∧
      Ends deadline context last finish := by
  induction instants generalizing run past state world with
  | zero => cases h
  | succ instants ih =>
    obtain ⟨step, hstep⟩ : ∃ step, run.give Process.poll (.at world.clock)
        (context.withState state) world = step := ⟨_, rfl⟩
    have hlast := hnext (.at world.clock) state world
    rw [hstep] at hlast
    simp only [byClock, next_eq_give, hstep] at h
    cases hresult : step.result with
    | some result =>
      simp only [hresult, Option.some.injEq] at h
      subst h
      exact ⟨_, past, hlast, .finished result hresult⟩
    | none =>
      have hgoes : ∀ world,
          step.run.byClock deadline instants (context.withState step.state) world = some finish →
          ∃ last past, History Process.poll context start (last :: past) ∧
            Ends deadline context last finish :=
        fun _ => ih fun turn state world => .next hlast hresult turn state world
      simp only [hresult] at h
      cases deadline with
      | none =>
        obtain ⟨next, -, hrest⟩ := Option.bind_eq_some_iff.1 h
        exact hgoes _ hrest
      | some limit =>
        obtain ⟨millis, time⟩ := limit
        simp only at h
        split at h
        · simp only [Option.some.injEq] at h
          subst h
          exact ⟨_, past, hlast, .expired millis time rfl hresult⟩
        · obtain ⟨next, -, hrest⟩ := Option.bind_eq_some_iff.1 h
          exact hgoes _ hrest

end Run

theorem Process.ofMembers_eq_map (members : List (Definition × Task Body)) :
    ofMembers members = members.map fun member => (member.1, ofTask member.2) := by
  induction members with
  | nil => rfl
  | cons member rest ih => rw [ofMembers, ih, List.map_cons]

namespace Workflow

/-- A workflow over processes that have not started. -/
def processes (workflow : Workflow (Task Body)) : Workflow Process :=
  ⟨workflow.plan, Process.ofMembers workflow.members⟩

variable {workflow : Workflow (Task Body)}

theorem map_fst_ofMembers (members : List (Definition × Task Body)) :
    (Process.ofMembers members).map (·.1) = members.map (·.1) := by
  rw [Process.ofMembers_eq_map, List.map_map]
  rfl

theorem isKeyed_processes : workflow.processes.isKeyed = workflow.isKeyed := by
  have hany := congrArg (List.any · fun definition => definition.outputKey.isSome)
    (map_fst_ofMembers workflow.members)
  rw [List.any_map, List.any_map] at hany
  exact hany

theorem outputKeys_processes : workflow.processes.outputKeys = workflow.outputKeys := by
  have hfilter := congrArg (List.filterMap (·.outputKey)) (map_fst_ofMembers workflow.members)
  rw [List.filterMap_map, List.filterMap_map] at hfilter
  exact hfilter

theorem check_processes : workflow.processes.check = workflow.check := by
  rw [check, check, outputKeys_processes]
  rfl

theorem getElem?_processes_ofTask {index : Nat} {definition : Definition} {task : Task Body}
    (h : workflow.members[index]? = some (definition, task)) :
    workflow.processes.members[index]? = some (definition, .ofTask task) := by
  rw [processes, Process.ofMembers_eq_map, List.getElem?_map, h]
  rfl

/-- What is so of the tasks of a workflow before their start. -/
theorem forall_mem_processes {p : Process → Prop}
    (h : ∀ member ∈ workflow.members, p (.ofTask member.2)) :
    ∀ member ∈ workflow.processes.members, p member.2 := by
  intro member hmem
  rw [processes, Process.ofMembers_eq_map] at hmem
  obtain ⟨below, hbelow, rfl⟩ := List.mem_map.1 hmem
  exact h below hbelow

/-- Every run of a workflow by the clock is a history. -/
theorem run_history {pauses : Nat} {timeout : Option Nat} {context : Context} {world : World}
    {finish : Finish} (h : workflow.run pauses timeout context world = some finish) :
    ∃ last past, Run.History Process.poll context (.ofWorkflow workflow.processes) (last :: past) ∧
      ∃ deadline, Run.Ends deadline context last finish := by
  have hrun : workflow.start.byClock _ _ (context.withState context.state) world = some finish := h
  obtain ⟨last, past, hhistory, hends⟩ := Run.byClock_history (fun _ _ _ => .first _ _ _) hrun
  exact ⟨last, past, hhistory, _, hends⟩

/-- Whatever its sub-tasks do, a parallel workflow with output keys and a
ledger of its own that reports at all reports a complete record, or one that
was cut off at its deadline. -/
theorem run_reports {workers pauses : Nat} {timeout : Option Nat} {context : Context}
    {world : World} {finish : Finish} {report : Report}
    (horder : workflow.plan.order = .parallel workers) (hcheck : workflow.check = .ok ())
    (hkeyed : workflow.isKeyed = true) (hown : workflow.plan.sharesLedger = false)
    (h : workflow.run pauses timeout context world = some finish)
    (hreport : finish.result = .ok report) :
    ∃ members record, report.record = some record ∧
      (record.Complete Process.poll workflow.processes members report ∨
        record.Cut Process.poll workflow.processes members report) := by
  have horder : workflow.processes.plan.order = .parallel workers := horder
  have hunshared : ¬ workflow.processes.plan.sharesLedger := by
    rw [processes, hown]
    exact Bool.false_ne_true
  obtain ⟨last, past, hhistory, deadline, hends⟩ := run_history h
  obtain ⟨traced, htraced, hmap⟩ := hhistory.exists_traced
  obtain ⟨tlast, tpast, rfl, rfl, rfl⟩ := List.map_eq_cons_iff.1 hmap
  have hleads := htraced.leads horder (check_processes.trans hcheck)
    (isKeyed_processes.trans hkeyed) (fun hshares => absurd hshares hunshared) tlast
    List.mem_cons_self
  cases hends with
  | finished result hresult =>
    have hok : tlast.step.result = some (.ok report) := hreport ▸ hresult
    obtain ⟨record, hrecord, hcomplete⟩ := (hleads.of_ok hok).complete
    exact ⟨_, record, hrecord, .inl hcomplete⟩
  | expired millis time _ hopen =>
    obtain ⟨floor, hunder, hstage, -, -, -⟩ := hleads.of_none hopen
    obtain ⟨record, after, hcancel, hcut, -⟩ := @Run.Underway.cancel _ _ _ _ _
      (context.withState tlast.step.state) hunder hstage (isKeyed_processes.trans hkeyed)
      (Process.abandons (tlast.step.run.map (·.task)).members) millis tlast.step.world
      fun hshares => absurd hshares hunshared
    rw [← Run.cancel_map (·.task)] at hcancel
    have hfinish := (congrArg Prod.fst hcancel).symm.trans hreport
    obtain rfl := Except.ok.inj hfinish
    exact ⟨_, record, rfl, .inr hcut⟩

end Workflow

end Coordination
