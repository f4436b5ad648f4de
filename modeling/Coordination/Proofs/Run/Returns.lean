import Coordination.Proofs.Run.Account
import Coordination.Proofs.Run.Within

/-!
# How a run returns

A run over a tree of tasks returns when it has ended, when it is cancelled at its deadline,
or when it is dropped by a run above it (`Run.Step.Returns`). Whoever is dropped while it
waits for a slot or holds one is measured as doing so no longer. So the levels are back
where they were, at whatever moment the run returns.

* `Run.abandon_accounted`: what is measured when a run is dropped;
* `Run.Step.Returns.balanced`: the levels when a run has returned.
-/

namespace Coordination

namespace Phase

variable {plan : Plan} {workers : Nat}

/-- Who is dropped while it waits for a slot does so no longer. -/
theorem moves_dropped_waiting (horder : plan.order = .parallel workers) :
    Moves plan .waiting .idle ([.waitEnded plan.name] ++ []) where
  levels := by simp [Measurement.isLevel, Measurement.series]
  queue := fun level => by simp [horder, queued]
  active := fun level => by simp [horder, active]

/-- Who is dropped while it holds a slot gives it back. -/
theorem moves_dropped_running (horder : plan.order = .parallel workers) (access : Access)
    (events : List Event) :
    Moves plan (.running access events) .idle ([] ++ [.slotFreed plan.name]) where
  levels := by simp [Measurement.isLevel, Measurement.series]
  queue := fun level => by simp [horder, queued]
  active := fun level => by simp [horder, active]

end Phase

/-! ## Dropping -/

namespace Run

/-- Whether a tree of tasks may do all but measure under a name. -/
abbrev Unheard (name : String) (process : Process) : Prop :=
  process.Within (.butUnder name) fun _ => True

theorem unheard_ofTask {name : String} {task : Task Body}
    (h : task.Workflows fun workflow => workflow.plan.name ≠ name) :
    Unheard name (.ofTask task) :=
  Process.within_ofTask (h.imp fun _ hname id _ => Licence.butUnder_covers hname id)
    (h.all fun body => body.performs_of_forall fun _ => trivial)

section Dropping

variable {run : Run Process} {successes : List (Record × Execution)}
  {heard measured : List Measurement}

theorem abandon_elsewhere {name : String} {process : Process} (h : Unheard name process)
    (world : World) :
    ∃ more, process.abandon world = world.measure more ∧ Elsewhere name more := by
  obtain ⟨more, hmore, hallowed⟩ := h.abandon "" trivial world
  exact ⟨more, hmore, fun measurement hmem hname => absurd hname (hallowed measurement hmem)⟩

/-- Side by side, all who wait for a slot or hold one no longer do. -/
theorem abandonMembers_accounted {plan : Plan} {workers : Nat}
    (horder : plan.order = .parallel workers) (members : List (Member Process))
    (hmembers : ∀ member ∈ members, Unheard plan.name member.process) (world : World)
    (h : Account plan.name (sumOf (Phase.queued plan.order) members)
      (sumOf (Phase.active plan.order) members) successes heard measured) :
    ∃ more, (members.zip (Process.abandons members)).foldl (abandonMember plan.name) world =
        world.measure more ∧ Account plan.name 0 0 successes heard (measured ++ more) := by
  induction members generalizing world measured with
  | nil => exact ⟨[], world.measure_nil.symm, by rwa [List.append_nil]⟩
  | cons member rest ih =>
    obtain ⟨hmember, hrest⟩ := List.forall_mem_cons.1 hmembers
    have hsum : ∀ count : Phase → Nat,
        sumOf count (member :: rest) = sumOf count rest + count member.phase := by
      intro count
      simp [sumOf, Nat.add_comm]
    rw [hsum, hsum] at h
    have hunheard : ∀ measurement ∈ ([] : List Measurement), measurement.isLevel →
        measurement.workflow ≠ plan.name := fun _ hmem => absurd hmem List.not_mem_nil
    -- What is measured of the first member, and then of the others.
    have hstep : ∃ first, abandonMember plan.name world (member, member.process.abandon) =
          world.measure first ∧
        Account plan.name (sumOf (Phase.queued plan.order) rest)
          (sumOf (Phase.active plan.order) rest) successes heard (measured ++ first) := by
      unfold abandonMember
      cases hphase : member.phase with
      | waiting =>
        rw [hphase] at h
        have hmoved := h.moves none hunheard (Phase.moves_dropped_waiting horder)
        rw [horder] at hmoved ⊢
        exact ⟨_, rfl, by simpa [Phase.queued, Phase.active, committed] using hmoved⟩
      | running access events =>
        rw [hphase] at h
        obtain ⟨more, hmore, helsewhere⟩ := abandon_elsewhere hmember world
        have hmoved := (h.elsewhere helsewhere).moves none hunheard
          (Phase.moves_dropped_running horder access events)
        rw [horder] at hmoved ⊢
        refine ⟨more ++ [.slotFreed plan.name], ?_,
          by simpa [Phase.queued, Phase.active, committed] using hmoved⟩
        dsimp only
        rw [hmore, World.measure_measure]
      | idle | settled settlement =>
        rw [hphase, horder] at h
        rw [horder]
        exact ⟨[], world.measure_nil.symm, by simpa [Phase.queued, Phase.active] using h⟩
    obtain ⟨first, hfirst, haccount⟩ := hstep
    obtain ⟨later, hlater, hdone⟩ := ih hrest (world.measure first) haccount
    refine ⟨first ++ later, ?_, by rwa [← List.append_assoc]⟩
    rw [Process.abandons, List.zip_cons_cons, List.foldl_cons, hfirst, hlater,
      World.measure_measure]

/-- When a run under way is dropped, its levels go back to where they were. -/
theorem abandon_accounted {gate : Gate Nat} {own : Option Ledger}
    (hstage : run.stage = .open gate own)
    (hmembers : ∀ member ∈ run.members, Unheard run.plan.name member.process) (world : World)
    (h : Account run.plan.name (sumOf (Phase.queued run.plan.order) run.members)
      (sumOf (Phase.active run.plan.order) run.members) successes heard measured) :
    ∃ more, run.abandon (Process.abandons run.members) world = world.measure more ∧
      Account run.plan.name 0 0 successes heard (measured ++ more) := by
  rw [abandon, hstage]
  cases horder : run.plan.order with
  | parallel workers =>
    simp only
    exact abandonMembers_accounted horder run.members hmembers world h
  | sequential =>
    have hnone : sumOf (Phase.queued run.plan.order) run.members = 0 ∧
        sumOf (Phase.active run.plan.order) run.members = 0 := by
      simp [sumOf, horder, Phase.queued, Phase.active]
    rw [hnone.1, hnone.2] at h
    have hdropped : ∀ member ∈ run.members, ∀ world : World,
        world.Meters
          (fun measurement => measurement.workflow = run.plan.name →
            measurement.series = .maxWorkers)
          (abandonInLine world (member, member.process.abandon)) := by
      intro member hmem world
      unfold abandonInLine
      split
      · exact abandon_elsewhere (hmembers member hmem) world
      · exact .refl world
    obtain ⟨more, hmore, helsewhere⟩ := Process.meters_foldl_abandons hdropped world
    exact ⟨more, hmore, h.elsewhere helsewhere⟩

theorem cancel_measures {σ : Type} (run : Run σ) (abandons : List Abandon) (deadline : Nat)
    (context : Context) (world : World) :
    (run.abandon abandons world).Measures (run.cancel abandons deadline context world).2 [] := by
  rw [cancel]
  split
  next => exact .refl _
  next hsettled => exact (settleRecord_measures hsettled :)

end Dropping

/-! ## Returns -/

/-- How a run over a tree of tasks returns that was left after this stretch, when the
surroundings have become `later`: its answer, if there is one to whom it is given, and the
surroundings that it leaves. -/
inductive Step.Returns (step : Step Process) (context : Context) (later : World) :
    Option (Except RunError Report) → World → Prop
  /-- It has ended of itself. -/
  | ended (result : Except RunError Report) (h : step.result = some result) :
    Returns step context later (some result) later
  /-- It is cancelled at its deadline. -/
  | expired (deadline : Nat) (state : KeyMap String) (h : step.result = none) :
    Returns step context later
      (some (step.run.expire deadline (context.withState state) later).1)
      (step.run.expire deadline (context.withState state) later).2
  /-- A run above it is cancelled, and drops it. -/
  | dropped (h : step.result = none) :
    Returns step context later none ((Process.workflow step.run).abandon later)

theorem sumOf_map {σ τ : Type} (f : σ → τ) (count : Phase → Nat) (members : List (Member σ)) :
    sumOf count (members.map (·.map f)) = sumOf count members := by
  rw [sumOf, List.map_map]
  rfl

section Returns

variable {workflow : Workflow Process} {context : Context} {first last : Stretch (Traced Process)}
  {past : List (Stretch (Traced Process))}
  (h : History (Traced.poll Process.poll) context (ofWorkflow workflow.traced) (last :: past))
  (hmembers : ∀ member ∈ workflow.members, Unheard workflow.plan.name member.2)
  (hfirst : (last :: past).getLast? = some first)
  (helsewhere : MeasuredElsewhere workflow.plan.name (last :: past))
include h hmembers hfirst helsewhere

/-- Before its end, the levels of a run stand as its members do. -/
theorem History.account_of_none (hresult : last.step.result = none) :
    let visits := log (Traced.poll Process.poll) context (ofWorkflow workflow.traced) (last :: past)
    ∃ measured, first.world.Measures last.step.world measured ∧
      Account workflow.plan.name
        (sumOf (Phase.queued workflow.plan.order) last.step.run.members)
        (sumOf (Phase.active workflow.plan.order) last.step.run.members)
        (visits.filterMap Visit.appended) (visits.flatMap Visit.heard) measured ∧
      (∀ member ∈ last.step.run.members, Unheard workflow.plan.name member.process.task) ∧
      last.step.run.plan = workflow.plan ∧ ∃ gate own, last.step.run.stage = .open gate own := by
  rcases h.accounted (fun _ hprocess => hprocess.poll fun _ _ _ => trivial) hmembers helsewhere
      hfirst rfl with
    (⟨floor, members, hP, -, hstep⟩ | ⟨_, _, _, _, -, -, hstep⟩) | ⟨-, -, hended⟩
  · obtain ⟨hengaged, measured, hmeasures, haccount⟩ := hP
    rw [hstep]
    exact ⟨measured, hmeasures, haccount, hengaged.tasks, rfl, _, _, rfl⟩
  · rw [hstep] at hresult
    cases hresult
  · exact absurd hresult hended

/-- They are back where they were at its beginning once its members are abandoned. -/
theorem History.account_abandon {later : World} {more : List Measurement}
    (hlater : last.step.world.Measures later more) (hmore : Elsewhere workflow.plan.name more)
    (hresult : last.step.result = none) :
    let visits := log (Traced.poll Process.poll) context (ofWorkflow workflow.traced) (last :: past)
    let run := (last.step.map (·.task)).run
    ∃ measured, first.world.Measures (run.abandon (Process.abandons run.members) later) measured ∧
      Account workflow.plan.name 0 0 (visits.filterMap Visit.appended)
        (visits.flatMap Visit.heard) measured := by
  intro visits run
  obtain ⟨measured, hmeasures, haccount, htasks, hplan, gate, own, hstage⟩ :=
    h.account_of_none hmembers hfirst helsewhere hresult
  have hsame : run.plan = workflow.plan := hplan
  obtain ⟨dropped, hdropped, hbalanced⟩ : ∃ dropped,
      run.abandon (Process.abandons run.members) later = later.measure dropped ∧
      Account workflow.plan.name 0 0 (visits.filterMap Visit.appended)
        (visits.flatMap Visit.heard) (measured ++ more ++ dropped) := by
    rw [← hsame]
    refine abandon_accounted hstage (fun member hmem => ?_) later ?_
    · obtain ⟨before, hbefore, rfl⟩ := List.mem_map.1 hmem
      exact hsame ▸ htasks before hbefore
    · simp only [run, Step.map, Run.map, sumOf_map, hplan]
      exact haccount.elsewhere hmore
  refine ⟨measured ++ more ++ dropped, ?_, hbalanced⟩
  rw [hdropped]
  exact (hmeasures.trans hlater).trans (World.measures_measure _ _)

/-- So they are in whatever way a run returns. -/
theorem Step.Returns.balanced {later after : World} {more : List Measurement}
    {answer : Option (Except RunError Report)}
    (hreturns : (last.step.map (·.task)).Returns context later answer after)
    (hlater : last.step.world.Measures later more) (hmore : Elsewhere workflow.plan.name more) :
    let visits := log (Traced.poll Process.poll) context (ofWorkflow workflow.traced) (last :: past)
    ∃ measured, first.world.Measures after measured ∧
      Account workflow.plan.name 0 0 (visits.filterMap Visit.appended)
        (visits.flatMap Visit.heard) measured := by
  intro visits
  by_cases hresult : last.step.result = none
  · obtain ⟨measured, habandoned, hbalanced⟩ :=
      h.account_abandon hmembers hfirst helsewhere hlater hmore hresult
    cases hreturns with
    | ended result hended =>
      have hsome : last.step.result = some result := hended
      rw [hresult] at hsome
      cases hsome
    | expired deadline state =>
      have hcancelled := habandoned.trans (cancel_measures _ _ deadline (context.withState state) _)
      rw [List.append_nil] at hcancelled
      exact ⟨_, hcancelled, hbalanced⟩
    | dropped => exact ⟨_, habandoned, hbalanced⟩
  · obtain ⟨measured, hmeasures, haccount⟩ :=
      h.balanced (fun _ hprocess => hprocess.poll fun _ _ _ => trivial) hmembers helsewhere hfirst
        rfl hresult
    cases hreturns with
    | ended => exact ⟨_, hmeasures.trans hlater, haccount.elsewhere hmore⟩
    | expired _ _ hnone | dropped hnone => exact absurd hnone hresult

end Returns

end Run

end Coordination
