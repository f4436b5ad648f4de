import Coordination.Proofs.Run.Bookkeeping

/-!
# What a deadline leaves running

When a run ends of itself, no run of its tree is in flight any more, and none of their
records is running. At its deadline, though, it drops the sub-tasks in flight and marks
its own record only: the record that a workflow below it has in the shared ledger stays
running for good. So a record is running behind a deadline exactly if its run was in
flight below the cancelled one (`Run.running_after_deadline_iff`).
-/

namespace Coordination

/-! ## Trees before their start -/

/-- Whether something is so of all leaves of a tree. -/
inductive Task.All {β : Type} (p : β → Prop) : Task β → Prop
  | leaf (body : β) (h : p body) : All p (.leaf body)
  | workflow (workflow : Workflow (Task β)) (h : ∀ member ∈ workflow.members, All p member.2) :
    All p (.workflow workflow)

namespace Process

/-- A tree that may be run, and whose bodies leave the record of an id to the runs. -/
theorem orderly_ofTask {id : String} {task : Task Body} (habstains : task.All (Body.Abstains id))
    (hcheck : task.check = .ok ()) : (ofTask task).Orderly id ∧ (ofTask task).Unopened := by
  induction habstains with
  | leaf body h => exact ⟨.leaf _ h, trivial⟩
  | workflow workflow h ih =>
    obtain ⟨hmembers, hworkflow⟩ := Task.check_workflow hcheck
    have hbelow : ∀ member ∈ (workflow.start).members, member.phase = .idle ∧
        member.process.Orderly id ∧ member.process.Unopened := by
      intro member hmem
      rw [Workflow.start, Run.ofWorkflow, ofMembers_eq_map, List.map_map, List.mem_map] at hmem
      obtain ⟨below, hbelow, rfl⟩ := hmem
      exact ⟨rfl, ih below hbelow (Task.check_of_mem hmembers hbelow)⟩
    refine ⟨.workflow workflow.start ⟨?_, ?_, ?_⟩ ?_ ?_, rfl⟩
    · exact (Workflow.check_eq_ok_iff.1 hworkflow).1
    · exact fun member hmem _ => (hbelow member hmem).2.2
    · intro _
      refine List.Pairwise.imp_of_mem (fun _ hmem _ hstarted => ?_)
        (List.pairwise_of_forall (R := fun _ _ => True) fun _ _ => trivial)
      simp [(hbelow _ hmem).1, Phase.hasStarted] at hstarted
    · exact fun _ member hmem => (hbelow member hmem).1
    · exact fun member hmem => (hbelow member hmem).2.1

/-! ## Dropping tasks -/

theorem abandons_eq_map (members : List (Member Process)) :
    abandons members = members.map fun member => abandon member.process := by
  induction members with
  | nil => rfl
  | cons member rest ih => rw [abandons, ih, List.map_cons]

end Process

namespace Run

theorem ledger_abandon {σ : Type} {run : Run σ} (abandons : List Abandon)
    (h : ∀ abandon ∈ abandons, ∀ world, (abandon world).ledger = world.ledger) (world : World) :
    (run.abandon abandons world).ledger = world.ledger := by
  have hfold : ∀ (step : World → Member σ × Abandon → World),
      (∀ world (pair : Member σ × Abandon), (∀ world, (pair.2 world).ledger = world.ledger) →
        (step world pair).ledger = world.ledger) →
      ∀ (pairs : List (Member σ × Abandon)) world,
        (∀ pair ∈ pairs, ∀ world, (pair.2 world).ledger = world.ledger) →
        (pairs.foldl step world).ledger = world.ledger := by
    intro step hstep pairs
    induction pairs with
    | nil => exact fun _ _ => rfl
    | cons pair rest ih =>
      intro world hall
      rw [List.forall_mem_cons] at hall
      exact (ih _ hall.2).trans (hstep world pair hall.1)
  have hpairs : ∀ pair ∈ run.members.zip abandons, ∀ world,
      (pair.2 world).ledger = world.ledger :=
    fun pair hmem => h pair.2 (List.of_mem_zip hmem).2
  unfold abandon
  split
  · split
    · refine hfold _ (fun world pair hpair => ?_) _ _ hpairs
      unfold abandonMember
      split
      · rfl
      · exact hpair world
      · rfl
    · refine hfold _ (fun world pair hpair => ?_) _ _ hpairs
      unfold abandonInLine
      split
      · exact hpair world
      · rfl
  · rfl

end Run

namespace Process

mutual

/-- Dropping a tree of tasks leaves the shared ledger as it is. -/
theorem ledger_abandon : ∀ (process : Process) (world : World),
    (process.abandon world).ledger = world.ledger
  | .leaf _, _ => rfl
  | .workflow ⟨_, _, members⟩, world =>
    Run.ledger_abandon (abandons members) (ledger_abandons members) world

/-- So does dropping the members of a run, each for itself. -/
theorem ledger_abandons : ∀ (members : List (Member Process)),
    ∀ abandon ∈ abandons members, ∀ world, (abandon world).ledger = world.ledger
  | ⟨_, _, process⟩ :: rest, abandon, hmem, world => by
    rcases List.mem_cons.1 hmem with rfl | hmem
    · exact ledger_abandon process world
    · exact ledger_abandons rest abandon hmem world

end

end Process

namespace Run

/-! ## Histories -/

section Histories

variable {context : Context} {start : Run Process} {last : Stretch Process}
  {past : List (Stretch Process)} {id : String}

/-- Nobody but the run itself has to do with whether the record of an id is running: it
is not at first, and stays as it is between two stretches. -/
structure Alone (id : String) (history : List (Stretch Process)) : Prop where
  first : ∀ first, history.getLast? = some first → first.world.ledger.isRunning id = false
  between : history.IsChain fun later earlier =>
    later.world.ledger.isRunning id = earlier.step.world.ledger.isRunning id

/-- A record is running after a stretch exactly if its run is in flight. -/
theorem History.inFlight (h : History Process.poll context start (last :: past))
    (horderly : (Process.workflow start).Orderly id)
    (hnone : (Process.workflow start).inFlight context.session.id = [])
    (halone : Alone id (last :: past)) :
    (Process.workflow last.step.run).Orderly id ∧
      (last.step.result ≠ none →
        (Process.workflow last.step.run).inFlight context.session.id = []) ∧
      (last.step.world.ledger.isRunning id).toNat =
        ((Process.workflow last.step.run).inFlight context.session.id).count id := by
  have hstretch : ∀ {run : Run Process} turn state world,
      (Process.workflow run).Orderly id →
      (world.ledger.isRunning id).toNat =
        ((Process.workflow run).inFlight context.session.id).count id →
      let step := run.give Process.poll turn (context.withState state) world
      (Process.workflow step.run).Orderly id ∧
        (step.result ≠ none → (Process.workflow step.run).inFlight context.session.id = []) ∧
        (step.world.ledger.isRunning id).toNat =
          ((Process.workflow step.run).inFlight context.session.id).count id := by
    intro run turn state world horderly hcount
    cases horderly with
    | workflow _ hordered hfresh hmembers =>
      obtain ⟨hafter, hover, hrunning⟩ := give_treads hordered hfresh hmembers
        (fun member hmem => (hmembers member hmem).tracks) turn (context.withState state) world
      exact ⟨hafter, hover, hrunning 0 hcount⟩
  generalize hhistory : last :: past = history at h
  induction h generalizing last past with
  | first turn state world =>
    cases hhistory
    refine hstretch turn state world horderly ?_
    rw [hnone, show world.ledger.isRunning id = false from halone.first _ rfl]
    rfl
  | @next earlier before h _ turn state world ih =>
    cases hhistory
    have hbefore : Alone id (earlier :: before) :=
      ⟨fun first hfirst => halone.first first (by simpa using hfirst), halone.between.tail⟩
    obtain ⟨horderly', -, hcount⟩ := ih hbefore rfl
    refine hstretch turn state world horderly' ?_
    have hsame := (List.isChain_cons_cons.1 halone.between).1
    dsimp only at hsame
    rw [hsame]
    exact hcount

/-- Behind its deadline a run leaves those records running whose runs were in flight
below it, and no others. -/
theorem isRunning_expire {run : Run Process} {gate : Gate Nat} {own : Option Ledger}
    {deadline : Nat} {world after : World} {report : Report}
    (hstage : run.stage = .open gate own)
    (hcount : (world.ledger.isRunning id).toNat =
      ((Process.workflow run).inFlight context.session.id).count id)
    (hexpire : run.expire deadline context world = (.ok report, after)) :
    after.ledger.isRunning id ↔ id ∈ Process.inFlightOf context.session.id run.members := by
  have hledger : (run.abandon (Process.abandons run.members) world).ledger = world.ledger :=
    Process.ledger_abandon (.workflow run) world
  have hshared : sharedRecord context.session.id run =
      Floor.record context.session.id ⟨context.state, run.isKeyed, own, Gate.ofCapacity 0,
        run.abandon (Process.abandons run.members) world⟩ := sharedRecord_of_open hstage rfl rfl
  rw [Process.inFlight_workflow, ← Process.inFlightOf_eq_flatMap, List.count_append, hshared,
    ← hledger] at hcount
  rw [expire, cancel] at hexpire
  simp only [hstage] at hexpire
  split at hexpire
  · cases hexpire
  next record floor hsettle =>
    obtain ⟨-, rfl⟩ := Prod.mk.inj hexpire
    have hsettled := settleRecord_running hsettle id
    have hrest : (floor.world.ledger.isRunning id).toNat =
        (Process.inFlightOf context.session.id run.members).count id := by
      dsimp only at hsettled
      omega
    rw [← List.count_pos_iff, ← hrest]
    show floor.world.ledger.isRunning id ↔ _
    cases floor.world.ledger.isRunning id <;> simp

end Histories

/-- What is left running behind a deadline. Take a tree of tasks that may be run and
whose bodies leave the record of an id to the runs, and let nobody else have to do with
whether it is running. If the run over the tree ends of itself, the record is not
running. If the run is cancelled at its deadline, at whatever moment, the record is
running from then on exactly if its run was in flight below the cancelled one. -/
theorem running_after_deadline_iff {workflow : Workflow (Task Body)} {context : Context}
    {last : Stretch Process} {past : List (Stretch Process)} {id : String}
    (hcheck : (Task.workflow workflow).check = .ok ())
    (habstains : (Task.workflow workflow).All (Body.Abstains id))
    (h : History Process.poll context workflow.start (last :: past))
    (halone : Alone id (last :: past)) :
    (last.step.result ≠ none → last.step.world.ledger.isRunning id = false) ∧
      (last.step.result = none → ∀ deadline state world report after,
        world.ledger.isRunning id = last.step.world.ledger.isRunning id →
        last.step.run.expire deadline (context.withState state) world = (.ok report, after) →
        (after.ledger.isRunning id ↔
          id ∈ Process.inFlightOf context.session.id last.step.run.members)) := by
  obtain ⟨horderly, hunopened⟩ := Process.orderly_ofTask habstains hcheck
  obtain ⟨hlast, hover, hcount⟩ := h.inFlight horderly (hunopened.inFlight_eq horderly _) halone
  refine ⟨fun hdone => ?_, fun hopen deadline state world report after hsame hexpire => ?_⟩
  · rw [hover hdone] at hcount
    simpa using hcount
  · obtain ⟨gate, own, hstage⟩ := h.stage_of_none rfl hopen
    have hcount' : (world.ledger.isRunning id).toNat = ((Process.workflow last.step.run).inFlight
        (context.withState state).session.id).count id := hsame ▸ hcount
    exact @isRunning_expire (context.withState state) _ _ _ _ _ _ _ _ hstage hcount' hexpire

/-- A watch keeps a ledger of its own, and the patrol below it uses the shared one. -/
def watch : Workflow (Task Body) where
  plan := ⟨"watch", "default", .parallel 1, 100, false⟩
  members :=
    [(⟨"patrol", none, some "p", none⟩, .workflow
      ⟨⟨"patrol", "default", .parallel 1, 100, true⟩,
        [(⟨"scout", none, some "found", none⟩,
          .leaf (.pause 50 (.emit (.text "scout" "fog") .finish)))]⟩)]

/-- The session of a watch. -/
def watchContext : Context := ⟨⟨"s", "u", "a", .empty⟩, 0, none⟩

/-- The only stretch of a watch before its deadline. -/
def watchFirst : Stretch Process :=
  ⟨.at 0, .empty, .start 100, watch.start.give Process.poll (.at 0)
    (watchContext.withState .empty) (.start 100)⟩

theorem watch_abstains : (Task.workflow watch).All (Body.Abstains "s-sub-0") := by
  refine .workflow _ fun patrol hpatrol => ?_
  obtain rfl := List.mem_singleton.1 hpatrol
  refine .workflow _ fun scout hscout => ?_
  obtain rfl := List.mem_singleton.1 hscout
  exact .leaf _ trivial

theorem watch_alone : Alone "s-sub-0" [watchFirst] where
  first := by
    intro first hfirst
    obtain rfl := Option.some.inj hfirst
    rfl
  between := .singleton _

theorem expire_watch : ∃ report after,
    watchFirst.step.run.expire 10 (watchContext.withState .empty) watchFirst.step.world =
      (.ok report, after) ∧ report.status = .cancelled := by
  have hstatus : (watchFirst.step.run.expire 10 (watchContext.withState .empty)
      watchFirst.step.world).1.toOption.map (·.status) = some .cancelled := by decide +kernel
  obtain ⟨report, hreport, hcancelled⟩ := Option.map_eq_some_iff.1 hstatus
  generalize watchFirst.step.run.expire 10 _ _ = expired at hreport ⊢
  obtain ⟨result, after⟩ := expired
  cases result with
  | error => cases hreport
  | ok =>
    obtain rfl := Option.some.inj hreport
    exact ⟨_, after, rfl, hcancelled⟩

theorem running_after_deadline_iff_watch : ∃ report after,
    (Task.workflow watch).check = .ok () ∧ (Task.workflow watch).All (Body.Abstains "s-sub-0") ∧
      History Process.poll watchContext watch.start [watchFirst] ∧
      Alone "s-sub-0" [watchFirst] ∧ watchFirst.step.result = none ∧
      watchFirst.step.run.expire 10 (watchContext.withState .empty) watchFirst.step.world =
        (.ok report, after) ∧
      after.ledger.isRunning "s-sub-0" := by
  have h : History Process.poll watchContext watch.start [watchFirst] := .first _ _ _
  have hopen : watchFirst.step.result = none := Option.isNone_iff_eq_none.1 (by decide +kernel)
  obtain ⟨report, after, hexpire, -⟩ := expire_watch
  have hiff := (running_after_deadline_iff rfl watch_abstains h watch_alone).2 hopen 10 .empty
    watchFirst.step.world report after rfl hexpire
  exact ⟨report, after, rfl, watch_abstains, h, watch_alone, hopen, hexpire,
    hiff.2 (by decide +kernel)⟩

/-- The watch is cancelled in time, with a report, and the record of the patrol that it
brought into the shared ledger is running for good. -/
theorem patrol_left_running : (World.start 100).ledger.get? "s-sub-0" = none ∧
    ∃ finish report record, watch.run 1 (some 10) watchContext (.start 100) = some finish ∧
      finish.result = .ok report ∧ report.status = .cancelled ∧
      finish.world.ledger.get? "s-sub-0" = some record ∧ record.status = .running := by
  refine ⟨rfl, ?_⟩
  have hrun : (watch.run 1 (some 10) watchContext (.start 100)).map (fun finish =>
      (finish.result.toOption.map (·.status),
        (finish.world.ledger.get? "s-sub-0").map (·.status))) =
      some (some .cancelled, some .running) := by decide +kernel
  obtain ⟨finish, hfinish, hboth⟩ := Option.map_eq_some_iff.1 hrun
  obtain ⟨hstatus, hrecord⟩ := Prod.mk.inj hboth
  obtain ⟨report, hreport, hcancelled⟩ := Option.map_eq_some_iff.1 hstatus
  obtain ⟨record, hget, hrunning⟩ := Option.map_eq_some_iff.1 hrecord
  cases hresult : finish.result with
  | error error => rw [hresult] at hreport; cases hreport
  | ok answer =>
    rw [hresult] at hreport
    obtain rfl := Option.some.inj hreport
    exact ⟨finish, answer, record, hfinish, hresult, hcancelled, hget, hrunning⟩

end Run

end Coordination
