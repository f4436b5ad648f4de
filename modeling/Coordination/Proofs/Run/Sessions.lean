import Coordination.Proofs.Run.Nesting
import Coordination.Proofs.Run.Separation
import Coordination.Proofs.Run.Successes

/-!
# A tree of runs in one ledger

The runs of a tree that all have output keys and all use the shared ledger create their
records there side by side, each under an id that tells its path in the tree. If the ledger
has no record of the family of the root, and nobody else makes one, no run is refused its
record, and each finds under its id what its own members have done and nothing else, in
whatever order the members of the tree are given their stretches (`Run.KeptApart`).

* `Run.History.arrives`: every stretch of such a run leaves it under way, or brings it to its
  end;
* `Exchange.Sole.reserved`: the ids below a place are left to the run there;
* `Run.kept_apart`: a run and all below it, by induction on the tree;
* `Run.sessions_apart`: the ids of a tree, and its runs.
-/

namespace Coordination

/-- The stretches of a task that is a run are a history of the run, to which those ids are left
that nobody else has touched, if there was nothing there. -/
theorem Exchange.Sole.reserved {ids : String → Prop} {before after : Ledger} {start : Context}
    {past : List (Exchange Process)} {nested : List (Stretch (Traced Process))}
    (h : Exchange.Sole ids before past after)
    (hpast : past.reverse = nested.map fun stretch => (stretch.map (·.task)).exchange start)
    (hfree : ∀ id, ids id → before.get? id = none) : Run.Reserved ids nested where
  free := by
    intro first hfirst id hid
    have hhead : past.head? = some ((first.map (·.task)).exchange start) := by
      rw [← List.getLast?_reverse, hpast, List.getLast?_map, hfirst, Option.map_some]
    rw [← hfree id hid]
    exact h.first _ hhead id hid
  between := by
    have hchain := List.isChain_reverse.2 h.between
    rw [hpast, List.isChain_map] at hchain
    refine hchain.imp fun later earlier hsame => ?_
    rw [Stretch.exchange, Process.world_ofStep] at hsame
    exact hsame

namespace Run

/-! ## Runs that are kept apart -/

/-- A run finds in the shared ledger, under its id, what its own members have done, and gives
them no other outputs. -/
structure Finds (plan : Plan) (id : String) (floor : Floor)
    (members : List (Member (Traced Process))) : Prop where
  shared : floor.ledger = floor.world.ledger
  record : ∃ record, floor.ledger.get? id = some record ∧
    floor.ledger.outputsOf id = .ok record.outputs ∧ Accord plan id members record

/-- A stretch of a run does not fail, and leaves in the shared ledger, under the id of the run,
what its own members have done. -/
inductive Keeps (plan : Plan) (id : String) (step : Step (Traced Process)) : Prop
  /-- The run is not over. -/
  | underway (record : Record) (haccord : Accord plan id step.run.members record)
      (hresult : step.result = none) (hget : step.world.ledger.get? id = some record)
  /-- The run is over, and returns its record. -/
  | ended (record : Record) (now : Timestamp) (verdict : Verdict) (report : Report)
      (haccord : Accord plan id step.run.members record)
      (hresult : step.result = some (.ok report))
      (hget : step.world.ledger.get? id = some (record.settle now verdict))
      (hreport : report.record = some (record.settle now verdict))

mutual

/-- A run at a path below a root and all runs below it are kept apart: each works in the session
of its path, finds and leaves under its id only what its own members have done, and fails
neither in a stretch nor at its deadline. -/
inductive KeptApart (root : String) :
    List Nat → Workflow (Task Body) → Context → List (Stretch (Traced Process)) → Prop
  | intro {path : List Nat} {workflow : Workflow (Task Body)} {context : Context}
      {history : List (Stretch (Traced Process))}
      (hsession : context.session.id = Context.pathId root path)
      (hvisits : ∀ visit ∈ log (Traced.poll Process.poll) context
          (ofWorkflow workflow.processes.traced) history,
        Finds workflow.plan context.session.id visit.floor visit.members)
      (hstretches : ∀ stretch ∈ history, Keeps workflow.plan context.session.id stretch.step)
      (hdeadline : ∀ stretch ∈ history, stretch.step.result = none →
        ∀ (deadline : Nat) (state : KeyMap String) (later : World),
          later.ledger.get? context.session.id =
            stretch.step.world.ledger.get? context.session.id →
          let run := (stretch.step.map (·.task)).run
          ∃ record now, Accord workflow.plan context.session.id stretch.step.run.members record ∧
            (run.expire deadline (context.withState state) later).1 =
              .ok (cutReport run.members (record.settle now .cancelled)))
      (hbelow : ∀ (index : Nat) (definition : Definition) (inner : Workflow (Task Body)),
        workflow.members[index]? = some (definition, .workflow inner) →
        ∀ stretch ∈ history, ∀ member, stretch.step.run.members[index]? = some member →
          member.process.past ≠ [] →
            CarriedApart root (path ++ [index]) inner member.process.past) :
    KeptApart root path workflow context history

/-- The stretches that a task was given are those of a run that is kept apart, and so are all
runs below it. -/
inductive CarriedApart (root : String) :
    List Nat → Workflow (Task Body) → List (Exchange Process) → Prop
  | intro {path : List Nat} {workflow : Workflow (Task Body)} {past : List (Exchange Process)}
      (start : Context) (nested : List (Stretch (Traced Process)))
      (hhistory : History (Traced.poll Process.poll) start
        (ofWorkflow workflow.processes.traced) nested)
      (hpast : past.reverse = nested.map fun stretch => (stretch.map (·.task)).exchange start)
      (hkept : KeptApart root path workflow start nested) :
    CarriedApart root path workflow past

end

/-! ## Histories -/

section Histories

variable {workflow : Workflow Process} {context : Context}
  {history : List (Stretch (Traced Process))}

theorem Underway.finds {floor : Floor} {members : List (Member (Traced Process))} {id : String}
    (h : Underway Process.poll workflow id floor members) (hshares : workflow.plan.sharesLedger) :
    Finds workflow.plan id floor members := by
  obtain ⟨record, hrecord, haccord⟩ := h.accord
  refine ⟨?_, record, hrecord, Ledger.outputsOf_of_get? hrecord, haccord⟩
  rw [Floor.ledger, h.own_eq_none_iff.2 hshares, Option.getD_none]

theorem Arrives.keeps {id : String} {step : Step (Traced Process)}
    (h : Arrives (Underway Process.poll workflow id) workflow.plan id step)
    (hshares : workflow.plan.sharesLedger) : Keeps workflow.plan id step := by
  rcases h with ⟨floor, members, hunder, -, rfl⟩ |
    ⟨floor, after, members, result, hunder, hconclude, rfl⟩
  · obtain ⟨hledger, record, hrecord, -, haccord⟩ := hunder.finds hshares
    exact .underway record haccord rfl (hledger ▸ hrecord)
  · obtain ⟨record, hrecord, haccord⟩ := hunder.accord
    obtain ⟨report, now, verdict, rfl, hreport, hget, hown⟩ := hunder.settles hrecord hconclude
    have hnone : after.own = none := by
      rw [← Option.not_isSome_iff_eq_none, hown, Option.not_isSome_iff_eq_none]
      exact hunder.own_eq_none_iff.2 hshares
    rw [Floor.ledger, hnone, Option.getD_none] at hget
    exact .ended record now verdict report haccord rfl hget hreport

/-- At its deadline it returns its record, too. -/
theorem Arrives.expires {step : Step (Traced Process)}
    (h : Arrives (Underway Process.poll workflow context.session.id) workflow.plan
      context.session.id step)
    (hkeyed : workflow.isKeyed = true) (hopen : step.result = none) (deadline : Nat)
    (state : KeyMap String) {later : World}
    (hlater : later.ledger.get? context.session.id = step.world.ledger.get? context.session.id) :
    let run := (step.map (·.task)).run
    ∃ record now, Accord workflow.plan context.session.id step.run.members record ∧
      (run.expire deadline (context.withState state) later).1 =
        .ok (cutReport run.members (record.settle now .cancelled)) := by
  intro run
  rcases h with ⟨floor, members, hunder, -, hstep⟩ | ⟨_, _, _, _, -, -, hstep⟩
  · obtain ⟨record, hrecord, haccord⟩ := hunder.accord
    obtain ⟨now, hexpire⟩ := hunder.expires hkeyed hrecord hstep deadline state fun _ => hlater
    refine ⟨record, now, ?_, hexpire⟩
    rw [hstep]
    exact haccord
  · rw [hstep] at hopen
    cases hopen

variable (hcheck : workflow.check = .ok ()) (hkeyed : workflow.isKeyed = true)
  (h : History (Traced.poll Process.poll) context (ofWorkflow workflow.traced) history)
  (hmembers : ∀ member ∈ workflow.members, ∀ index, member.2.Within
    (.below context.session.id index) (Context.Family (Context.childId context.session.id index)))
  (hreserved : Reserved (Context.Family context.session.id) history)
include hkeyed h hmembers hreserved

include hcheck in
/-- No stretch is refused: the run creates its record where there is none. -/
theorem History.arrives : ∀ stretch ∈ history,
    Arrives (Underway Process.poll workflow context.session.id) workflow.plan context.session.id
      stretch.step := by
  have hundisturbed := h.undisturbed hkeyed hmembers hreserved
  intro stretch hmem
  obtain ⟨last, past, rfl⟩ := List.exists_cons_of_ne_nil (List.ne_nil_of_mem hmem)
  rcases List.mem_cons.1 hmem with rfl | hpast
  · rcases h.underway_latest hcheck hkeyed (fun _ => hundisturbed) rfl with
      harrives | ⟨honly, refusal, hopen⟩
    · exact harrives
    · have hfree := hreserved.free stretch (by rw [honly]; rfl) _ (.refl _)
      have hopens : ∃ floor, (ofWorkflow workflow.traced).open
          (context.withState stretch.state) stretch.world = .ok floor :=
        open_traced_of_free hcheck fun _ _ => hfree
      obtain ⟨floor, hfloor⟩ := hopens
      rw [hfloor] at hopen
      cases hopen
  · have hopen := h.result_of_mem stretch hpast
    rcases (h.underway hcheck hkeyed fun _ => hundisturbed).2 stretch hmem with
      ⟨_, _, -, hstep⟩ | harrives
    · rw [hstep] at hopen
      cases hopen
    · exact harrives

/-- What a member has been given that is a run is a history of it, in the session of its place,
to which the ids below the place are left. -/
theorem History.nested {index : Nat} {definition : Definition} {inner : Workflow Process}
    (hinner : workflow.members[index]? = some (definition, .workflow (ofWorkflow inner))) :
    ∀ stretch ∈ history, ∀ member, stretch.step.run.members[index]? = some member →
      member.process.past ≠ [] → ∃ start nested,
        start.session.id = Context.childId context.session.id index ∧
        History (Traced.poll Process.poll) start (ofWorkflow inner.traced) nested ∧
        (member.process.past.reverse =
          nested.map fun stretch => (stretch.map (·.task)).exchange start) ∧
        Reserved (Context.Family (Context.childId context.session.id index)) nested := by
  intro stretch hmem member hget hsome
  obtain ⟨first, hfirst⟩ : ∃ first, history.getLast? = some first :=
    ⟨_, List.getLast?_eq_some_getLast (List.ne_nil_of_mem hmem)⟩
  rcases (h.lodged hkeyed hmembers hreserved hfirst stretch hmem).members with hfresh |
    ⟨_, hlodged⟩
  · rw [hfresh] at hget
    obtain ⟨_, _, -, rfl⟩ := getElem?_members_ofWorkflow hget
    exact absurd rfl hsome
  · obtain ⟨task, htask, hmember⟩ := hlodged.lodged index member hget
    obtain rfl := (Prod.mk.inj (Option.some.inj (hinner.symm.trans htask))).2
    rcases hmember.course with hfresh | ⟨start, last, hstart, hcourse⟩
    · exact absurd (congrArg Traced.past hfresh) hsome
    · obtain ⟨latest, past, hcarried⟩ := hcourse.run
      obtain ⟨nested, hnested, hmap⟩ := hcarried.history.exists_traced
      have hpast : member.process.past.reverse =
          nested.map fun stretch => (stretch.map (·.task)).exchange start := by
        rw [hcarried.exchanges, ← hmap, List.map_map]
        rfl
      refine ⟨start, nested, hstart, hnested, hpast, hmember.sole.reserved hpast ?_⟩
      exact fun id hfamily => hreserved.free first hfirst id hfamily.of_childId

end Histories

/-! ## Trees -/

/-- A run and all below it are kept apart, by induction on the tree. -/
theorem kept_apart {root : String} {task : Task Body}
    (hplans : task.Workflows fun workflow => workflow.isKeyed ∧ workflow.plan.sharesLedger) :
    ∀ (workflow : Workflow (Task Body)), task = .workflow workflow →
      ∀ (path : List Nat) (context : Context) (history : List (Stretch (Traced Process))),
        context.session.id = Context.pathId root path →
        (Task.workflow workflow).check = .ok () →
        (Task.workflow workflow).All (Body.Performs fun op =>
          ∀ id, Context.Family context.session.id id → op.Leaves id) →
        History (Traced.poll Process.poll) context (ofWorkflow workflow.processes.traced) history →
        Reserved (Context.Family context.session.id) history →
        KeptApart root path workflow context history := by
  induction hplans with
  | leaf => exact fun _ hleaf => by cases hleaf
  | workflow workflow hplan _ ih =>
    rintro _ ⟨⟩ path context history hsession hchecked hbodies h hreserved
    obtain ⟨hcheckMembers, hchecked⟩ := Task.check_workflow hchecked
    have hcheck := Workflow.check_processes.trans hchecked
    have hkeyed := Workflow.isKeyed_processes.trans hplan.1
    have hshares : workflow.processes.plan.sharesLedger = true := hplan.2
    have hmembers := Workflow.forall_mem_processes
      (p := fun process => ∀ index, process.Within (.below context.session.id index)
        (Context.Family (Context.childId context.session.id index)))
      fun member hmem => Process.below_ofTask (hbodies.of_mem hmem)
    have hundisturbed := h.undisturbed hkeyed hmembers hreserved
    have harrives := h.arrives hcheck hkeyed hmembers hreserved
    refine .intro hsession ?_ ?_ ?_ ?_
    · exact fun visit hmem =>
        ((h.underway hcheck hkeyed fun _ => hundisturbed).1 visit hmem).finds hshares
    · exact fun stretch hmem => (harrives stretch hmem).keeps hshares
    · exact fun stretch hmem hopen deadline state later =>
        (harrives stretch hmem).expires hkeyed hopen deadline state
    · -- The run at a place has the ids below it to itself, so it is kept apart in its turn.
      intro index definition inner hinner stretch hmem member hget hsome
      obtain ⟨start, nested, hstart, hnested, hpast, hfree⟩ := h.nested hkeyed hmembers hreserved
        (Workflow.getElem?_processes_ofTask hinner) stretch hmem member hget hsome
      have hinnerMem := List.mem_of_getElem? hinner
      rw [← hstart] at hfree
      refine .intro start nested hnested hpast
        (ih _ hinnerMem inner rfl (path ++ [index]) start nested ?_ ?_ ?_ hnested hfree)
      · rw [hstart, hsession, Context.pathId_concat]
      · exact Task.check_of_mem hcheckMembers hinnerMem
      · refine (hbodies.of_mem hinnerMem).imp fun body hbody => hbody.imp fun op hop id => ?_
        rw [hstart]
        exact fun hfamily => hop id hfamily.of_childId

/-- The id of a session tells the one it was made from and the place there, so no two paths
below a root lead to the same id, and none back to that of the root. Hence a tree of runs that
all have output keys and all use one ledger is kept apart there, however its stretches
interleave, if the ledger holds no record of the family of its root, the bodies make none, and
nobody else touches one. -/
theorem sessions_apart :
    (∀ (parent parent' : String) (index index' : Nat),
      Context.childId parent index = Context.childId parent' index' →
        parent = parent' ∧ index = index') ∧
    (∀ (root : String) (path path' : List Nat), path ≠ path' →
      Context.pathId root path ≠ Context.pathId root path') ∧
    (∀ (root : String) (path : List Nat), path ≠ [] → Context.pathId root path ≠ root) ∧
    ∀ (workflow : Workflow (Task Body)) (context : Context)
      (history : List (Stretch (Traced Process))),
      (Task.workflow workflow).check = .ok () →
      (Task.workflow workflow).Workflows
        (fun inner => inner.isKeyed ∧ inner.plan.sharesLedger) →
      (Task.workflow workflow).All (Body.Performs fun op =>
        ∀ id, Context.Family context.session.id id → op.Leaves id) →
      History (Traced.poll Process.poll) context (ofWorkflow workflow.processes.traced) history →
      Reserved (Context.Family context.session.id) history →
      KeptApart context.session.id [] workflow context history := by
  refine ⟨?_, ?_, ?_, ?_⟩
  · exact fun parent parent' index index' hsame => Context.childId_inj.1 hsame
  · exact fun root path path' hne hsame => hne (Context.pathId_inj.1 hsame)
  · exact fun root path hne => Context.pathId_ne root hne
  · intro workflow context history hcheck hplans hbodies h hreserved
    exact kept_apart hplans workflow rfl [] context history rfl hcheck hbodies h hreserved

/-- One of two waits, and the other is a workflow again, with one sub-task that waits. -/
def expedition : Workflow (Task Body) where
  plan := ⟨"expedition", "road", .parallel 2, 100, true⟩
  members :=
    [(⟨"scout", none, some "path", none⟩, .leaf (.pause 5 (.emit (.text "scout" "left") .finish))),
      (⟨"carts", none, none, none⟩, .workflow
        ⟨⟨"carts", "road", .sequential, 100, true⟩,
          [(⟨"load", none, some "goods", none⟩,
            .leaf (.emit (.text "load" "salt") (.pause 5 .finish)))]⟩)]

/-- The session of the expedition. -/
def expeditionContext : Context := ⟨⟨"s", "u", "a", .empty⟩, 0, none⟩

/-- A stretch of the expedition at a time. -/
def expeditionStretch (run : Run (Traced Process)) (world : World) (clock : Nat) :
    Stretch (Traced Process) :=
  ⟨.at clock, .empty, { world with clock }, run.give (Traced.poll Process.poll) (.at clock)
    (expeditionContext.withState .empty) { world with clock }⟩

/-- The first stretch of the expedition: both wait. -/
def expeditionFirst : Stretch (Traced Process) :=
  expeditionStretch (ofWorkflow expedition.processes.traced) (.start 100) 0

/-- The second and last. -/
def expeditionLast : Stretch (Traced Process) :=
  expeditionStretch expeditionFirst.step.run expeditionFirst.step.world 5

theorem expedition_workflows : (Task.workflow expedition).Workflows
    fun inner => inner.isKeyed ∧ inner.plan.sharesLedger := by
  refine .workflow _ (by decide) (List.forall_mem_cons.2 ⟨.leaf _, List.forall_mem_singleton.2 ?_⟩)
  exact .workflow _ (by decide) (List.forall_mem_singleton.2 (.leaf _))

theorem expedition_performs (p : Ledger.Op → Prop) :
    (Task.workflow expedition).All (Body.Performs p) := by
  refine .workflow _ (List.forall_mem_cons.2 ⟨.leaf _ trivial, List.forall_mem_singleton.2 ?_⟩)
  exact .workflow _ (List.forall_mem_singleton.2 (.leaf _ trivial))

theorem expedition_history : History (Traced.poll Process.poll) expeditionContext
    (ofWorkflow expedition.processes.traced) [expeditionLast, expeditionFirst] :=
  .next (.first _ _ _) (Option.isNone_iff_eq_none.1 (by decide +kernel)) _ _ _

/-- Nobody else touches the ledger between two stretches. -/
theorem expedition_reserved {first : Stretch (Traced Process)}
    (hempty : first.world.ledger = .empty 100) (clock : Nat) :
    Reserved (Context.Family "s")
      [expeditionStretch first.step.run first.step.world clock, first] where
  free := by
    intro earliest hearliest id _
    obtain rfl : first = earliest := by simpa using hearliest
    rw [hempty, Ledger.get?_empty]
  between := List.isChain_pair.2 (.refl _ _)

theorem sessions_apart_expedition :
    (expeditionLast.step.result.isSome ∧
      ["s", "s-sub-1"].map (fun id =>
          (expeditionLast.step.world.ledger.get? id).map (·.workflowName)) =
        [some "expedition", some "carts"]) ∧
    KeptApart "s" [] expedition expeditionContext [expeditionLast, expeditionFirst] := by
  refine ⟨by decide +kernel, ?_⟩
  exact sessions_apart.2.2.2 expedition expeditionContext _ rfl expedition_workflows
    (expedition_performs _) expedition_history (expedition_reserved rfl 5)

end Run

end Coordination
