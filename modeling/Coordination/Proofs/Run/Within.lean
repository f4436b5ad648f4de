import Coordination.Proofs.Run.Conduct
import Coordination.Proofs.Run.Expiry

/-!
# What a tree of tasks does to its surroundings

A tree of tasks that is carried out in a session works in this session and in those made
from it. It stays within a licence that covers its runs there and the operations of its
bodies (`Process.Within`), in every stretch and when it is dropped.

* `Process.Within.poll`: a stretch of a tree;
* `Process.Within.abandon`: dropping it;
* `Process.within_ofTask`: a tree before its start.
-/

namespace Coordination

/-- Whether something is so of all workflows in a tree. -/
inductive Task.Workflows {β : Type} (p : Workflow (Task β) → Prop) : Task β → Prop
  | leaf (body : β) : Workflows p (.leaf body)
  | workflow (workflow : Workflow (Task β)) (h : p workflow)
      (hmembers : ∀ member ∈ workflow.members, Workflows p member.2) :
    Workflows p (.workflow workflow)

namespace Task

variable {β : Type}

theorem Workflows.imp {p q : Workflow (Task β) → Prop} {task : Task β} (h : task.Workflows p)
    (hpq : ∀ workflow, p workflow → q workflow) : task.Workflows q := by
  induction h with
  | leaf body => exact .leaf body
  | workflow workflow h _ ih => exact .workflow workflow (hpq workflow h) ih

theorem Workflows.all {p : Workflow (Task β) → Prop} {q : β → Prop} {task : Task β}
    (h : task.Workflows p) (hq : ∀ body, q body) : task.All q := by
  induction h with
  | leaf body => exact .leaf body (hq body)
  | workflow workflow _ _ ih => exact .workflow workflow ih

theorem All.workflows {p : Workflow (Task β) → Prop} {q : β → Prop} {task : Task β}
    (h : task.All q) (hp : ∀ workflow, p workflow) : task.Workflows p := by
  induction h with
  | leaf body => exact .leaf body
  | workflow workflow _ ih => exact .workflow workflow (hp workflow) ih

theorem All.of_mem {p : β → Prop} {workflow : Workflow (Task β)}
    (h : (Task.workflow workflow).All p) {member : Definition × Task β}
    (hmem : member ∈ workflow.members) : member.2.All p := by
  cases h with
  | workflow _ hmembers => exact hmembers member hmem

theorem All.imp {p q : β → Prop} {task : Task β} (h : task.All p)
    (hpq : ∀ body, p body → q body) : task.All q := by
  induction h with
  | leaf body h => exact .leaf body (hpq body h)
  | workflow workflow _ ih => exact .workflow workflow ih

end Task

/-- Whether the surroundings have changed by measurements alone, each of which is such. -/
def World.Meters (Q : Measurement → Prop) (before after : World) : Prop :=
  ∃ measured, after = before.measure measured ∧ ∀ measurement ∈ measured, Q measurement

theorem World.Meters.refl {Q : Measurement → Prop} (world : World) : world.Meters Q world :=
  ⟨[], world.measure_nil.symm, fun _ hmem => absurd hmem List.not_mem_nil⟩

theorem World.Meters.trans {Q : Measurement → Prop} {a b c : World} (h : a.Meters Q b)
    (h' : b.Meters Q c) : a.Meters Q c := by
  obtain ⟨first, rfl, hfirst⟩ := h
  obtain ⟨second, rfl, hsecond⟩ := h'
  exact ⟨first ++ second, a.measure_measure first second,
    List.forall_mem_append.2 ⟨hfirst, hsecond⟩⟩

namespace Process

/-- Whether a tree of tasks stays within a licence, in sessions of these ids: it covers its
runs there, and the operations of its bodies. -/
inductive Within (licence : Licence) (sessions : String → Prop) : Process → Prop
  | leaf (leaf : Leaf) (h : leaf.body.Performs licence.op) : Within licence sessions (.leaf leaf)
  | workflow (run : Run Process) (hcovers : ∀ id, sessions id → licence.Covers run.plan id)
      (hown : ∀ gate own, run.stage = .open gate (some own) →
        own.Named fun _ held => held = run.plan.name)
      (hsessions : ∀ member ∈ run.members, ∀ draft context events,
        member.phase = .running (.own draft context) events → sessions context.session.id)
      (hmembers : ∀ member ∈ run.members, Within licence sessions member.process) :
    Within licence sessions (.workflow run)

variable {licence : Licence} {sessions : String → Prop}

theorem Within.minds {run : Run Process} (h : (Process.workflow run).Within licence sessions) :
    run.Minds sessions (Within licence sessions) := by
  cases h with
  | workflow _ _ hown hsessions hmembers =>
    exact ⟨hown, fun member hmem => ⟨hmembers member hmem, hsessions member hmem⟩⟩

/-- A tree of tasks stays within its licence in every stretch. -/
theorem Within.poll {process : Process} (h : process.Within licence sessions)
    (hchild : ∀ id index, sessions id → sessions (Context.childId id index)) :
    process.poll.Heeds licence sessions (Within licence sessions) := by
  induction h with
  | leaf leaf h =>
    intro turn context world _
    obtain ⟨hperforms, hbecomes⟩ := leaf.poll_becomes h turn context world
    exact ⟨hbecomes, .leaf _ hperforms⟩
  | workflow run hcovers hown hsessions hmembers ih =>
    intro turn context world hsession
    have hminds := (Within.workflow run hcovers hown hsessions hmembers).minds
    obtain ⟨hbecomes, hafter⟩ := Run.give_conducts turn world
      (hcovers _ hsession) hsession (fun index => hchild _ index hsession) ih hminds
    have hplan := Run.plan_give Process.poll run turn context world
    rw [poll_workflow, world_ofStep, process_ofStep]
    refine ⟨hbecomes, .workflow _ (fun id hid => hplan ▸ hcovers id hid) hafter.own ?_ ?_⟩
    · exact fun member hmem => (hafter.members member hmem).session
    · exact fun member hmem => (hafter.members member hmem).task

/-- To drop the members of a run makes such measurements, if to drop each of them does. -/
theorem meters_foldl_abandons {Q : Measurement → Prop}
    {drop : World → Member Process × Run.Abandon → World} {members : List (Member Process)}
    (hdrop : ∀ member ∈ members, ∀ world : World,
      world.Meters Q (drop world (member, member.process.abandon))) (world : World) :
    world.Meters Q ((members.zip (abandons members)).foldl drop world) := by
  rw [abandons_eq_map]
  induction members generalizing world with
  | nil => exact .refl world
  | cons member rest ih =>
    obtain ⟨hmember, hrest⟩ := List.forall_mem_cons.1 hdrop
    exact (hmember world).trans (ih hrest _)

/-- So it does when it is dropped: that makes measurements, and else nothing. -/
theorem Within.abandon {process : Process} (h : process.Within licence sessions) (id : String)
    (hid : sessions id) (world : World) :
    world.Meters licence.measurement (process.abandon world) := by
  induction h generalizing world with
  | leaf => exact .refl world
  | workflow run hcovers _ _ _ ih =>
    have hname : ∀ (world : World) (measurement : Measurement),
        measurement.workflow = run.plan.name →
          world.Meters licence.measurement (world.measure [measurement]) := by
      refine fun world measurement hname => ⟨_, rfl, List.forall_mem_singleton.2 ?_⟩
      exact (hcovers id hid).measurement measurement hname
    show world.Meters _ (run.abandon (abandons run.members) world)
    unfold Run.abandon
    split
    · split
      · refine meters_foldl_abandons (fun member hmem world => ?_) world
        unfold Run.abandonMember
        split
        · exact hname world _ rfl
        · exact (ih member hmem world).trans (hname _ _ rfl)
        · exact .refl world
      · refine meters_foldl_abandons (fun member hmem world => ?_) world
        unfold Run.abandonInLine
        split
        · exact ih member hmem world
        · exact .refl world
    · exact .refl world

/-- A tree stays within a licence that covers its workflows, and its bodies' operations. -/
theorem within_ofTask {task : Task Body}
    (hplans : task.Workflows fun workflow => ∀ id, sessions id → licence.Covers workflow.plan id)
    (hbodies : task.All (Body.Performs licence.op)) : (ofTask task).Within licence sessions := by
  induction hbodies with
  | leaf body h => exact .leaf _ h
  | workflow workflow h ih =>
    cases hplans with
    | workflow _ hcovers hmembers =>
      have hidle : ∀ member ∈ workflow.start.members, member.phase = .idle ∧
          member.process.Within licence sessions := by
        intro member hmem
        rw [Workflow.start, Run.ofWorkflow, ofMembers_eq_map, List.map_map, List.mem_map] at hmem
        obtain ⟨below, hbelow, rfl⟩ := hmem
        exact ⟨rfl, ih below hbelow (hmembers below hbelow)⟩
      refine .workflow workflow.start hcovers (fun _ _ hstage => by cases hstage) ?_ ?_
      · intro member hmem draft context events hphase
        rw [(hidle member hmem).1] at hphase
        cases hphase
      · exact fun member hmem => (hidle member hmem).2

end Process

end Coordination
