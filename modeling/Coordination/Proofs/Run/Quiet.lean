import Coordination.Proofs.Context.Ids
import Coordination.Proofs.Run.Account
import Coordination.Proofs.Run.Within

/-!
# Runs whose tasks are not heard of

Commits are measured under the name that their record bears. So nothing is heard from the
tasks of a run under its name if no workflow below it bears the name, no body brings a
record under it into the shared ledger, and none commits to the record that the run has
there (`Ledger.Op.Avoids`).

* `Run.History.quiet`: so it is in every stretch of a run;
* `Process.quiet_ofTask`: trees of tasks that are not heard of.
-/

namespace Coordination

variable {σ : Type}

/-- Whether a run of a workflow, in a session with this id, has its record at this place of
the shared ledger. -/
def Workflow.KeepsAt (workflow : Workflow σ) (id target : String) : Prop :=
  workflow.isKeyed ∧ workflow.plan.sharesLedger ∧ target = id

/-- Whether an operation brings in no record under a name, and no commit at a place that is
kept. -/
def Ledger.Op.Avoids (name : String) (kept : String → Prop) : Ledger.Op → Prop
  | .create _ _ workflowName _ => workflowName ≠ name
  | .commit id _ _ => ¬ kept id
  | _ => True

/-- Whether records bear a name only at places that are kept. -/
def Ledger.BearsOnly (name : String) (kept : String → Prop) (ledger : Ledger) : Prop :=
  ledger.Named fun id held => held = name → kept id

/-- What tasks may do that are not to be heard of under a name. -/
def Licence.quiet (name : String) (kept : String → Prop) : Licence where
  measurement := fun measurement => measurement.workflow ≠ name
  op := Ledger.Op.Avoids name kept

variable {name : String} {kept : String → Prop}

theorem World.Becomes.quiet {before after : World}
    (h : before.Becomes (.quiet name kept) after) (hbears : before.ledger.BearsOnly name kept) :
    after.ledger.BearsOnly name kept ∧ ∃ measured, before.Measures after measured ∧
      ∀ measurement ∈ measured, measurement.workflow ≠ name := by
  refine h.invariant (fun _ => id) (fun ledger now op havoids hledger => ⟨?_, ?_⟩) hbears
  · refine hledger.apply (fun id owner held «namespace» hcreate hname => ?_) now
    subst hcreate
    exact absurd hname havoids
  · intro measurement hmem hname
    obtain ⟨id, draft, value, rfl, hkept⟩ := hledger.measurementsOf hmem
    exact havoids (hkept hname)

/-- What a run does as its members settle leaves the names in the ledger as they are. -/
theorem Ledger.Noted.named {R : String → String → Prop} {id : String} {before after : Ledger}
    (h : Noted id before after) (hnamed : before.Named R) : after.Named R := by
  cases h with
  | unchanged => exact hnamed
  | commit now | recordFailure now =>
    exact hnamed.apply (fun _ _ _ _ hcreate => by cases hcreate) now

namespace Run

/-- Opening a run brings no record into the shared ledger but its own. -/
theorem Opens.bearsOnly {run : Run σ} {context : Context} {before after : Ledger}
    (h : Opens run context before after)
    (hkept : run.isKeyed → run.plan.sharesLedger → kept context.session.id)
    (hbears : before.BearsOnly name kept) : after.BearsOnly name kept := by
  cases h with
  | unchanged => exact hbears
  | created hkeyed hshares now =>
    refine hbears.apply (fun id owner held «namespace» hcreate _ => ?_) now
    cases hcreate
    exact hkept hkeyed hshares

variable {behave : σ → Poll σ} {workflow : Workflow σ} {context : Context}
  {history : List (Stretch (Traced σ))} {sessions : String → Prop} {B : σ → Prop}

/-- A visit keeps a ledger in which only the run's own record bears its name, and nothing is
heard under the name from a task that keeps to it. -/
theorem Engaged.quiet {visit : Visit (Traced σ)} {stretch : Stretch (Traced σ)}
    (h : Engaged sessions B workflow context.session.id visit.floor visit.members)
    (hbehave : ∀ task, B task → (behave task).Heeds
      (.quiet workflow.plan.name (workflow.KeepsAt context.session.id)) sessions B)
    (hstart : ∀ index, sessions (Member.startId workflow.isKeyed context.session.id index))
    (hof : visit.Of (Traced.poll behave) workflow.plan context stretch)
    (hbears : visit.floor.world.ledger.BearsOnly workflow.plan.name
      (workflow.KeepsAt context.session.id)) :
    Engaged sessions B workflow context.session.id visit.after.1 visit.left ∧
      visit.after.1.world.ledger.BearsOnly workflow.plan.name
        (workflow.KeepsAt context.session.id) ∧
      ∀ measurement ∈ visit.heard, measurement.workflow ≠ workflow.plan.name := by
  obtain ⟨hnext, hbecomes, opening, closing, htold⟩ := h.visited hbehave hstart hof
  have hquiet : ∀ exchange ∈ visit.exchanges,
      exchange.advance.world.ledger.BearsOnly workflow.plan.name
        (workflow.KeepsAt context.session.id) ∧
      ∀ measurement ∈ exchange.measured, measurement.workflow ≠ workflow.plan.name := by
    intro exchange hexchange
    obtain ⟨-, hledger, -⟩ := htold.works exchange hexchange
    obtain ⟨hafter, measured, hmeasures, hnames⟩ :=
      (hbecomes exchange hexchange).quiet (hledger ▸ hbears)
    obtain ⟨-, rfl⟩ := Exchange.extends_of_measures hmeasures
    exact ⟨hafter, hnames⟩
  refine ⟨hnext, htold.ledger.named ?_, fun measurement hheard => ?_⟩
  · exact Exchange.ledgerLeft_of hbears fun exchange hexchange => (hquiet exchange hexchange).1
  · obtain ⟨exchange, hexchange, hmeasured⟩ := List.mem_flatMap.1 hheard
    exact (hquiet exchange hexchange).2 measurement hmeasured

/-- Nothing is heard under the name of a run from tasks that keep to it. -/
theorem History.quiet
    (h : History (Traced.poll behave) context (ofWorkflow workflow.traced) history)
    (hbehave : ∀ task, B task → (behave task).Heeds
      (.quiet workflow.plan.name (workflow.KeepsAt context.session.id)) sessions B)
    (hstart : ∀ index, sessions (Member.startId workflow.isKeyed context.session.id index))
    (htasks : ∀ member ∈ workflow.members, B member.2)
    (hledgers : ∀ stretch ∈ history, stretch.world.ledger.BearsOnly workflow.plan.name
      (workflow.KeepsAt context.session.id)) :
    ∀ visit ∈ log (Traced.poll behave) context (ofWorkflow workflow.traced) history,
      ∀ measurement ∈ visit.heard, measurement.workflow ≠ workflow.plan.name := by
  have hall := (h.log_invariant
    (P := fun _ floor members => Engaged sessions B workflow context.session.id floor members ∧
      floor.world.ledger.BearsOnly workflow.plan.name (workflow.KeepsAt context.session.id))
    (S := fun _ world => world.ledger.BearsOnly workflow.plan.name
      (workflow.KeepsAt context.session.id))
    (R := fun _ _ _ later => later.ledger.BearsOnly workflow.plan.name
      (workflow.KeepsAt context.session.id))
    rfl (fun _ floor members hP => hP.1.any_isSome) ?_ ?_ ?_ ?_ ?_).1
  · intro visit hmem
    obtain ⟨hengaged, hbears⟩ := hall visit hmem
    obtain ⟨stretch, -, hof⟩ := h.of_mem_log hmem
    exact (hengaged.quiet hbehave hstart hof hbears).2.2
  · refine fun state world floor hbears hopen => ⟨engaged_open htasks hopen,
      (open_shared hopen).bearsOnly (fun hkeyed hshares => ⟨?_, hshares, rfl⟩) hbears⟩
    rwa [← any_isSome_of_definitions (definitions_traced workflow)]
  · rintro visit hmem ⟨hengaged, hbears⟩
    obtain ⟨stretch, -, hof⟩ := h.of_mem_log hmem
    obtain ⟨hnext, hafter, -⟩ := hengaged.quiet hbehave hstart hof hbears
    exact ⟨hnext, hafter⟩
  · exact fun first hfirst => hledgers first (List.mem_of_getLast? hfirst)
  · refine List.Pairwise.isChain (List.Pairwise.imp_of_mem (fun hlater _ _ => hledgers _ hlater)
      (List.pairwise_of_forall (R := fun _ _ => True) fun _ _ => trivial))
  · exact fun _ floor members state world hP hlater => ⟨hP.1.resume state world, hlater⟩

end Run

/-! ## Trees -/

/-- Whether an id is longer than all that are kept, as those of the sessions below them are. -/
def LongerThan (kept : String → Prop) (id : String) : Prop :=
  ∀ target, kept target → target.length < id.length

theorem LongerThan.childId {id : String} (h : LongerThan kept id) (index : Nat) :
    LongerThan kept (Context.childId id index) := fun target hkept =>
  (h target hkept).trans (Context.length_lt_childId id index)

theorem Licence.quiet_covers {plan : Plan} (hname : plan.name ≠ name) {id : String}
    (hlonger : LongerThan kept id) : (Licence.quiet name kept).Covers plan id where
  measurement := fun measurement hsame heard => hname (hsame.symm.trans heard)
  op := by
    rintro op (_ | _ | _ | _)
    · exact hname
    · exact fun hkept => absurd (hlonger id hkept) (Nat.lt_irrefl _)
    · trivial
    · trivial

namespace Process

/-- A tree of tasks is not heard of that keeps to the name and to the record of a run. -/
theorem quiet_ofTask {task : Task Body}
    (hplans : task.Workflows fun workflow => workflow.plan.name ≠ name)
    (hbodies : task.All (Body.Performs (Ledger.Op.Avoids name kept))) :
    (ofTask task).Within (.quiet name kept) (LongerThan kept) :=
  within_ofTask (hplans.imp fun _ hname _ hlonger => Licence.quiet_covers hname hlonger) hbodies

end Process

end Coordination
