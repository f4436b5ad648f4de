import Coordination.Proofs.Run.Conduct
import Coordination.Proofs.Run.Line
import Coordination.Proofs.Run.Measuring

/-!
# Members at their tasks

The members of a run carry out tasks that stay within a licence, in the session of the run
or in sessions made from it (`Engaged`). So every visit leaves them, and each stretch that it
gives to a task stays within the licence.

* `Engaged.visited`: a visit;
* `engaged_open`: the members of a run that has just been opened.
-/

namespace Coordination

variable {σ : Type}

/-- Whoever is under way after a visit had not settled before. -/
theorem Member.Visited.unsettled {scope : Scope} {index : Nat} {poll : Poll σ} {floor : Floor}
    {member : Member σ} {after : Floor × Member σ}
    (h : Visited scope index poll floor member after) {access : Access} {events : List Event}
    (hrunning : after.2.phase = .running access events) : member.phase.settlement? = none := by
  cases h with
  | stays => rw [hrunning]; rfl
  | waits _ hphase | proceeds _ _ _ hphase => rw [hphase]; rfl
  | starts _ _ hphase => rcases hphase with hphase | hphase <;> rw [hphase] <;> rfl

namespace Run

/-- The members of a run carry out tasks of which `B` holds, in sessions with these ids:
sessions of their own in a run with output keys, and else that of the run. -/
structure Engaged (sessions : String → Prop) (B : σ → Prop) (workflow : Workflow σ) (id : String)
    (floor : Floor) (members : List (Member (Traced σ))) : Prop where
  keyed : floor.keyed = workflow.isKeyed
  definitions : members.map (·.definition) = workflow.members.map (·.1)
  tasks : ∀ member ∈ members, B member.process.task
  sessions : ∀ member ∈ members, ∀ access events, member.phase = .running access events →
    sessions (access.sessionId id)
  own : ∀ member ∈ members, ∀ access events, member.phase = .running access events →
    access.isOwn = workflow.isKeyed

variable {behave : σ → Poll σ} {workflow : Workflow σ} {context : Context} {licence : Licence}
  {sessions : String → Prop} {B : σ → Prop} {id : String}

theorem Engaged.any_isSome {floor : Floor} {members : List (Member (Traced σ))}
    (h : Engaged sessions B workflow id floor members) :
    floor.keyed = members.any fun member => member.definition.outputKey.isSome :=
  h.keyed.trans (any_isSome_of_definitions h.definitions).symm

theorem Engaged.resume {floor : Floor} {members : List (Member (Traced σ))}
    (h : Engaged sessions B workflow id floor members) (state : KeyMap String) (world : World) :
    Engaged sessions B workflow id { floor with state, world } members :=
  ⟨h.keyed, h.definitions, h.tasks, h.sessions, h.own⟩

/-- A success is appended in a run with output keys, and in no other. -/
theorem Engaged.publishes {floor : Floor} {members : List (Member (Traced σ))}
    (h : Engaged sessions B workflow id floor members) {member : Member (Traced σ)}
    (hmem : member ∈ members) :
    member.publishes floor.keyed = (member.phase.settlement?.isNone && workflow.isKeyed) := by
  unfold Member.publishes
  cases hphase : member.phase with
  | idle | waiting => simp [Phase.settlement?, h.keyed]
  | running access events => simp [Phase.settlement?, h.own member hmem access events hphase]
  | settled => simp [Phase.settlement?]

/-- A visit leaves the members at their tasks, and what it gives to a task stays within the
licence. -/
theorem Engaged.visited {visit : Visit (Traced σ)} {stretch : Stretch (Traced σ)}
    (h : Engaged sessions B workflow context.session.id visit.floor visit.members)
    (hbehave : ∀ task, B task → (behave task).Heeds licence sessions B)
    (hstart : ∀ index, sessions (Member.startId workflow.isKeyed context.session.id index))
    (hof : visit.Of (Traced.poll behave) workflow.plan context stretch) :
    Engaged sessions B workflow context.session.id visit.after.1 visit.left ∧
      (∀ exchange ∈ visit.exchanges, exchange.world.Becomes licence exchange.advance.world) ∧
      ∃ opening closing, Member.Told behave sessions visit.scope visit.floor visit.member
        visit.after visit.exchanges opening closing := by
  have hget := visit.getElem?_members
  have hmember := List.mem_of_getElem? hget
  have htask := h.tasks _ hmember
  obtain ⟨opening, closing, htold⟩ := hof.told (by rw [h.keyed]; exact hstart _)
    (h.sessions _ hmember)
  have hid : visit.scope.context.session.id = context.session.id := by rw [hof.scope]; rfl
  have habides : Floor.Abides False visit.floor visit.after.1 :=
    hof.visited.abides visit.floor fun hfalse => hfalse.elim
  have hheeds : ∀ exchange ∈ visit.exchanges,
      exchange.world.Becomes licence exchange.advance.world ∧ B exchange.advance.process := by
    intro exchange hmem
    obtain ⟨hadvance, -, hsession⟩ := htold.works exchange hmem
    rw [hadvance]
    exact hbehave _ htask exchange.turn exchange.context exchange.world hsession
  refine ⟨⟨habides.keyed.trans h.keyed, ?_, fun member hmem => ?_, fun member hmem => ?_,
    fun member hmem => ?_⟩, fun exchange hmem => (hheeds exchange hmem).1, opening, closing, htold⟩
  · rw [visit.left_eq_set, map_definition_set hget hof.visited.polled.1]
    exact h.definitions
  · rw [visit.left_eq_set] at hmem
    rcases List.mem_or_eq_of_mem_set hmem with hold | rfl
    · exact h.tasks member hold
    · -- Its task is as the last of its stretches has left it.
      rw [htold.task]
      exact Exchange.taskLeft_of htask fun exchange hexchange => (hheeds exchange hexchange).2
  · rw [visit.left_eq_set] at hmem
    rcases List.mem_or_eq_of_mem_set hmem with hold | rfl
    · exact h.sessions member hold
    · exact hid ▸ htold.session
  · rw [visit.left_eq_set] at hmem
    rcases List.mem_or_eq_of_mem_set hmem with hold | rfl
    · exact h.own member hold
    · intro access events hphase
      have hunsettled : visit.member.phase.settlement?.isNone := by
        rw [hof.visited.unsettled hphase]
        rfl
      rw [htold.own access events hphase, h.publishes hmember, hunsettled, Bool.true_and]

theorem definitions_traced (workflow : Workflow σ) :
    (ofWorkflow workflow.traced).members.map (·.definition) = workflow.members.map (·.1) := by
  rw [definitions_ofWorkflow, Workflow.traced, List.map_map]
  rfl

/-- The members of a run that has just been opened have not begun. -/
theorem engaged_open {world : World} {floor : Floor}
    (htasks : ∀ member ∈ workflow.members, B member.2)
    (h : (ofWorkflow workflow.traced).open context world = .ok floor) :
    Engaged sessions B workflow id floor (ofWorkflow workflow.traced).members := by
  obtain ⟨recorded, hrecorded, hopened⟩ := open_eq_ok h
  have hkeyed := (putUpGate_eq_ok hopened).1.keyed.trans (createRecord_abides hrecorded).keyed
  have hidle : ∀ member ∈ (ofWorkflow workflow.traced).members,
      member.phase = .idle ∧ B member.process.task := by
    intro member hmem
    obtain ⟨index, hget⟩ := List.mem_iff_getElem?.1 hmem
    obtain ⟨definition, task, htask, rfl⟩ := getElem?_members_ofWorkflow hget
    exact ⟨rfl, htasks _ (List.mem_of_getElem? htask)⟩
  refine ⟨hkeyed.trans (any_isSome_of_definitions (definitions_traced workflow)),
    definitions_traced workflow, fun member hmem => (hidle member hmem).2, ?_, ?_⟩ <;>
  · intro member hmem access events hphase
    rw [(hidle member hmem).1] at hphase
    cases hphase

end Run

end Coordination
