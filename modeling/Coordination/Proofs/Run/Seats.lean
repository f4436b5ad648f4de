import Coordination.Proofs.Run.Course
import Coordination.Proofs.Run.Session

/-!
# Whose session it is

In a run with output keys a member works, if at all, at its own task and in a session whose id
tells the run and the place of the member there, from its first stretch to its last
(`Member.Seated`).

* `Member.Seated.visited`: a visit keeps a member in its session.
-/

namespace Coordination

variable {σ : Type}

/-- A member works at its task, if at all, in a session of its own with this id. -/
structure Member.Seated (behave : σ → Poll σ) (id : String) (task : σ)
    (member : Member (Traced σ)) : Prop where
  course : member.process = .fresh task ∨ ∃ start last, start.session.id = id ∧
    Course behave False task start member.process last
  unstarted : member.phase.hasStarted = false → member.process = .fresh task
  running : ∀ access events, member.phase = .running access events →
    ∃ draft start state last, access = .own draft (start.withState state) ∧
      start.session.id = id ∧ Course behave False task start member.process last ∧
      last.advance.outcome = .pending

namespace Member

variable {behave : σ → Poll σ} {id : String} {task : σ} {floor : Floor}
  {member : Member (Traced σ)} {after : Floor × Member (Traced σ)}

theorem seated_fresh (behave : σ → Poll σ) (id : String) (definition : Definition) (task : σ) :
    (⟨definition, .idle, .fresh task⟩ : Member (Traced σ)).Seated behave id task :=
  ⟨.inl rfl, fun _ => rfl, fun _ _ hphase => by cases hphase⟩

/-- Whoever is given a stretch in its session stays there. -/
theorem Works.seated {draft : Draft} {start : Context} {state : KeyMap String}
    {events : List Event} {turn : Turn} {world : World}
    (h : Works draft (start.withState state) events floor member
      (Traced.poll behave member.process turn (start.withState state) world) after)
    (hid : start.session.id = id)
    (hcourse : Course behave False task start after.2.process
      ⟨turn, start.withState state, world,
        behave member.process.task turn (start.withState state) world⟩) :
    after.2.Seated behave id task := by
  refine ⟨.inr ⟨start, _, hid, hcourse⟩, fun hunstarted => ?_, fun access events' hphase => ?_⟩
  · rcases h.phase with hphase | hsettled
    · rw [hphase] at hunstarted
      cases hunstarted
    · rw [hasStarted_of_settled hsettled] at hunstarted
      cases hunstarted
  · have hpending := h.pending (by rw [hphase]; rfl)
    rcases h.phase with hrunning | hsettled
    · obtain ⟨rfl, -⟩ := Phase.running.inj (hphase.symm.trans hrunning)
      exact ⟨draft, start, _, _, rfl, hid, hcourse, hpending⟩
    · rw [hphase] at hsettled
      cases hsettled

/-- A visit keeps a member in its session. -/
theorem Seated.visited {scope : Scope} {index : Nat}
    (h : member.Seated behave (Context.childId scope.context.session.id index) task)
    (hkeyed : floor.keyed = true)
    (hvisited : Visited scope index (Traced.poll behave member.process) floor member after) :
    after.2.Seated behave (Context.childId scope.context.session.id index) task := by
  cases hvisited with
  | stays => exact h
  | waits left hphase =>
    have hfresh := h.unstarted (by rw [hphase]; rfl)
    exact ⟨h.course, fun _ => hfresh, fun _ _ hwaits => by cases hwaits⟩
  | starts entered left hphase hentered =>
    have hfresh : member.process = .fresh task :=
      h.unstarted (by rcases hphase with hphase | hphase <;> rw [hphase] <;> rfl)
    have hbegins := start_begins scope index (Traced.poll behave member.process) entered member
      (hentered.keyed.trans hkeyed)
    cases hbegins with
    | refused error _ _ hafter =>
      rw [hafter]
      refine ⟨.inl hfresh, fun hunstarted => ?_, fun _ _ hrunning => ?_⟩
      · cases hunstarted
      · cases hrunning
    | given outputs instruction draft context world _ _ hcontext hworks =>
      have hid : context.session.id = Context.childId scope.context.session.id index := by
        rw [hcontext]
        rfl
      have hworks : Works draft (context.withState context.state) [] entered member
        (Traced.poll behave member.process (scope.turn.below index)
          (context.withState context.state) world) _ := hworks
      refine hworks.seated hid ?_
      rw [hworks.process, hfresh]
      exact .first (scope.turn.below index) world
  | proceeds access events left hphase =>
    obtain ⟨draft, start, state, last, rfl, hid, hcourse, hpending⟩ :=
      h.running access events hphase
    have hworks := proceed_works scope index (Traced.poll behave member.process) floor member draft
      (start.withState state) events
    have hnext := hcourse.next hpending (scope.turn.below index) state floor.world fun halone =>
      halone.elim
    exact hworks.seated hid (hworks.process ▸ hnext)

end Member

end Coordination
