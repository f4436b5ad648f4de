import Coordination.Proofs.Run.OneSession
import Coordination.Proofs.Run.Progress

/-!
# Fair runs are over at last

In a run one after another that is not over after a stretch the first member that has
not settled is under way (`Run.running_of_give`). So not only a run side by side, but
every run in which whoever is let in comes to an end is over at last
(`Run.Fair.comes_to_end`).
-/

namespace Coordination

variable {σ : Type}

namespace Run

section Stretch

variable {behave : σ → Poll σ} {run : Run σ} {turn : Turn} {context : Context} {world : World}

/-- Among members of whom some have not settled there is a first such. -/
theorem exists_first_unsettled {members : List (Member σ)}
    (h : ¬ ∀ member ∈ members, member.phase.settlement?.isSome) :
    ∃ (index : Nat) (member : Member σ), members[index]? = some member ∧
      member.phase.settlement? = none ∧
      ∀ other ∈ members.take index, other.phase.settlement?.isSome := by
  cases hfind : members.find? fun member => member.phase.settlement?.isNone with
  | none =>
    refine absurd (fun member hmem => ?_) h
    simpa [Option.isSome_iff_ne_none] using List.find?_eq_none.1 hfind member hmem
  | some member =>
    obtain ⟨hnone, before, after, rfl, hbefore⟩ := List.find?_eq_some_iff_append.1 hfind
    refine ⟨before.length, member, by simp, by simpa using hnone, fun other hother => ?_⟩
    rw [List.take_left] at hother
    simpa [Option.isSome_iff_ne_none] using hbefore other hother

/-- Some member of a run one after another that is not over after a stretch is under way. -/
theorem running_of_give (horder : run.plan.order = .sequential) (hstage : run.stage ≠ .closed)
    (hresult : (run.give behave turn context world).result = none) :
    ∃ (index : Nat) (member : Member σ),
      (run.give behave turn context world).run.members[index]? = some member ∧
        member.phase.isRunning := by
  obtain ⟨floor, hentry⟩ := (entry_of_none hstage hresult).1
  rw [give_of_entry hentry, visitAll_eq] at hresult
  rw [members_give, visits_of_entry hentry]
  obtain ⟨left, hleft⟩ : ∃ left, Visit.membersLeft run.members
    (Member.visits behave ⟨run.plan, context, turn⟩ [] floor run.members) = left := ⟨_, rfl⟩
  rw [hleft] at hresult ⊢
  split at hresult
  next hconclude =>
    rw [horder, conclude] at hconclude
    split at hconclude
    next => cases hconclude
    next hnone =>
      have hopen : ¬ ∀ member ∈ left, member.phase.settlement?.isSome := by
        simpa using hconclude
      obtain ⟨index, member, hget, hunsettled, hbefore⟩ := exists_first_unsettled hopen
      have hpasses : ∀ other ∈ left.take index, other.passes .sequential := by
        intro other hother
        obtain ⟨settlement, hsettled⟩ := Option.isSome_iff_exists.1 (hbefore other hother)
        have hsucceeded := firstFailure?_eq_none_iff.1 hnone other (List.mem_of_mem_take hother)
        simp [Member.passes, hsettled, hsucceeded settlement hsettled]
      have hstarted := @Member.started_of_visits _ behave ⟨run.plan, context, turn⟩ horder [] floor
        run.members left hleft index member (by simpa using hget) (by simpa using hpasses)
      refine ⟨index, member, hget, ?_⟩
      cases hphase : member.phase <;>
        simp [hphase, Phase.hasStarted, Phase.settlement?] at hstarted hunsettled
      rfl
  next => cases hresult

end Stretch

section Fair

variable {behave : σ → Poll σ} {workflow : Workflow σ} {context : Context} {driver : Driver σ}
  {history : List (Stretch σ)}

/-- A run one after another that is not over is not stuck: some member is under way. -/
theorem History.running_sequential {last : Stretch σ} {past : List (Stretch σ)}
    (h : History behave context (ofWorkflow workflow) (last :: past))
    (horder : workflow.plan.order = .sequential) (hresult : last.step.result = none) :
    ∃ (index : Nat) (member : Member σ), last.step.run.members[index]? = some member ∧
      member.phase.isRunning := by
  cases h with
  | first turn state world =>
    have hfresh : (ofWorkflow workflow).stage ≠ .closed := by simp [ofWorkflow]
    exact running_of_give horder hfresh hresult
  | @next earlier before h hopen turn state world =>
    obtain ⟨gate, own, hstage⟩ := h.stage_of_none rfl hopen
    have horder' : earlier.step.run.plan.order = .sequential :=
      (congrArg Plan.order h.plan_latest).trans horder
    exact running_of_give horder' (by simp [hstage]) hresult

/-- A run, side by side or one after another, in which whoever is let in comes to an end
and whoever is handed a slot comes back for it is over at last. -/
theorem Fair.comes_to_end (hfair : Fair behave context (ofWorkflow workflow) driver) :
    ∃ count, isOver (drive behave context (ofWorkflow workflow) driver count) := by
  cases horder : workflow.plan.order with
  | parallel workers => exact hfair.exists_isOver horder
  | sequential =>
    refine exists_isOver_of_more fun hnever count => ?_
    have h := history_drive behave context (ofWorkflow workflow) driver count
    have hopen := hnever (count + 1)
    rw [drive_succ (hnever count)] at h hopen
    obtain ⟨index, member, hget, hrunning⟩ :=
      h.running_sequential horder (isOver_cons.1 hopen)
    have hdriven : (driven behave context (ofWorkflow workflow) driver
        (count + 1)).members[index]? = some member := by
      rw [driven, drive_succ (hnever count)]
      exact hget
    obtain ⟨later, hle, hsettled⟩ := hfair.finishes (count + 1) index member hdriven hrunning
    obtain ⟨later, rfl⟩ : ∃ before, later = before + 1 := ⟨later - 1, by omega⟩
    refine ⟨later, by omega, _, .inr rfl,
      countP_brings_lt rfl lasting_isSettled (by omega) ?_ hsettled⟩
    rw [reached, hdriven, Option.any_some]
    cases hphase : member.phase <;> simp [hphase, Phase.isRunning] at hrunning
    rfl

end Fair

end Run

end Coordination
