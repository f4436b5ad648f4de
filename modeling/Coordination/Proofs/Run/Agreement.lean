import Coordination.Proofs.Run.Steady
import Coordination.Proofs.Run.Telling
import Coordination.Proofs.Run.Tracing
import Coordination.Proofs.Run.Verdict

/-!
# Two runs of one workflow

A workflow may be run in several orders, and by every order in many ways. How a
member settles depends on the course of its task alone, so two runs in which the
tasks take the same course come to the same end, but for times.

* `Settles.congr`: sub-tasks settle alike whose tasks concur;
* `Run.standing_eq`, `Run.Untouched.of_map`: members and histories side by side.
-/

namespace Coordination

variable {σ : Type}

/-- The workflow in another order. -/
def Workflow.inOrder (workflow : Workflow σ) (order : Order) : Workflow σ :=
  ⟨{ workflow.plan with order }, workflow.members⟩

@[simp] theorem Workflow.isKeyed_inOrder (workflow : Workflow σ) (order : Order) :
    (workflow.inOrder order).isKeyed = workflow.isKeyed := rfl

/-! ## Members -/

section Settles

variable {behave : σ → Poll σ} {workflow : Workflow σ} {order order' : Order}
  {maxValueBytes index : Nat} {context : Context} {definition : Definition} {task : σ}
  {values values' : KeyMap String} {settlement settlement' : Settlement} {traced traced' : Traced σ}

/-- How a sub-task settles does not depend on the order of its workflow otherwise
than through the values from which it starts. -/
theorem Settles.inOrder {alone : Prop}
    (h : Settles behave alone ((workflow.inOrder order).terms maxValueBytes context) index
      definition task values settlement traced) :
    Settles behave alone (workflow.terms maxValueBytes context) index definition task values
      settlement traced := by
  cases h with
  | unfilled error hexpand => exact .unfilled error hexpand
  | ended instruction _ last hexpand hcourse hended =>
    exact .ended instruction traced last hexpand hcourse hended

/-- A sub-task settles alike from any values that give it the same instruction, if
its task then concurs. -/
theorem Settles.congr {terms : Terms}
    (h : Settles behave True terms index definition task values settlement traced)
    (h' : Settles behave True terms index definition task values' settlement' traced')
    (hexpand : Member.expand definition values = Member.expand definition values')
    (hconcurs : ∀ instruction, Member.expand definition values = .ok instruction →
      Concurs behave task (terms.session index values instruction)
        (terms.session index values' instruction)) :
    settlement = settlement' := by
  cases h with
  | unfilled error herror =>
    cases h' with
    | unfilled error' herror' =>
      rw [← hexpand, herror] at herror'
      cases herror'
      rfl
    | ended _ _ _ hok' =>
      rw [← hexpand, herror] at hok'
      cases hok'
  | ended instruction _ last hok hcourse hended =>
    cases h' with
    | unfilled _ herror' =>
      rw [← hexpand, hok] at herror'
      cases herror'
    | ended instruction' _ last' hok' hcourse' hended' =>
      rw [← hexpand, hok] at hok'
      cases hok'
      obtain ⟨hevents, houtcome⟩ := hconcurs instruction hok _ _ _ _ hcourse hcourse' hended hended'
      rw [hevents, houtcome]

end Settles

/-! ## Runs -/

namespace Run

variable {behave : σ → Poll σ} {workflow : Workflow σ} {order order' : Order} {context : Context}

/-- Members stand alike whose places have the same definitions and have settled alike. -/
theorem standing_eq {members members' : List (Member (Traced σ))}
    (h : Carries behave (workflow.inOrder order) members)
    (h' : Carries behave (workflow.inOrder order') members')
    (hsettled : ∀ (index : Nat) (member member' : Member (Traced σ)),
      members[index]? = some member → members'[index]? = some member' →
      member'.definition = member.definition →
      member.phase.settlement? = member'.phase.settlement?) :
    members.map Member.standing = members'.map Member.standing := by
  have hdefinitions : members.map (·.definition) = members'.map (·.definition) :=
    h.definitions.trans h'.definitions.symm
  refine List.ext_getElem? fun index => ?_
  have hindex := congrArg (·[index]?) hdefinitions
  simp only [List.getElem?_map] at hindex ⊢
  cases hget : members[index]? with
  | none =>
    rw [hget] at hindex
    cases hget' : members'[index]? with
    | none => rfl
    | some member' => simp [hget'] at hindex
  | some member =>
    rw [hget] at hindex
    cases hget' : members'[index]? with
    | none => simp [hget'] at hindex
    | some member' =>
      have hdefinition : member'.definition = member.definition := by
        simpa [hget', eq_comm] using hindex
      rw [Option.map_some, Option.map_some, Member.standing, Member.standing, hdefinition,
        hsettled index member member' hget hget' hdefinition]

/-- Nobody writes into the session of a run, whatever is forgotten of its tasks. -/
theorem Untouched.of_map {τ : Type} {f : σ → τ} {initial : KeyMap String}
    {history : List (Stretch σ)} (h : Untouched initial (history.map (·.map f))) :
    Untouched initial history where
  first := by
    intro first hfirst
    exact h.first (first.map f) (by rw [List.getLast?_map, hfirst, Option.map_some])
  between := List.isChain_of_isChain_map _ (fun _ _ => id) h.between

end Run

end Coordination
