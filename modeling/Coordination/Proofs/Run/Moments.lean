import Coordination.Proofs.Run.Underway

/-!
# The moments of a run with output keys

At every visit, and at the end of every stretch, the members of a run with
output keys are apart from each other, and its record is in accord with them,
provided that nobody else touches the record. So it is whether the members go
on side by side or one after another, and in whatever order they do.

* `History.apart`, `History.underway`, `History.underway_account`: what is so at every moment;
* `History.leads`: what every stretch of a parallel run comes to.
-/

namespace Coordination

variable {σ : Type}

namespace Run

variable {behave : σ → Poll σ} {workflow : Workflow σ} {id : String} {context : Context}
  {history : List (Stretch (Traced σ))}

/-- The members of a run with output keys are always apart, and no stretch
before the end changes the values of the run's session. -/
theorem History.apart (hkeyed : workflow.isKeyed = true)
    (h : History (Traced.poll behave) context (ofWorkflow workflow.traced) history) :
    (∀ visit ∈ log (Traced.poll behave) context (ofWorkflow workflow.traced) history,
      Apart behave workflow visit.floor visit.members ∧
        visit.floor.state = visit.scope.context.state) ∧
      ∀ stretch ∈ history, Comes (fun floor members =>
        Apart behave workflow floor members ∧ floor.state = stretch.state)
        (ofWorkflow workflow.traced) context stretch := by
  refine h.log_induction (P := fun current floor members =>
    Apart behave workflow floor members ∧ floor.state = current.state)
    (R := fun _ _ => True) rfl ?_ ?_ ?_ ?_ ?_
  · exact fun _ floor members hP => hP.1.keyed.trans (hP.1.carries.any_isSome.trans hkeyed).symm
  · exact fun state world floor hopen => apart_open behave hkeyed hopen
  · intro visit hmem hP
    obtain ⟨stretch, -, hof⟩ := h.of_mem_log hmem
    obtain ⟨hapart, hkept⟩ := hP.1.visited hof
    exact ⟨hapart, hkept.state.trans hP.2⟩
  · exact (List.pairwise_of_forall fun _ _ => trivial).isChain
  · exact fun _ floor members state world hP _ => ⟨hP.1.resume state world, rfl⟩

/-- Until its end, a run with output keys leaves the values of its session alone. -/
theorem History.state_of_none (hkeyed : workflow.isKeyed = true)
    (h : History (Traced.poll behave) context (ofWorkflow workflow.traced) history) :
    ∀ stretch ∈ history, stretch.step.result = none → stretch.step.state = stretch.state := by
  intro stretch hmem hopen
  rcases (h.apart hkeyed).2 stretch hmem with ⟨_, _, -, hstep⟩ | ⟨⟨_, _, ⟨-, hstate⟩, -, hstep⟩ |
    ⟨_, _, _, _, -, -, hstep⟩⟩
  · simp [hstep] at hopen
  · rw [hstep, hstate]
  · simp [hstep] at hopen

/-- A run with output keys is under way until its end, provided that nobody else
touches its record. Without the shared ledger nobody can. Only its first stretch may
not open it. What else every visit goes on with, of the visits so far, and whatever
happens between two stretches keeps, is so all along. -/
theorem History.underway_account
    {P : List (Visit (Traced σ)) → Floor → List (Member (Traced σ)) → Prop}
    (hcheck : workflow.check = .ok ()) (hkeyed : workflow.isKeyed = true)
    (h : History (Traced.poll behave) context (ofWorkflow workflow.traced) history)
    (hundisturbed : workflow.plan.sharesLedger → Undisturbed context.session.id history)
    (hopen : ∀ state world floor,
      (ofWorkflow workflow.traced).open (context.withState state) world = .ok floor →
      P [] floor (ofWorkflow workflow.traced).members)
    (hvisit : ∀ stretch ∈ history, ∀ (visit : Visit (Traced σ)) before,
      visit.Of (Traced.poll behave) workflow.plan context stretch →
      Underway behave workflow context.session.id visit.floor visit.members →
      P before visit.floor visit.members → P (before ++ [visit]) visit.after.1 visit.left)
    (hresume : ∀ before floor members state world, P before floor members →
      ({ floor with state, world } : Floor).ledger.get? context.session.id =
        floor.ledger.get? context.session.id →
      P before { floor with state, world } members) :
    let told := fun before floor members =>
      Underway behave workflow context.session.id floor members ∧ P before floor members
    (∀ visit ∈ log (Traced.poll behave) context (ofWorkflow workflow.traced) history,
      ∃ before, told before visit.floor visit.members) ∧
      (∀ stretch ∈ history, ∃ before,
        Comes (told before) (ofWorkflow workflow.traced) context stretch) ∧
      ∀ last, history.head? = some last →
        Arrives (told (log (Traced.poll behave) context (ofWorkflow workflow.traced) history))
            workflow.plan context.session.id last.step ∨
          history = [last] ∧
            log (Traced.poll behave) context (ofWorkflow workflow.traced) history = [] ∧
            ∃ refusal, (ofWorkflow workflow.traced).open (context.withState last.state) last.world =
                .error refusal ∧
              last.step = ⟨{ ofWorkflow workflow.traced with stage := .closed }, last.state,
                refusal.2, some (.error refusal.1)⟩ := by
  intro told
  refine h.log_account (P := fun before _ floor members => told before floor members)
    (S := fun _ _ => True)
    (R := fun _ before _ after => workflow.plan.sharesLedger →
      after.ledger.get? context.session.id = before.ledger.get? context.session.id)
    rfl ?_ ?_ ?_ ?_ ?_ ?_
  · exact fun _ _ floor members hP =>
      hP.1.keyed.trans (hP.1.carries.any_isSome.trans hkeyed).symm
  · intro state world floor _ hopened
    have hunder := underway_open behave hcheck hkeyed hopened
    exact ⟨hunder, hopen state world floor hopened⟩
  · rintro visit hmem before ⟨hunder, hP⟩
    obtain ⟨stretch, hstretch, hof⟩ := h.of_mem_log hmem
    exact ⟨hunder.visited hof fun hshares => (hundisturbed hshares).within stretch hstretch,
      hvisit stretch hstretch visit before hof hunder hP⟩
  · exact fun _ _ => trivial
  · by_cases hshares : workflow.plan.sharesLedger
    · exact (hundisturbed hshares).between.imp fun _ _ hsame _ => hsame
    · exact (List.pairwise_of_forall fun _ _ hshares' => absurd hshares' hshares).isChain
  · rintro before _ floor members state world ⟨hunder, hP⟩ hsame
    exact ⟨hunder.resume state hsame, hresume before floor members state world hP <|
      floor.get?_ledger_withWorld fun hown => hsame (hunder.own_eq_none_iff.1 hown)⟩

section Underway

variable (hcheck : workflow.check = .ok ()) (hkeyed : workflow.isKeyed = true)
  (h : History (Traced.poll behave) context (ofWorkflow workflow.traced) history)
  (hundisturbed : workflow.plan.sharesLedger → Undisturbed context.session.id history)
include hcheck hkeyed h hundisturbed

/-- So it is at every visit, and so every stretch leaves it. -/
theorem History.underway :
    (∀ visit ∈ log (Traced.poll behave) context (ofWorkflow workflow.traced) history,
      Underway behave workflow context.session.id visit.floor visit.members) ∧
      ∀ stretch ∈ history, Comes (Underway behave workflow context.session.id)
        (ofWorkflow workflow.traced) context stretch := by
  obtain ⟨hvisits, hstretches, -⟩ := h.underway_account (P := fun _ _ _ => True) hcheck hkeyed
    hundisturbed (fun _ _ _ _ => trivial) (fun _ _ _ _ _ _ _ => trivial)
    fun _ _ _ _ _ _ _ => trivial
  refine ⟨fun visit hmem => ?_, fun stretch hmem => ?_⟩
  · obtain ⟨_, hunder, -⟩ := hvisits visit hmem
    exact hunder
  · obtain ⟨_, hcomes⟩ := hstretches stretch hmem
    exact hcomes.imp fun _ _ => And.left

/-- So the latest stretch leaves it, unless it is the only one and does not open it. -/
theorem History.underway_latest {last : Stretch (Traced σ)} (hlast : history.head? = some last) :
    Arrives (Underway behave workflow context.session.id) workflow.plan context.session.id
        last.step ∨
      history = [last] ∧ ∃ refusal, (ofWorkflow workflow.traced).open
        (context.withState last.state) last.world = .error refusal := by
  rcases (h.underway_account (P := fun _ _ _ => True) hcheck hkeyed hundisturbed
    (fun _ _ _ _ => trivial) (fun _ _ _ _ _ _ _ => trivial)
    fun _ _ _ _ _ _ _ => trivial).2.2 last hlast with harrives | ⟨honly, -, refusal, hopen, -⟩
  · exact .inl (harrives.imp fun _ _ => And.left)
  · exact .inr ⟨honly, refusal, hopen⟩

end Underway

/-! ## Stretches -/

/-- What a stretch of a run with output keys may come to. -/
inductive Leads (behave : σ → Poll σ) (workflow : Workflow σ) (id : String)
    (stretch : Stretch (Traced σ)) : Prop
  /-- The run is not opened. -/
  | refused (error : RunError) (hresult : stretch.step.result = some (.error error))
  /-- The run is under way, and nobody has written into its session. -/
  | underway (floor : Floor) (hunder : Underway behave workflow id floor stretch.step.run.members)
      (hstage : stretch.step.run.stage = .open floor.gate floor.own)
      (hplan : stretch.step.run.plan = workflow.plan) (hstate : stretch.step.state = stretch.state)
      (hworld : stretch.step.world = floor.world) (hresult : stretch.step.result = none)
  /-- The run is over. -/
  | closed (report : Report) (hresult : stretch.step.result = some (.ok report))
      (hcloses : Closes behave workflow id stretch.step.run.members report)

namespace Leads

variable {stretch : Stretch (Traced σ)} (h : Leads behave workflow id stretch)
include h

theorem of_none (hopen : stretch.step.result = none) :
    ∃ floor, Underway behave workflow id floor stretch.step.run.members ∧
      stretch.step.run.stage = .open floor.gate floor.own ∧
      stretch.step.run.plan = workflow.plan ∧ stretch.step.state = stretch.state ∧
      stretch.step.world = floor.world := by
  cases h with
  | refused error hresult => rw [hopen] at hresult; cases hresult
  | underway floor hunder hstage hplan hstate hworld _ =>
    exact ⟨floor, hunder, hstage, hplan, hstate, hworld⟩
  | closed report hresult => rw [hopen] at hresult; cases hresult

theorem of_ok {report : Report} (hok : stretch.step.result = some (.ok report)) :
    Closes behave workflow id stretch.step.run.members report := by
  cases h with
  | refused error hresult => rw [hok] at hresult; cases hresult
  | underway _ _ _ _ _ _ hresult => rw [hok] at hresult; cases hresult
  | closed report' hresult hcloses =>
    obtain rfl : report = report' := by simpa [hok] using hresult
    exact hcloses

end Leads

/-- Every stretch of a run with output keys leaves it under way, or ends it. -/
theorem History.leads {workers : Nat}
    (horder : workflow.plan.order = .parallel workers) (hcheck : workflow.check = .ok ())
    (hkeyed : workflow.isKeyed = true)
    (h : History (Traced.poll behave) context (ofWorkflow workflow.traced) history)
    (hundisturbed : workflow.plan.sharesLedger → Undisturbed context.session.id history) :
    ∀ stretch ∈ history, Leads behave workflow context.session.id stretch := by
  intro stretch hmem
  have hstate := h.state_of_none hkeyed stretch hmem
  rcases (h.underway hcheck hkeyed hundisturbed).2 stretch hmem with ⟨error, world, -, hstep⟩ |
    ⟨⟨floor, members, hunder, -, hstep⟩ | ⟨floor, after, members, result, hunder, hconclude, hstep⟩⟩
  · exact .refused error (by rw [hstep])
  · rw [hstep] at hstate
    refine .underway floor ?_ ?_ ?_ ?_ ?_ ?_ <;> rw [hstep]
    · exact hunder
    · rfl
    · exact hstate rfl
  · have hplan : (ofWorkflow workflow.traced).plan.order = .parallel workers := horder
    rw [hplan] at hconclude
    generalize hconcluded : (result, after) = concluded at hconclude
    cases concluded_of_conclude hconclude with
    | parallel _ hall =>
      obtain ⟨report, hreport, hcloses⟩ := hunder.closes hall
      obtain rfl : result = (concludeParallel context.session.id floor members).1 :=
        congrArg Prod.fst hconcluded
      refine .closed report ?_ ?_ <;> rw [hstep]
      · rw [hreport]
        rfl
      · exact hcloses

end Run

end Coordination
