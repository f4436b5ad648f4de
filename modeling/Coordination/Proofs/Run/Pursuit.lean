import Coordination.Proofs.Run.Nesting
import Coordination.Proofs.Run.Overwriting

/-!
# What members tell, whoever interferes

What becomes of a member depends on others: they may change its record, or take it away.
But its task always goes on from where it was, and what the member tells is what its task
has yielded, and then its failure if it has failed (`Member.Pursues`). If it succeeds in a
run with output keys, just that was committed in the visit in which it has settled
(`Run.History.committed`). The events of a run are those that its members tell, one after
another (`Run.History.events_eq_flatMap`).

* `Member.succeed_settles`: a good end, whatever has become of the record;
* `Member.Pursues.visited`: what a visit makes of a member;
* `Run.History.pursuing`: so it is in every run, with output keys or without.
-/

namespace Coordination

variable {σ : Type}

/-- Whether a ledger has taken a commit of this text under an id and a key. -/
def Ledger.Commits (id : String) (key? : Option String) (text : String)
    (before after : Ledger) : Prop :=
  ∃ now draft execution, draft.outputKey = key? ∧
    before.commit now id draft text = .ok (execution, after)

/-- What a member goes on with after a stretch that has left these values in its session. -/
def Access.after (state : KeyMap String) : Access → Access
  | own draft context => own draft (context.withState state)
  | shared instruction => shared instruction

namespace Member

/-! ## Settling -/

/-- A member whose task has come to a good end settles with its events, and fails if its
output could not be committed. -/
theorem succeed_settles (scope : Scope) (floor : Floor) (member : Member σ)
    (draft? : Option Draft) (events : List Event) :
    let after := succeed scope floor member draft? events
    ∃ error?, after.2 = { member with
        phase := .settled (.of scope.plan.name member.definition events error?) } ∧
      (error? = none → ∀ draft ∈ draft?, Ledger.Commits scope.context.session.id draft.outputKey
        (textOf events) floor.ledger after.1.ledger) := by
  intro after
  cases draft? with
  | none => exact ⟨none, rfl, fun _ _ hmem => by cases hmem⟩
  | some draft =>
    simp only [after, succeed]
    split
    next record execution ledger _ hcommitted =>
      refine ⟨none, rfl, fun _ _ hmem => ?_⟩
      cases hmem
      rw [Floor.ledger_measure, Floor.ledger_setLedger]
      exact ⟨_, draft, execution, rfl, hcommitted⟩
    next => exact ⟨some (.commit _), rfl, fun hnone => by cases hnone⟩
    next => exact ⟨some (.commit _), rfl, fun hnone => by cases hnone⟩

/-- What a stretch makes of a member, whatever has become of the record: it goes on, or it
settles on the floor that the stretch has left. -/
inductive Worked (scope : Scope) (floor : Floor) (definition : Definition) (access : Access)
    (events : List Event) (advance : Advance σ) : Floor × Member σ → Prop
  | onward (left : Floor) (hpending : advance.outcome = .pending) :
    Worked scope floor definition access events advance
      (left, ⟨definition, .running (access.after advance.state) (events ++ advance.events),
        advance.process⟩)
  | closed {after : Floor × Member σ} (error? : Option TaskError)
      (hended : advance.outcome ≠ .pending) (hdefinition : after.2.definition = definition)
      (hprocess : after.2.process = advance.process)
      (hphase : after.2.phase =
        .settled (.of scope.plan.name definition (events ++ advance.events) error?))
      (hsuccess : error? = none → advance.outcome = .ended ∧ ∀ draft ∈ access.draft?,
        Ledger.Commits scope.context.session.id draft.outputKey (textOf (events ++ advance.events))
          ({ floor with world := advance.world } : Floor).ledger after.1.ledger) :
    Worked scope floor definition access events advance after

theorem proceed_worked (scope : Scope) (index : Nat) (poll : Poll σ) (floor : Floor)
    (member : Member σ) (access : Access) (events : List Event) :
    Worked scope floor member.definition access events
      (poll (scope.turn.below index) (access.context scope.context floor.state) floor.world)
      (proceed scope index poll floor member access events) := by
  have hsettles : ∀ (floor' : Floor) (advance : Advance σ), advance.outcome ≠ .pending →
      ({ floor with world := advance.world } : Floor).ledger = floor'.ledger →
      ∀ after : Floor × Member σ, (advance.outcome = .ended ∧
        after = succeed scope floor' { member with process := advance.process } access.draft?
          (events ++ advance.events) ∨ ∃ error, after = fail scope floor'
            { member with process := advance.process } access.draft? (events ++ advance.events)
              error) →
      Worked scope floor member.definition access events advance after := by
    rintro floor' advance hended hledger _ (⟨hgood, rfl⟩ | ⟨error, rfl⟩)
    · obtain ⟨error?, hafter, hcommits⟩ := succeed_settles scope floor'
        { member with process := advance.process } access.draft? (events ++ advance.events)
      refine .closed error? hended (by simp) (by simp) (by rw [hafter]) fun hnone => ⟨hgood, ?_⟩
      rw [hledger]
      exact hcommits hnone
    · exact .closed (some error) hended rfl rfl rfl fun hnone => by cases hnone
  cases access with
  | own draft context =>
    simp only [proceed, Access.context]
    generalize poll (scope.turn.below index) context floor.world = advance
    cases houtcome : advance.outcome with
    | pending => exact .onward _ houtcome
    | ended => exact hsettles _ advance (by simp [houtcome]) rfl _ (.inl ⟨houtcome, rfl⟩)
    | failed error => exact hsettles _ advance (by simp [houtcome]) rfl _ (.inr ⟨error, rfl⟩)
  | shared instruction =>
    simp only [proceed, Access.context]
    generalize poll (scope.turn.below index) _ floor.world = advance
    cases houtcome : advance.outcome with
    | pending => exact .onward _ houtcome
    | ended =>
      exact hsettles { floor with state := advance.state, world := advance.world } advance
        (by simp [houtcome]) rfl _ (.inl ⟨houtcome, rfl⟩)
    | failed error =>
      exact hsettles { floor with state := advance.state, world := advance.world } advance
        (by simp [houtcome]) rfl _ (.inr ⟨error, rfl⟩)

/-! ## Where a member stands -/

/-- Where the member of a place stands, whoever interferes: it has not started; or it was
barred from starting, is under way, or has settled, and then its events are those that its
task has yielded. It has succeeded only if the task has come to a good end. -/
inductive Pursues (behave : σ → Poll σ) (terms : Terms) (index : Nat) (task : σ)
    (member : Member (Traced σ)) : Prop
  | unstarted (hphase : member.phase.hasStarted = false) (hprocess : member.process = .fresh task)
  | barred (error : TaskError) (hprocess : member.process = .fresh task)
      (hphase : member.phase =
        .settled (.of terms.plan.name member.definition [] (some error)))
  | underway (values : KeyMap String) (instruction : Option String) (last : Exchange σ)
      (access : Access)
      (hcourse : Course behave False task (terms.session index values instruction)
        member.process last)
      (hpending : last.advance.outcome = .pending)
      (hresumes : Resumes terms member.definition (terms.session index values instruction) last
        access)
      (hphase : member.phase = .running access member.process.events)
  | settled (values : KeyMap String) (instruction : Option String) (last : Exchange σ)
      (error? : Option TaskError)
      (hcourse : Course behave False task (terms.session index values instruction)
        member.process last)
      (hended : last.advance.outcome ≠ .pending)
      (hsuccess : error? = none → last.advance.outcome = .ended)
      (hphase : member.phase =
        .settled (.of terms.plan.name member.definition member.process.events error?))

/-- What a run has to tell of a member: nothing unless it has settled, and then what its task
has yielded, and the event of its failure if it has failed. -/
def tells (author : String) (member : Member (Traced σ)) : List Event :=
  match member.phase.settlement? with
  | some settlement => member.process.events ++
      (settlement.error.map (Event.failure author member.definition.name)).toList
  | none => []

/-- What a visit leaves of a member: it pursues its task, and if it succeeds in the visit with
output keys, what the task has yielded is committed to the ledger as the task has left it. -/
structure Pursued (behave : σ → Poll σ) (terms : Terms) (index : Nat) (task : σ) (floor : Floor)
    (member : Member (Traced σ)) (after : Floor × Member (Traced σ)) : Prop where
  pursues : after.2.Pursues behave terms index task
  commits : terms.keyed = true → member.phase.settlement? = none →
    ∀ settlement, after.2.phase.settlement? = some settlement → settlement.isSuccess →
    Ledger.Commits terms.context.session.id member.definition.outputKey
      (textOf after.2.process.events)
      (floor.worked (after.2.process.past.drop member.process.past.length)).ledger after.1.ledger

section Stretches

variable {behave : σ → Poll σ} {terms : Terms} {index : Nat} {task : σ} {floor : Floor}
  {member : Member (Traced σ)}

theorem Pursues.unstarted_of (h : member.Pursues behave terms index task)
    (hphase : member.phase.hasStarted = false) : member.process = .fresh task := by
  cases h with
  | unstarted _ hprocess => exact hprocess
  | barred _ hprocess => exact hprocess
  | underway _ _ _ _ _ _ _ hrunning => simp [hrunning, Phase.hasStarted] at hphase
  | settled _ _ _ _ _ _ _ hsettled => simp [hsettled, Phase.hasStarted] at hphase

theorem Pursued.around {entered left : Floor} {after : Floor × Member (Traced σ)}
    (h : Pursued behave terms index task entered member after) (hentered : floor.Around entered)
    (hleft : after.1.Around left) :
    Pursued behave terms index task floor member (left, after.2) where
  pursues := h.pursues
  commits hkeyed hunsettled settlement hsettled hsuccess := by
    rw [hleft.ledger, ← hentered.ledger_worked]
    exact h.commits hkeyed hunsettled settlement hsettled hsuccess

/-- A member that was barred from starting has committed nothing. -/
theorem pursued_of_barred {floor' : Floor} (scope : Scope) (draft? : Option Draft)
    (error : TaskError) (hplan : scope.plan = terms.plan)
    (hprocess : member.process = .fresh task) :
    Pursued behave terms index task floor member
      (fail scope floor' member draft? [] error) where
  pursues := .barred error hprocess (by rw [← hplan]; rfl)
  commits _ _ _ hsettled hsuccess := by
    cases hsettled
    cases hsuccess

/-- A stretch keeps a member in pursuit of its task. -/
theorem Worked.pursued (values : KeyMap String) (instruction : Option String)
    {state : KeyMap String} {turn turn' : Turn} {context : Context} {access : Access}
    {after : Floor × Member (Traced σ)}
    (h : Worked (terms.scope state turn) floor member.definition access member.process.events
      (member.process.poll behave turn' context floor.world) after)
    (hcourse : Course behave False task (terms.session index values instruction)
      (member.process.poll behave turn' context floor.world).process
      ⟨turn', context, floor.world, behave member.process.task turn' context floor.world⟩)
    (hresumes : Resumes terms member.definition (terms.session index values instruction)
      ⟨turn', context, floor.world, behave member.process.task turn' context floor.world⟩
      (access.after (behave member.process.task turn' context floor.world).state)) :
    Pursued behave terms index task floor member after := by
  have hevents := member.process.events_poll behave turn' context floor.world
  cases h with
  | onward left hpending =>
    rw [← hevents]
    refine ⟨.underway values instruction _ _ hcourse hpending hresumes rfl,
      fun _ _ settlement hsettled => by cases hsettled⟩
  | closed error? hended hdefinition hprocess hphase hsuccess =>
    rw [← hevents, ← hprocess] at hphase hsuccess
    rw [← hprocess] at hcourse
    refine ⟨.settled values instruction _ error? hcourse hended (fun h => (hsuccess h).1)
      (hdefinition ▸ hphase), fun hkeyed _ settlement hsettled hgood => ?_⟩
    obtain rfl : _ = settlement := by simpa [hphase, Phase.settlement?] using hsettled
    have hcommits := (hsuccess (by simpa using hgood)).2
    have hworked : (floor.worked (after.2.process.past.drop member.process.past.length)).ledger =
        ({ floor with world := (member.process.poll behave turn' context floor.world).world } :
          Floor).ledger := by
      rw [hprocess, Traced.poll, List.drop_left]
      rfl
    rw [hworked]
    -- With output keys, what has started has a draft for the ledger.
    cases access with
    | own draft current => exact hresumes.2.1 ▸ hcommits draft rfl
    | shared instruction' => simp [Access.after, Resumes, hkeyed] at hresumes

/-- A start makes a member pursue its task, or bars it from that. -/
theorem start_pursued (state : KeyMap String) (turn : Turn) (hkeyed : floor.keyed = terms.keyed)
    (hprocess : member.process = .fresh task) :
    Pursued behave terms index task floor member
      (start (terms.scope state turn) index (Traced.poll behave member.process) floor member) := by
  have hevents : member.process.events = [] := by rw [hprocess]; rfl
  have hfirst : ∀ turn' context world, Course behave False task context
      (member.process.poll behave turn' context world).process
      ⟨turn', context, world, behave member.process.task turn' context world⟩ := by
    intro turn' context world
    rw [hprocess]
    exact .first turn' world
  unfold start
  rw [hkeyed]
  split
  next hterms =>
    simp only
    split
    next error _ => exact pursued_of_barred _ _ _ rfl hprocess
    next outputs _ =>
      split
      next error _ => exact pursued_of_barred _ _ _ rfl hprocess
      next instruction _ =>
        have hsession : ((terms.scope state turn).context.child (Context.childId
            (terms.scope state turn).context.session.id index)
              (floor.stamp.2.state.overlay outputs)).withInstruction instruction =
            terms.session index (floor.stamp.2.state.overlay outputs) instruction := by
          rw [Terms.session, if_pos hterms]
          rfl
        have hworked := proceed_worked (terms.scope state turn) index
          (Traced.poll behave member.process) floor.stamp.2 member (.own (draft (terms.scope state
            turn) index member.definition floor.stamp.1) (terms.session index
              (floor.stamp.2.state.overlay outputs) instruction)) member.process.events
        have hpursued := hworked.pursued _ _ (hfirst _ _ _) ⟨hterms, rfl, rfl⟩
        rw [hevents, ← hsession] at hpursued
        exact hpursued.around floor.around_stamp (.refl _)
  next hterms =>
    have hshared : terms.keyed = false := by simpa using hterms
    split
    next error _ => exact pursued_of_barred _ _ _ rfl hprocess
    next instruction _ =>
      have hworked := proceed_worked (terms.scope state turn) index
        (Traced.poll behave member.process) floor member (.shared instruction) member.process.events
      have hpursued : Pursued behave terms index task floor member _ :=
        hworked.pursued floor.state instruction
          (by rw [Terms.session_shared hshared]; exact hfirst _ _ _) ⟨hshared, rfl⟩
      rwa [hevents] at hpursued

/-- A further stretch goes on where the one before has ended. -/
theorem Pursues.proceed (h : member.Pursues behave terms index task) {access : Access}
    {events : List Event} (hphase : member.phase = .running access events)
    (state : KeyMap String) (turn : Turn) :
    Pursued behave terms index task floor member
      (Member.proceed (terms.scope state turn) index (Traced.poll behave member.process) floor
        member access events) := by
  cases h with
  | unstarted hfresh => simp [hphase, Phase.hasStarted] at hfresh
  | barred _ _ hsettled => simp [hphase] at hsettled
  | settled _ _ _ _ _ _ _ hsettled => simp [hphase] at hsettled
  | underway values instruction last access' hcourse hpending hresumes hrunning =>
    obtain ⟨rfl, rfl⟩ : access = access' ∧ events = member.process.events := by
      simpa [hphase] using hrunning
    have hworked := proceed_worked (terms.scope state turn) index
      (Traced.poll behave member.process) floor member access member.process.events
    cases access with
    | own draft context =>
      obtain ⟨hkeyed, hdraft, rfl⟩ := hresumes
      exact hworked.pursued values instruction (hcourse.next hpending _ _ _ False.elim)
        ⟨hkeyed, hdraft, rfl⟩
    | shared instruction' =>
      obtain ⟨hkeyed, rfl⟩ := hresumes
      have hcontext : (terms.context.withState floor.state).withInstruction
          instruction' = (terms.session index values instruction').withState floor.state := by
        simp [Terms.session, hkeyed, Context.withState, Context.withInstruction]
      refine hworked.pursued values instruction' ?_ ⟨hkeyed, rfl⟩
      simp only [Access.context]
      rw [show (terms.scope state turn).context.withState floor.state =
        terms.context.withState floor.state from rfl, hcontext]
      exact hcourse.next hpending _ _ _ False.elim

/-- A visit keeps a member in pursuit of its task, whatever has become of the record. -/
theorem Pursues.visited (h : member.Pursues behave terms index task) (state : KeyMap String)
    (turn : Turn) {after : Floor × Member (Traced σ)}
    (hvisited : Visited (terms.scope state turn) index (Traced.poll behave member.process) floor
      member after)
    (hkeyed : floor.keyed = terms.keyed) :
    Pursued behave terms index task floor member after := by
  cases hvisited with
  | stays =>
    refine ⟨h, fun _ hunsettled settlement hsettled => ?_⟩
    rw [hunsettled] at hsettled
    cases hsettled
  | waits left hphase =>
    refine ⟨.unstarted rfl ?_, fun _ _ settlement hsettled => by cases hsettled⟩
    exact h.unstarted_of (by rw [hphase]; rfl)
  | starts entered left hphase hentered hleft =>
    have hfresh : member.phase.hasStarted = false := by
      rcases hphase with hphase | hphase <;> rw [hphase] <;> rfl
    have hstarted : Pursued behave terms index task entered member _ :=
      start_pursued state turn (hentered.keyed.trans hkeyed) (h.unstarted_of hfresh)
    exact hstarted.around hentered hleft
  | proceeds access events left hphase hleft =>
    exact (h.proceed hphase state turn).around (.refl floor) hleft

end Stretches

/-- A member that has settled has the events that a run has to tell of it. -/
theorem Pursues.events_settlement {behave : σ → Poll σ} {terms : Terms} {index : Nat} {task : σ}
    {member : Member (Traced σ)} (h : member.Pursues behave terms index task)
    {settlement : Settlement} (hsettled : member.phase.settlement? = some settlement) :
    settlement.events = member.tells terms.plan.name := by
  have hof : ∀ events error?, settlement = .of terms.plan.name member.definition events error? →
      member.process.events = events → settlement.events = member.tells terms.plan.name := by
    rintro events error? rfl rfl
    rw [tells, hsettled]
    cases error? <;> simp [Settlement.of]
  cases h with
  | unstarted hphase =>
    rw [hasStarted_of_settled (by rw [hsettled]; rfl)] at hphase
    cases hphase
  | underway _ _ _ _ _ _ _ hphase =>
    rw [hphase] at hsettled
    cases hsettled
  | barred error hprocess hphase =>
    exact hof [] (some error) (by simpa [hphase, Phase.settlement?] using hsettled.symm)
      (by rw [hprocess]; rfl)
  | settled _ _ _ error? _ _ _ hphase =>
    exact hof _ error? (by simpa [hphase, Phase.settlement?] using hsettled.symm) rfl

end Member

/-! ## Runs -/

namespace Run

variable {behave : σ → Poll σ} {workflow : Workflow σ} {context : Context}

/-- Every member of a run pursues its task. -/
structure Pursuing (behave : σ → Poll σ) (workflow : Workflow σ) (context : Context)
    (floor : Floor) (members : List (Member (Traced σ))) : Prop
    extends Drafting behave workflow floor members where
  pursues : ∀ (index : Nat) (member : Member (Traced σ)), members[index]? = some member →
    ∃ task, workflow.members[index]? = some (member.definition, task) ∧
      member.Pursues behave (workflow.terms workflow.plan.maxValueBytes context) index task

theorem pursuing_of_drafting {floor : Floor}
    (h : Drafting behave workflow floor (ofWorkflow workflow.traced).members) :
    Pursuing behave workflow context floor (ofWorkflow workflow.traced).members where
  toDrafting := h
  pursues index member hget := by
    obtain ⟨definition, task, htask, rfl⟩ := getElem?_members_ofWorkflow hget
    exact ⟨task, htask, .unstarted rfl rfl⟩

/-- A visit keeps every member in pursuit of its task, and what the task has yielded is
committed if it succeeds in the visit. -/
theorem Pursuing.visited {visit : Visit (Traced σ)} {stretch : Stretch (Traced σ)}
    (h : Pursuing behave workflow context visit.floor visit.members)
    (hof : visit.Of (Traced.poll behave) workflow.plan context stretch) :
    Pursuing behave workflow context visit.after.1 visit.left ∧ ∃ task,
      Member.Pursued behave (workflow.terms workflow.plan.maxValueBytes context) visit.index task
        visit.floor visit.member visit.after := by
  have hget := visit.getElem?_members
  obtain ⟨task, htask, hpursues⟩ := h.pursues _ _ hget
  have hvisited := hof.visited
  rw [hof.scope] at hvisited
  have hpursued := hpursues.visited stretch.state stretch.turn hvisited h.keyed
  refine ⟨⟨(h.toDrafting.visited hof).1, fun index member hleft => ?_⟩, task, hpursued⟩
  rw [visit.left_eq_set, List.getElem?_set] at hleft
  split at hleft
  next heq =>
    subst heq
    rw [if_pos (List.getElem?_eq_some_iff.1 hget).1, Option.some.injEq] at hleft
    subst hleft
    exact ⟨task, hvisited.polled.1 ▸ htask, hpursued.pursues⟩
  next => exact h.pursues index member hleft

section Histories

variable {history : List (Stretch (Traced σ))}

/-- So it is at every visit and at the end of every stretch, whatever the tasks do and
whatever happens between the stretches. -/
theorem History.pursuing
    (h : History (Traced.poll behave) context (ofWorkflow workflow.traced) history) :
    (∀ visit ∈ log (Traced.poll behave) context (ofWorkflow workflow.traced) history,
      Pursuing behave workflow context visit.floor visit.members) ∧
      ∀ stretch ∈ history, Comes (fun floor members =>
        Pursuing behave workflow context floor members) (ofWorkflow workflow.traced) context
          stretch :=
  h.log_induction (P := fun _ floor members => Pursuing behave workflow context floor members)
    (R := fun _ _ => True) rfl (fun _ _ _ hP => hP.keyed.trans hP.carries.any_isSome.symm)
    (fun _ _ _ hopen => pursuing_of_drafting (drafting_open behave hopen))
    (fun visit hmem hP => by
      obtain ⟨stretch, -, hof⟩ := h.of_mem_log hmem
      exact (hP.visited hof).1)
    (List.pairwise_of_forall fun _ _ => trivial).isChain
    (fun _ _ _ _ _ hP _ => ⟨⟨hP.keyed, hP.carries, hP.drafts⟩, hP.pursues⟩)

/-- All members of a run pursue their tasks at the end of every stretch, also in a run that
was not opened. -/
theorem History.pursues
    (h : History (Traced.poll behave) context (ofWorkflow workflow.traced) history)
    {stretch : Stretch (Traced σ)} (hmem : stretch ∈ history) {index : Nat}
    {member : Member (Traced σ)} (hget : stretch.step.run.members[index]? = some member) :
    ∃ task, workflow.members[index]? = some (member.definition, task) ∧
      member.Pursues behave (workflow.terms workflow.plan.maxValueBytes context) index task := by
  rcases (h.pursuing.2 stretch hmem).members with hstart | ⟨floor, hpursuing⟩
  · rw [hstart] at hget
    obtain ⟨definition, task, htask, rfl⟩ := getElem?_members_ofWorkflow hget
    exact ⟨task, htask, .unstarted rfl rfl⟩
  · exact hpursuing.pursues index member hget

/-- What a member that succeeds in a visit has yielded, the visit commits, in a run with
output keys: to the ledger as the member's task has left it, under the id of the run. -/
theorem History.committed
    (h : History (Traced.poll behave) context (ofWorkflow workflow.traced) history)
    (hkeyed : workflow.isKeyed = true) {visit : Visit (Traced σ)}
    (hmem : visit ∈ log (Traced.poll behave) context (ofWorkflow workflow.traced) history)
    (hunsettled : visit.member.phase.settlement? = none) {settlement : Settlement}
    (hsettled : visit.after.2.phase.settlement? = some settlement)
    (hsuccess : settlement.isSuccess) :
    Ledger.Commits context.session.id visit.member.definition.outputKey
      (textOf visit.after.2.process.events) (visit.floor.worked visit.exchanges).ledger
      visit.after.1.ledger := by
  obtain ⟨stretch, -, hof⟩ := h.of_mem_log hmem
  obtain ⟨-, task, hpursued⟩ := (h.pursuing.1 visit hmem).visited hof
  exact hpursued.commits hkeyed hunsettled settlement hsettled hsuccess

/-- The events of a run are those that its members tell, one after another. -/
theorem History.events_eq_flatMap {last : Stretch (Traced σ)} {past : List (Stretch (Traced σ))}
    (h : History (Traced.poll behave) context (ofWorkflow workflow.traced) (last :: past)) :
    events last.step.run.members =
      last.step.run.members.flatMap (·.tells workflow.plan.name) := by
  rw [events, settlements, List.filterMap_eq_flatMap_toList, List.flatMap_assoc]
  refine List.flatMap_congr fun member hmem => ?_
  obtain ⟨index, hget⟩ := List.mem_iff_getElem?.1 hmem
  obtain ⟨task, -, hpursues⟩ := h.pursues List.mem_cons_self hget
  cases hsettled : member.phase.settlement? with
  | none => simp [Member.tells, hsettled]
  | some settlement =>
    have hevents : settlement.events = member.tells workflow.plan.name :=
      hpursues.events_settlement hsettled
    simpa using hevents

end Histories

end Run

end Coordination
