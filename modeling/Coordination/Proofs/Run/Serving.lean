import Coordination.Proofs.Run.Course

/-!
# Runs that serve their members

A run serves its members if it keeps to its terms: with output keys, it has the
record that it started, in accord with its members, and a bound on the length of
outputs (`Run.Serving`). Nobody can keep it from doing so if it has a ledger of
its own, and else nobody does who leaves its record and the bound of the shared
ledger alone (`Run.Guarded`); without output keys there is nothing to guard. Then every
member stands as its task does, at every visit and at the end of every stretch, with
output keys or without and in any order (`Run.History.standing`).

* `Run.Serving.visited`, `Run.Serving.resume`, `Run.serving_open`: what keeps a run serving;
* `Run.History.serving_induction`: what every visit of such a run keeps, it keeps;
* `Run.Standing.visited`: a visit keeps all members standing as their tasks do.
-/

namespace Coordination

variable {σ : Type}

/-! ## The terms of a run -/

/-- The terms on which the members of a workflow work in a context, with a bound
on the length of outputs. -/
def Workflow.terms (workflow : Workflow σ) (maxValueBytes : Nat) (context : Context) : Terms :=
  ⟨workflow.plan, workflow.isKeyed, maxValueBytes, context⟩

/-- What visits keep of the terms of a run: whether outputs are published and, if
that is `bounded` by the tasks as well, the bound on their length. -/
structure Floor.Abides (bounded : Prop) (before after : Floor) : Prop where
  keyed : after.keyed = before.keyed
  bound : bounded → after.ledger.maxValueBytes = before.ledger.maxValueBytes

namespace Floor

variable {bounded : Prop}

theorem Abides.refl (floor : Floor) : Abides bounded floor floor := ⟨rfl, fun _ => rfl⟩

theorem Abides.trans {a b c : Floor} (h : Abides bounded a b) (h' : Abides bounded b c) :
    Abides bounded a c :=
  ⟨h'.keyed.trans h.keyed, fun hbounded => (h'.bound hbounded).trans (h.bound hbounded)⟩

theorem Around.abides {before after : Floor} (h : before.Around after) :
    Abides bounded before after :=
  ⟨h.keyed, fun _ => by rw [h.ledger]⟩

theorem abides_setLedger (floor : Floor) {ledger : Ledger}
    (h : ledger.maxValueBytes = floor.ledger.maxValueBytes) :
    Abides bounded floor (floor.setLedger ledger) :=
  ⟨(floor.kept_setLedger ledger).keyed, fun _ => by rw [ledger_setLedger, h]⟩

theorem abides_withWorld (floor : Floor) {world : World}
    (h : bounded → floor.own = none →
      world.ledger.maxValueBytes = floor.world.ledger.maxValueBytes) :
    Abides bounded floor { floor with world } := by
  refine ⟨rfl, fun hbounded => ?_⟩
  cases hown : floor.own with
  | none => simpa [Floor.ledger, hown] using h hbounded hown
  | some ledger => simp [Floor.ledger, hown]

end Floor

namespace Member

section Abides

variable {bounded : Prop} (scope : Scope) (index : Nat) (floor : Floor) (member : Member σ)

theorem recordFailure_abides (draft : Draft) (message : String) :
    Floor.Abides bounded floor (recordFailure scope floor draft message) := by
  have hstamp : Floor.Abides bounded floor floor.stamp.2 := floor.around_stamp.abides
  simp only [recordFailure]
  split
  next hrecorded =>
    have hafter := Ledger.apply_snd_of_ok (.recordFailure _ draft message) rfl hrecorded
    exact hstamp.trans (Floor.abides_setLedger _ (hafter ▸ Ledger.maxValueBytes_apply ..))
  next => exact hstamp.trans (Floor.around_notice _ _).abides

theorem fail_abides (draft : Option Draft) (events : List Event) (error : TaskError) :
    Floor.Abides bounded floor (fail scope floor member draft events error).1 := by
  have hnotice : Floor.Abides bounded floor (floor.notice (.subTaskFailed error.message)) :=
    (floor.around_notice _).abides
  cases draft with
  | none => exact hnotice
  | some draft => exact hnotice.trans (recordFailure_abides ..)

theorem succeed_abides (draft : Option Draft) (events : List Event) :
    Floor.Abides bounded floor (succeed scope floor member draft events).1 := by
  have hstamp : Floor.Abides bounded floor floor.stamp.2 := floor.around_stamp.abides
  unfold succeed
  cases draft with
  | none => exact .refl floor
  | some draft =>
    simp only
    split
    next hcommitted =>
      have hafter := Ledger.apply_snd_of_ok (.commit _ draft (textOf events)) rfl hcommitted
      have hledger : Floor.Abides bounded floor.stamp.2 (floor.stamp.2.setLedger _) :=
        floor.stamp.2.abides_setLedger (hafter ▸ Ledger.maxValueBytes_apply ..)
      exact hstamp.trans ⟨hledger.keyed, hledger.bound⟩
    next => exact hstamp.trans (fail_abides ..)
    next => exact hstamp.trans (fail_abides ..)

variable {poll : Poll σ} (hbound : bounded → floor.own = none → poll.KeepsBound)
include hbound

theorem proceed_abides (access : Access) (events : List Event) :
    Floor.Abides bounded floor (proceed scope index poll floor member access events).1 := by
  cases access with
  | own draft context =>
    have hworld := floor.abides_withWorld fun hbounded hown =>
      hbound hbounded hown (scope.turn.below index) context floor.world
    simp only [proceed]
    split
    · exact hworld
    · exact hworld.trans (succeed_abides ..)
    · exact hworld.trans (fail_abides ..)
  | shared instruction =>
    have hworld := floor.abides_withWorld fun hbounded hown =>
      hbound hbounded hown (scope.turn.below index)
        ((scope.context.withState floor.state).withInstruction instruction) floor.world
    simp only [proceed]
    split
    · exact ⟨rfl, hworld.bound⟩
    · exact ⟨rfl, hworld.bound⟩
    · exact ⟨rfl, hworld.bound⟩

theorem start_abides :
    Floor.Abides bounded floor (start scope index poll floor member).1 := by
  have hstamp : Floor.Abides bounded floor floor.stamp.2 := floor.around_stamp.abides
  unfold start
  split
  · simp only
    split
    · exact hstamp.trans (fail_abides ..)
    · split
      · exact hstamp.trans (fail_abides ..)
      · exact hstamp.trans (proceed_abides scope index _ member (by exact hbound) _ _)
  · split
    · exact fail_abides ..
    · exact proceed_abides scope index floor member hbound _ _

/-- A visit keeps to the terms of the run, if its task leaves the bound of the
shared ledger alone or cannot reach it. -/
theorem Visited.abides {scope : Scope} {index : Nat} {member : Member σ}
    {after : Floor × Member σ} (h : Visited scope index poll floor member after) :
    Floor.Abides bounded floor after.1 := by
  cases h with
  | stays => exact .refl floor
  | waits left _ hleft => exact hleft.abides
  | starts entered left _ hentered hleft =>
    have hstart := start_abides scope index entered member
      fun hbounded hown => hbound hbounded (hentered.own_eq_none hown)
    exact hentered.abides.trans (hstart.trans hleft.abides)
  | proceeds access events left _ hleft =>
    exact (proceed_abides scope index floor member hbound access events).trans hleft.abides

end Abides

end Member

/-! ## Records -/

namespace Record

/-- What a record says of its workflow. -/
def heading (record : Record) : String × String × String × String :=
  (record.id, record.owner, record.workflowName, record.namespace)

/-- The record of a run is headed as it was started, and tells of no output
without a key. -/
structure Tended (plan : Plan) (context : Context) (record : Record) : Prop where
  heading : record.heading =
    (context.session.id, context.session.user, plan.name, plan.namespace)
  unsized : ∀ execution ∈ record.executions, execution.outputKey = none → execution.outputSize = 0

theorem tended_start (plan : Plan) (context : Context) (now : Timestamp) :
    (start now context.session.id context.session.user plan.name plan.namespace).Tended plan
      context :=
  ⟨rfl, fun _ h => absurd h List.not_mem_nil⟩

theorem heading_commit (record : Record) (now : Timestamp) (draft : Draft) (value : String) :
    (record.commit now draft value).heading = record.heading := by
  rw [commit_eq]
  rfl

end Record

theorem Member.Moved.tended {plan : Plan} {context : Context} {id : String} {index : Nat}
    {member after : Member (Traced σ)} {record record' : Record}
    (h : member.Moved plan id index record after record') (htended : record.Tended plan context) :
    record'.Tended plan context := by
  cases h with
  | onward => exact htended
  | @succeeded now draft =>
    refine ⟨(Record.heading_commit ..).trans htended.heading, fun execution hmem hkey => ?_⟩
    rw [Record.executions_commit, List.mem_append, List.mem_singleton] at hmem
    rcases hmem with hmem | rfl
    · exact htended.unsized execution hmem hkey
    · have hnone : draft.outputKey = none := hkey
      simp [Ledger.succeed, hnone]
  | failed =>
    refine ⟨htended.heading, fun execution hmem hkey => ?_⟩
    rcases List.mem_append.1 hmem with hmem | hmem
    · exact htended.unsized execution hmem hkey
    · rw [List.mem_singleton.1 hmem]
      rfl

/-! ## Serving -/

namespace Run

/-- Nobody keeps a run from its terms. With a ledger of its own nobody can; else
nobody but the run itself touches its record, and the bound of the shared ledger
stays as it is. -/
structure Guarded (behave : σ → Poll σ) (workflow : Workflow σ) (maxValueBytes : Nat) (id : String)
    (history : List (Stretch (Traced σ))) : Prop where
  own : workflow.plan.sharesLedger = false → maxValueBytes = workflow.plan.maxValueBytes
  undisturbed : workflow.plan.sharesLedger → Undisturbed id history
  keeps : workflow.plan.sharesLedger → ∀ task, (behave task).KeepsBound
  bound : workflow.plan.sharesLedger → ∀ stretch ∈ history,
    stretch.world.ledger.maxValueBytes = maxValueBytes

theorem guarded_of_own (behave : σ → Poll σ) {workflow : Workflow σ}
    (hown : workflow.plan.sharesLedger = false) (id : String)
    (history : List (Stretch (Traced σ))) :
    Guarded behave workflow workflow.plan.maxValueBytes id history where
  own := fun _ => rfl
  undisturbed := fun hshares => by simp [hown] at hshares
  keeps := fun hshares => by simp [hown] at hshares
  bound := fun hshares => by simp [hown] at hshares

/-- A run without output keys has no record with which anybody could interfere. -/
theorem guarded_of_shared (behave : σ → Poll σ) {workflow : Workflow σ}
    (hshared : workflow.isKeyed = false) (id : String) (history : List (Stretch (Traced σ)))
    (hkeyed : workflow.isKeyed) :
    Guarded behave workflow workflow.plan.maxValueBytes id history :=
  absurd hkeyed (Bool.eq_false_iff.1 hshared)

/-- What a run that uses the shared ledger can rely on from one stretch to the next. -/
theorem Guarded.between {behave : σ → Poll σ} {workflow : Workflow σ} {maxValueBytes : Nat}
    {id : String} {history : List (Stretch (Traced σ))}
    (h : Guarded behave workflow maxValueBytes id history) :
    history.IsChain fun later earlier => workflow.plan.sharesLedger →
      later.world.ledger.get? id = earlier.step.world.ledger.get? id ∧
        later.world.ledger.maxValueBytes = maxValueBytes := by
  by_cases hshares : workflow.plan.sharesLedger
  · refine (h.undisturbed hshares).between.imp_of_mem_imp ?_
    exact fun later _ hlater _ hsame _ => ⟨hsame, h.bound hshares later hlater⟩
  · exact (List.pairwise_of_forall fun _ _ hshares' => absurd hshares' hshares).isChain

/-- A run carries out a workflow, and with output keys serves its members on
the terms of the workflow. -/
structure Serving (behave : σ → Poll σ) (workflow : Workflow σ) (maxValueBytes : Nat)
    (context : Context) (floor : Floor) (members : List (Member (Traced σ))) : Prop where
  keyed : floor.keyed = workflow.isKeyed
  carries : Carries behave workflow members
  underway : workflow.isKeyed → Underway behave workflow context.session.id floor members
  bound : workflow.isKeyed → floor.ledger.maxValueBytes = maxValueBytes
  tended : workflow.isKeyed → ∀ record, floor.ledger.get? context.session.id = some record →
    record.Tended workflow.plan context

variable {behave : σ → Poll σ} {workflow : Workflow σ} {maxValueBytes : Nat} {context : Context}
  {floor : Floor} {members : List (Member (Traced σ))}

theorem Serving.serves (h : Serving behave workflow maxValueBytes context floor members) :
    floor.Serves (workflow.terms maxValueBytes context) where
  keyed := h.keyed
  record := fun hkeyed => (h.underway hkeyed).accord.imp fun _ => And.left
  bound := h.bound

/-- Without output keys no member has one. -/
theorem Serving.outputKey_eq_none (h : Serving behave workflow maxValueBytes context floor members)
    (hkeyed : workflow.isKeyed = false) {member : Member (Traced σ)} (hmem : member ∈ members) :
    member.definition.outputKey = none := by
  rw [← h.carries.any_isSome, List.any_eq_false] at hkeyed
  simpa using hkeyed member hmem

/-- With output keys, only a run that uses the shared ledger has none of its own. -/
theorem Serving.shares (h : Serving behave workflow maxValueBytes context floor members)
    (hkeyed : workflow.isKeyed = true) (hown : floor.own = none) : workflow.plan.sharesLedger :=
  (h.underway hkeyed).own_eq_none_iff.1 hown

/-- Starting the record of a run keeps to its terms. -/
theorem createRecord_abides {plan : Plan} {opened : Floor}
    (h : createRecord plan context floor = .ok opened) : Floor.Abides True floor opened := by
  unfold createRecord at h
  split at h
  · cases hcreate : floor.stamp.2.ledger.create floor.stamp.1 context.session.id
        context.session.user plan.name plan.namespace with
    | error error => simp only [hcreate, bind, Except.bind, reduceCtorEq] at h
    | ok created =>
      simp only [hcreate, bind, Except.bind, pure, Except.pure, Except.ok.injEq] at h
      subst h
      have hafter := Ledger.apply_snd_of_ok
        (.create _ context.session.user plan.name plan.namespace) rfl hcreate
      exact floor.around_stamp.abides.trans
        (floor.stamp.2.abides_setLedger (hafter ▸ Ledger.maxValueBytes_apply ..))
  · cases h
    exact .refl floor

/-- An opened run serves its members. -/
theorem serving_open {state : KeyMap String} {world : World} (behave : σ → Poll σ)
    (hcheck : workflow.check = .ok ())
    (hown : workflow.isKeyed → workflow.plan.sharesLedger = false →
      maxValueBytes = workflow.plan.maxValueBytes)
    (hbound : workflow.isKeyed → workflow.plan.sharesLedger →
      world.ledger.maxValueBytes = maxValueBytes)
    (h : (ofWorkflow workflow.traced).open (context.withState state) world = .ok floor) :
    Serving behave workflow maxValueBytes context floor (ofWorkflow workflow.traced).members := by
  have hcarries := carries_ofWorkflow behave workflow
  have hrun : (ofWorkflow workflow.traced).isKeyed = workflow.isKeyed := hcarries.isKeyed
  have hplan : (ofWorkflow workflow.traced).plan = workflow.plan := rfl
  obtain ⟨recorded, hrecorded, hopened⟩ := open_eq_ok h
  obtain ⟨hkept, hledger, -⟩ := putUpGate_eq_ok hopened
  have habides := createRecord_abides hrecorded
  refine ⟨hkept.keyed.trans (habides.keyed.trans hrun), hcarries, ?_, ?_, ?_⟩
  · intro hkeyed
    have hunder := underway_open behave hcheck hkeyed h
    exact hunder
  · intro hkeyed
    rw [hledger, habides.bound trivial]
    cases hshares : workflow.plan.sharesLedger with
    | true =>
      simp only [lobby, hrun, hplan, hkeyed, hshares]
      exact hbound hkeyed hshares
    | false =>
      simp only [lobby, hrun, hplan, hkeyed, hshares]
      exact (hown hkeyed hshares).symm
  · intro hkeyed record hrecord
    obtain ⟨-, now, hstart⟩ := createRecord_eq_ok (hrun.trans hkeyed) hrecorded
    rw [hledger] at hrecord
    obtain rfl := Option.some.inj (hstart.symm.trans hrecord)
    exact Record.tended_start workflow.plan context now

/-- A visit keeps a run serving, if the tasks leave alone what it reads of the
shared ledger. -/
theorem Serving.visited {visit : Visit (Traced σ)} {stretch : Stretch (Traced σ)}
    (h : Serving behave workflow maxValueBytes context visit.floor visit.members)
    (hof : visit.Of (Traced.poll behave) workflow.plan context stretch)
    (hspares : workflow.isKeyed → workflow.plan.sharesLedger →
      ∀ member ∈ stretch.step.run.members, member.process.Spares context.session.id)
    (hkeeps : workflow.isKeyed → workflow.plan.sharesLedger → ∀ task, (behave task).KeepsBound) :
    Serving behave workflow maxValueBytes context visit.after.1 visit.left := by
  have hbound : workflow.isKeyed → visit.floor.own = none →
      (Traced.poll behave visit.member.process).KeepsBound :=
    fun hkeyed hown _ _ _ => hkeeps hkeyed (h.shares hkeyed hown) _ _ _ _
  have habides := hof.visited.abides visit.floor hbound
  refine ⟨habides.keyed.trans h.keyed, ?_, ?_, ?_, ?_⟩
  · rw [visit.left_eq_set]
    exact h.carries.set visit.getElem?_members hof.visited.polled
  · exact fun hkeyed => (h.underway hkeyed).visited hof (hspares hkeyed)
  · exact fun hkeyed => (habides.bound hkeyed).trans (h.bound hkeyed)
  · intro hkeyed record' hrecord'
    obtain ⟨record, moved, hrecord, -, hmoved, hmoves⟩ :=
      (h.underway hkeyed).movesTo hof (hspares hkeyed)
    obtain rfl := Option.some.inj (hmoved.symm.trans hrecord')
    exact hmoves.tended (h.tended hkeyed record hrecord)

/-- Whatever happens outside of a run keeps it serving, if it leaves alone what
the run reads of the shared ledger. -/
theorem Serving.resume (h : Serving behave workflow maxValueBytes context floor members)
    (state : KeyMap String) {world : World}
    (hsame : workflow.isKeyed → workflow.plan.sharesLedger →
      world.ledger.get? context.session.id = floor.world.ledger.get? context.session.id ∧
        world.ledger.maxValueBytes = maxValueBytes) :
    Serving behave workflow maxValueBytes context { floor with state, world } members where
  keyed := h.keyed
  carries := h.carries
  underway := fun hkeyed => (h.underway hkeyed).resume state fun hshares => (hsame hkeyed hshares).1
  bound := by
    intro hkeyed
    cases hown : floor.own with
    | none => simpa [Floor.ledger, hown] using (hsame hkeyed (h.shares hkeyed hown)).2
    | some ledger => simpa [Floor.ledger, hown] using h.bound hkeyed
  tended := by
    intro hkeyed record hrecord
    refine h.tended hkeyed record ?_
    rw [← hrecord]
    exact (floor.get?_ledger_withWorld fun hown => (hsame hkeyed (h.shares hkeyed hown)).1).symm

/-! ## Histories -/

variable {history : List (Stretch (Traced σ))}

/-- A guarded run serves its members at every visit and at the end of every
stretch. What its visits keep holds there as well, if it holds at the opening and
whatever values the next stretch finds; it may be about the context in which the run
is given the stretch. `S` says what values the first stretch finds, and `R` which the
next one finds where the one before has left others. -/
theorem History.serving_induction {P : Context → Floor → List (Member (Traced σ)) → Prop}
    {S : KeyMap String → Prop} {R : KeyMap String → KeyMap String → Prop}
    (hcheck : workflow.check = .ok ())
    (hguarded : workflow.isKeyed →
      Guarded behave workflow maxValueBytes context.session.id history)
    (h : History (Traced.poll behave) context (ofWorkflow workflow.traced) history)
    (hfirst : ∀ first, history.getLast? = some first → S first.state)
    (hbetween : history.IsChain fun later earlier => R earlier.step.state later.state)
    (hopen : ∀ state world floor, S state →
      (ofWorkflow workflow.traced).open (context.withState state) world = .ok floor →
      P (context.withState state) floor (ofWorkflow workflow.traced).members)
    (hvisit : ∀ visit ∈ log (Traced.poll behave) context (ofWorkflow workflow.traced) history,
      Serving behave workflow maxValueBytes context visit.floor visit.members →
      P visit.scope.context visit.floor visit.members →
      P visit.scope.context visit.after.1 visit.left)
    (hresume : ∀ current floor members state world,
      Serving behave workflow maxValueBytes context floor members → P current floor members →
      R floor.state state → (workflow.isKeyed →
        ({ floor with state, world } : Floor).ledger.get? context.session.id =
          floor.ledger.get? context.session.id) →
      P (context.withState state) { floor with state, world } members) :
    (∀ visit ∈ log (Traced.poll behave) context (ofWorkflow workflow.traced) history,
      Serving behave workflow maxValueBytes context visit.floor visit.members ∧
        P visit.scope.context visit.floor visit.members) ∧
      ∀ stretch ∈ history, Comes (fun floor members =>
        Serving behave workflow maxValueBytes context floor members ∧
          P (context.withState stretch.state) floor members)
        (ofWorkflow workflow.traced) context stretch := by
  refine h.log_invariant
    (P := fun current floor members =>
      Serving behave workflow maxValueBytes context floor members ∧ P current floor members)
    (S := fun state world => S state ∧ (workflow.isKeyed →
      workflow.plan.sharesLedger → world.ledger.maxValueBytes = maxValueBytes))
    (R := fun before world after world' => R before after ∧ (workflow.isKeyed →
      workflow.plan.sharesLedger →
        world'.ledger.get? context.session.id = world.ledger.get? context.session.id ∧
          world'.ledger.maxValueBytes = maxValueBytes))
    rfl ?_ ?_ ?_ ?_ ?_ ?_
  · exact fun _ floor members hP => hP.1.keyed.trans hP.1.carries.any_isSome.symm
  · rintro state world floor ⟨hS, hbound⟩ hopened
    exact ⟨serving_open behave hcheck (fun hkeyed => (hguarded hkeyed).own) hbound hopened,
      hopen state world floor hS hopened⟩
  · rintro visit hmem ⟨hserving, hP⟩
    obtain ⟨stretch, hstretch, hof⟩ := h.of_mem_log hmem
    have hspares := fun hkeyed hshares =>
      ((hguarded hkeyed).undisturbed hshares).within stretch hstretch
    exact ⟨hserving.visited hof hspares fun hkeyed => (hguarded hkeyed).keeps,
      hvisit visit hmem hserving hP⟩
  · exact fun first hlast => ⟨hfirst first hlast, fun hkeyed hshares =>
      (hguarded hkeyed).bound hshares first (List.mem_of_getLast? hlast)⟩
  · exact List.isChain_iff_getElem.2 fun i hi =>
      ⟨hbetween.getElem i hi, fun hkeyed => (hguarded hkeyed).between.getElem i hi⟩
  · rintro current floor members state world ⟨hserving, hP⟩ ⟨hR, hsame⟩
    refine ⟨hserving.resume state hsame,
      hresume current floor members state world hserving hP hR fun hkeyed => ?_⟩
    exact floor.get?_ledger_withWorld fun hown => (hsame hkeyed (hserving.shares hkeyed hown)).1

/-! ## Members -/

/-- Every member stands as its task does. `V` says from which values the member
of a place may have started. -/
def Standing (behave : σ → Poll σ) (alone : Prop) (terms : Terms) (workflow : Workflow σ)
    (V : Nat → KeyMap String → Prop) (members : List (Member (Traced σ))) : Prop :=
  ∀ (index : Nat) (member : Member (Traced σ)), members[index]? = some member → ∃ task,
    workflow.members[index]? = some (member.definition, task) ∧
      member.Stands behave alone terms index (V index) task

/-- The values from which the member of a place started in a visit of a log. -/
def Found (terms : Terms) (log : List (Visit σ)) (index : Nat) (values : KeyMap String) : Prop :=
  ∃ visit ∈ log, visit.index = index ∧ visit.starts ∧ visit.floor.values terms = values

variable {alone : Prop} {V : Nat → KeyMap String → Prop}

theorem standing_ofWorkflow (behave : σ → Poll σ) (alone : Prop) (terms : Terms)
    (workflow : Workflow σ) (V : Nat → KeyMap String → Prop) :
    Standing behave alone terms workflow V (ofWorkflow workflow.traced).members := by
  intro index member hget
  obtain ⟨definition, task, htask, rfl⟩ := getElem?_members_ofWorkflow hget
  exact ⟨task, htask, .unstarted rfl rfl⟩

/-- A visit keeps all members standing as their tasks do. -/
theorem Standing.visited {visit : Visit (Traced σ)} {stretch : Stretch (Traced σ)}
    (h : Standing behave alone (workflow.terms maxValueBytes context) workflow V visit.members)
    (hserving : Serving behave workflow maxValueBytes context visit.floor visit.members)
    (hof : visit.Of (Traced.poll behave) workflow.plan context stretch)
    (hspares : workflow.isKeyed → workflow.plan.sharesLedger →
      ∀ member ∈ stretch.step.run.members, member.process.Spares context.session.id)
    (hkeeps : workflow.isKeyed → workflow.plan.sharesLedger → ∀ task, (behave task).KeepsBound)
    (hvalues : visit.starts →
      V visit.index (visit.floor.values (workflow.terms maxValueBytes context)))
    (halone : alone → workflow.isKeyed = false → visit.member.phase.isRunning →
      ∀ last, visit.member.process.past.getLast? = some last →
        visit.floor.state = last.advance.state) :
    Standing behave alone (workflow.terms maxValueBytes context) workflow V visit.left := by
  have hget := visit.getElem?_members
  have hvisited := hof.visited
  rw [hof.scope] at hvisited
  intro index member hleft
  rw [visit.left_eq_set, List.getElem?_set] at hleft
  split at hleft
  next heq =>
    subst heq
    rw [if_pos (List.getElem?_eq_some_iff.1 hget).1, Option.some.injEq] at hleft
    subst hleft
    obtain ⟨task, htask, hstands⟩ := h visit.index visit.member hget
    refine ⟨task, hvisited.polled.1 ▸ htask, ?_⟩
    refine hstands.visited hvisited hserving.serves ?_ ?_ ?_ ?_ halone
    · exact fun hkeyed => hserving.outputKey_eq_none hkeyed (List.mem_of_getElem? hget)
    · exact fun hkeyed hown => hspares hkeyed (hserving.shares hkeyed hown) _ hof.kept
    · exact fun hkeyed hown => hkeeps hkeyed (hserving.shares hkeyed hown)
    · intro hfresh hstarted
      exact hvalues (by simp [Visit.starts, hfresh, hstarted])
  next => exact h index member hleft

/-- All members of a guarded run always stand as their tasks do, each from the
values that it found when it started. A task is `alone` in the session of the run
if it finds there what its own stretch before has left. What else every visit of
such a run keeps, it keeps. -/
theorem History.standing {P : Context → Floor → List (Member (Traced σ)) → Prop}
    {S : KeyMap String → Prop} {R : KeyMap String → KeyMap String → Prop} (alone : Prop)
    (hcheck : workflow.check = .ok ())
    (hguarded : workflow.isKeyed →
      Guarded behave workflow maxValueBytes context.session.id history)
    (h : History (Traced.poll behave) context (ofWorkflow workflow.traced) history)
    (hfirst : ∀ first, history.getLast? = some first → S first.state)
    (hbetween : history.IsChain fun later earlier => R earlier.step.state later.state)
    (halone : ∀ visit ∈ log (Traced.poll behave) context (ofWorkflow workflow.traced) history,
      P visit.scope.context visit.floor visit.members → alone → workflow.isKeyed = false →
      visit.member.phase.isRunning → ∀ last, visit.member.process.past.getLast? = some last →
      visit.floor.state = last.advance.state)
    (hopen : ∀ state world floor, S state →
      (ofWorkflow workflow.traced).open (context.withState state) world = .ok floor →
      P (context.withState state) floor (ofWorkflow workflow.traced).members)
    (hvisit : ∀ visit ∈ log (Traced.poll behave) context (ofWorkflow workflow.traced) history,
      Serving behave workflow maxValueBytes context visit.floor visit.members →
      Standing behave alone (workflow.terms maxValueBytes context) workflow
        (Found (workflow.terms maxValueBytes context)
          (log (Traced.poll behave) context (ofWorkflow workflow.traced) history)) visit.members →
      P visit.scope.context visit.floor visit.members →
      P visit.scope.context visit.after.1 visit.left)
    (hresume : ∀ current floor members state world, P current floor members →
      R floor.state state → P (context.withState state) { floor with state, world } members) :
    let terms := workflow.terms maxValueBytes context
    let V := Found terms (log (Traced.poll behave) context (ofWorkflow workflow.traced) history)
    (∀ visit ∈ log (Traced.poll behave) context (ofWorkflow workflow.traced) history,
      Serving behave workflow maxValueBytes context visit.floor visit.members ∧
        Standing behave alone terms workflow V visit.members ∧
          P visit.scope.context visit.floor visit.members) ∧
      ∀ stretch ∈ history, Comes (fun floor members =>
        Serving behave workflow maxValueBytes context floor members ∧
          Standing behave alone terms workflow V members ∧
            P (context.withState stretch.state) floor members)
        (ofWorkflow workflow.traced) context stretch := by
  intro terms V
  refine h.serving_induction
    (P := fun current floor members =>
      Standing behave alone terms workflow V members ∧ P current floor members)
    hcheck hguarded hfirst hbetween ?_ ?_ ?_
  · intro state world floor hS hopened
    exact ⟨standing_ofWorkflow behave alone terms workflow V, hopen state world floor hS hopened⟩
  · rintro visit hmem hserving ⟨hstanding, hP⟩
    obtain ⟨stretch, hstretch, hof⟩ := h.of_mem_log hmem
    refine ⟨hstanding.visited hserving hof ?_ (fun hkeyed => (hguarded hkeyed).keeps) ?_ ?_,
      hvisit visit hmem hserving hstanding hP⟩
    · exact fun hkeyed hshares => ((hguarded hkeyed).undisturbed hshares).within stretch hstretch
    · exact fun hstarts => ⟨visit, hmem, rfl, hstarts, rfl⟩
    · exact halone visit hmem hP
  · exact fun current floor members state world _ hP hR _ =>
      ⟨hP.1, hresume current floor members state world hP.2 hR⟩

end Run

end Coordination
