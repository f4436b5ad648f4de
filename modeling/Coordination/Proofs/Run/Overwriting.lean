import Coordination.Proofs.Config.Building
import Coordination.Proofs.Run.Ending
import Coordination.Proofs.Run.Lifetime
import Coordination.Proofs.Run.Measuring

/-!
# Commits do not overwrite each other

The members of a run commit their outputs under their own keys, and no two of a workflow
that may be run have the same one. So no commit changes what another member has published
(`Run.History.commits`), whatever the tasks themselves do to the ledger; and if they leave
the record of the run alone, what was committed is found unchanged later on, and in the end
(`Run.History.lasting`).

* `Ledger.OnlyAt`: what is left of the outputs under an id;
* `Member.Visited.commitsOwn`: a visit publishes under the key of its member, or not at all.
-/

namespace Coordination

variable {σ : Type}

/-! ## Outputs in a ledger -/

namespace Ledger

variable {ledger before after : Ledger} {id : String} {own : Option String} {now : Timestamp}
  {draft : Draft} {execution : Execution}

/-- The output that the record of an id holds under a key. -/
def outputAt (ledger : Ledger) (id key : String) : Option String :=
  (ledger.get? id).bind (·.outputs.get? key)

theorem outputAt_of_get? {record : Record} (h : ledger.get? id = some record) (key : String) :
    ledger.outputAt id key = record.outputs.get? key := by
  rw [outputAt, h, Option.bind_some]

/-- Whether the outputs of an id are as before, but for the one under this key, if it is one. -/
def OnlyAt (id : String) (own : Option String) (before after : Ledger) : Prop :=
  ∀ key, own ≠ some key → after.outputAt id key = before.outputAt id key

theorem OnlyAt.refl (id : String) (own : Option String) (ledger : Ledger) :
    OnlyAt id own ledger ledger :=
  fun _ _ => rfl

/-- A commit publishes under the key of its draft, if it has one. -/
theorem commit_onlyAt {value : String}
    (h : before.commit now id draft value = .ok (execution, after)) :
    OnlyAt id draft.outputKey before after := by
  cases hget : before.get? id with
  | none => simp [commit, find, hget, bind, Except.bind] at h
  | some record =>
    obtain ⟨-, rfl⟩ := commit_eq_ok hget h
    intro key hkey
    rw [outputAt_of_get? hget, outputAt, get?_put, if_pos rfl, Option.bind_some,
      Record.outputs_commit]
    cases hown : draft.outputKey with
    | none => rfl
    | some other => exact KeyMap.get?_insert_of_ne _ _ fun heq => hkey (by rw [hown, heq])

/-- A failure that is recorded publishes nothing. -/
theorem recordFailure_onlyAt {error : String} (own : Option String)
    (h : before.recordFailure now id draft error = .ok (execution, after)) :
    OnlyAt id own before after := by
  cases hget : before.get? id with
  | none => simp [recordFailure, find, hget, bind, Except.bind] at h
  | some record =>
    rw [recordFailure_of_get? hget, Except.ok.injEq, Prod.mk.injEq] at h
    obtain ⟨-, rfl⟩ := h
    intro key _
    rw [outputAt_of_get? hget, outputAt, get?_put, if_pos rfl, Option.bind_some]
    rfl

end Ledger

/-! ## What a visit publishes -/

/-- Whether the draft of an access, if it has one, goes by the key of a definition. -/
def Access.Of (definition : Definition) (access : Access) : Prop :=
  ∀ draft ∈ access.draft?, draft.outputKey = definition.outputKey

/-- The floor as these stretches of a task have left it. -/
def Floor.worked (floor : Floor) (exchanges : List (Exchange σ)) : Floor :=
  { floor with world := (exchanges.getLast?.map (·.advance.world)).getD floor.world }

theorem Floor.Around.ledger_worked {before after : Floor} (h : before.Around after)
    (exchanges : List (Exchange σ)) :
    (after.worked exchanges).ledger = (before.worked exchanges).ledger := by
  cases hlast : exchanges.getLast? with
  | none => simpa [worked, hlast] using h.ledger
  | some last => simpa [worked, hlast] using (h.withWorld last.advance.world).ledger

namespace Member

section Settling

variable (scope : Scope) (floor : Floor) (member : Member σ)

theorem recordFailure_onlyAt (own : Option String) (draft : Draft) (message : String) :
    floor.ledger.OnlyAt scope.context.session.id own
      (recordFailure scope floor draft message).ledger := by
  simp only [recordFailure]
  split
  next execution ledger hrecorded =>
    rw [Floor.ledger_setLedger]
    exact Ledger.recordFailure_onlyAt own hrecorded
  next => exact .refl _ _ _

theorem fail_onlyAt (own : Option String) (draft? : Option Draft) (events : List Event)
    (error : TaskError) : floor.ledger.OnlyAt scope.context.session.id own
      (fail scope floor member draft? events error).1.ledger := by
  cases draft? with
  | none => exact .refl _ _ _
  | some draft => exact recordFailure_onlyAt scope (floor.notice _) own draft _

theorem succeed_onlyAt {own : Option String} {draft? : Option Draft}
    (hown : ∀ draft ∈ draft?, draft.outputKey = own) (events : List Event) :
    floor.ledger.OnlyAt scope.context.session.id own
      (succeed scope floor member draft? events).1.ledger := by
  cases draft? with
  | none => exact .refl _ _ _
  | some draft =>
    simp only [succeed]
    split
    next record execution ledger _ hcommitted =>
      rw [Floor.ledger_measure, Floor.ledger_setLedger, ← hown draft rfl]
      exact Ledger.commit_onlyAt hcommitted
    next => exact fail_onlyAt scope floor.stamp.2 member own (some draft) events _
    next => exact fail_onlyAt scope floor.stamp.2 member own (some draft) events _

end Settling

/-- Whether the draft of a member that has started goes by its key. -/
def DraftsOwn (member : Member σ) : Prop :=
  ∀ access events, member.phase = .running access events → access.Of member.definition

theorem draftsOwn_of_settled {member : Member σ} (h : member.phase.settlement?.isSome) :
    member.DraftsOwn := by
  intro access events hphase
  rw [hphase] at h
  cases h

section Proceeding

variable (scope : Scope) (index : Nat) (poll : Poll σ) (floor : Floor) (member : Member σ)
  {access : Access} (haccess : access.Of member.definition) (events : List Event)
include haccess

/-- Whatever the stretch itself has left in the ledger, a member publishes under its key. -/
theorem proceed_onlyAt :
    let advance := poll (scope.turn.below index) (access.context scope.context floor.state)
      floor.world
    ({ floor with world := advance.world } : Floor).ledger.OnlyAt scope.context.session.id
      member.definition.outputKey
      (proceed scope index poll floor member access events).1.ledger := by
  cases access with
  | own draft context =>
    simp only [proceed, Access.context]
    split
    · exact .refl _ _ _
    · exact succeed_onlyAt scope _ _ haccess _
    · exact fail_onlyAt scope _ _ _ _ _ _
  | shared instruction =>
    -- There is no draft, so that nothing is published however the stretch ends.
    simp only [proceed, Access.context]
    split <;> exact .refl _ _ _

theorem proceed_draftsOwn : (proceed scope index poll floor member access events).2.DraftsOwn := by
  cases access <;>
  · simp only [proceed]
    split
    · intro access events hphase
      obtain ⟨rfl, -⟩ := Phase.running.inj hphase
      exact haccess
    · exact draftsOwn_of_settled (settled_succeed ..)
    · exact draftsOwn_of_settled rfl

end Proceeding

/-- What a visit leaves that gives these stretches to its member's task: whatever they have
left in the ledger, and an output under the key of the member, if the visit commits one. -/
structure CommitsOwn (id : String) (floor : Floor) (member : Member (Traced σ))
    (after : Floor × Member (Traced σ)) (exchanges : List (Exchange σ)) : Prop where
  past : after.2.process.past = member.process.past ++ exchanges
  ledger : (floor.worked exchanges).ledger.OnlyAt id member.definition.outputKey after.1.ledger
  drafts : after.2.DraftsOwn

section CommitsOwn

variable (behave : σ → Poll σ) {scope : Scope} {index : Nat} {floor : Floor}
  {member : Member (Traced σ)} {after : Floor × Member (Traced σ)}

theorem CommitsOwn.around {id : String} {entered left : Floor} {exchanges : List (Exchange σ)}
    (h : CommitsOwn id entered member after exchanges) (hentered : floor.Around entered)
    (hleft : after.1.Around left) : CommitsOwn id floor member (left, after.2) exchanges where
  past := h.past
  ledger := by
    rw [hleft.ledger, ← hentered.ledger_worked]
    exact h.ledger
  drafts := h.drafts

/-- A visit that gives no stretch to a task, and publishes nothing. -/
theorem commitsOwn_nil {id : String} (hpast : after.2.process.past = member.process.past)
    (hledger : floor.ledger.OnlyAt id member.definition.outputKey after.1.ledger)
    (hdrafts : after.2.DraftsOwn) : CommitsOwn id floor member after [] :=
  ⟨by rw [hpast, List.append_nil], hledger, hdrafts⟩

theorem proceed_commitsOwn (scope : Scope) (index : Nat) (floor : Floor)
    (member : Member (Traced σ)) (access : Access) (haccess : access.Of member.definition)
    (events : List Event) : ∃ exchanges, CommitsOwn scope.context.session.id floor member
      (proceed scope index (Traced.poll behave member.process) floor member access events)
      exchanges := by
  let turn := scope.turn.below index
  let context := access.context scope.context floor.state
  refine ⟨[⟨turn, context, floor.world, behave member.process.task turn context floor.world⟩],
    ?_, proceed_onlyAt scope index (Traced.poll behave member.process) floor member haccess events,
    proceed_draftsOwn scope index _ floor member haccess events⟩
  rw [process_proceed]
  rfl

theorem start_commitsOwn (scope : Scope) (index : Nat) (floor : Floor)
    (member : Member (Traced σ)) : ∃ exchanges, CommitsOwn scope.context.session.id floor member
      (start scope index (Traced.poll behave member.process) floor member) exchanges := by
  have hfails : ∀ floor' draft? error, floor'.ledger = floor.ledger →
      CommitsOwn scope.context.session.id floor member
        (fail scope floor' member draft? [] error) [] := by
    intro floor' draft? error hledger
    refine commitsOwn_nil rfl ?_ (draftsOwn_of_settled rfl)
    rw [← hledger]
    exact fail_onlyAt scope floor' member _ draft? [] error
  unfold start
  split
  · simp only
    split
    next refusal _ => exact ⟨[], hfails _ _ _ rfl⟩
    next outputs _ =>
      split
      next error _ => exact ⟨[], hfails _ _ _ rfl⟩
      next instruction _ =>
        have haccess : (Access.own (draft scope index member.definition floor.stamp.1)
            ((scope.context.child (Context.childId scope.context.session.id index)
              (floor.state.overlay outputs)).withInstruction instruction)).Of
                member.definition := by
          rintro _ ⟨⟩
          rfl
        obtain ⟨exchanges, hcommits⟩ :=
          proceed_commitsOwn behave scope index floor.stamp.2 member _ haccess []
        exact ⟨exchanges, hcommits.around ⟨floor.kept_stamp, rfl⟩ (.refl _)⟩
  · split
    next error _ => exact ⟨[], hfails _ _ _ rfl⟩
    next instruction _ =>
      exact proceed_commitsOwn behave scope index floor member (.shared instruction)
        (fun _ hmem => by cases hmem) []

variable {behave}

/-- A visit publishes under the key of its member, or not at all. -/
theorem Visited.commitsOwn (hdrafts : member.DraftsOwn)
    (h : Visited scope index (Traced.poll behave member.process) floor member after) :
    ∃ exchanges, CommitsOwn scope.context.session.id floor member after exchanges := by
  cases h with
  | stays => exact ⟨[], commitsOwn_nil rfl (.refl _ _ _) hdrafts⟩
  | waits left _ hleft =>
    refine ⟨[], commitsOwn_nil rfl ?_ fun _ _ hphase => by cases hphase⟩
    rw [hleft.ledger]
    exact .refl _ _ _
  | starts entered left _ hentered hleft =>
    obtain ⟨exchanges, hcommits⟩ := start_commitsOwn behave scope index entered member
    exact ⟨exchanges, hcommits.around hentered hleft⟩
  | proceeds access events left hphase hleft =>
    obtain ⟨exchanges, hcommits⟩ := proceed_commitsOwn behave scope index floor member access
      (hdrafts access events hphase) events
    exact ⟨exchanges, hcommits.around (.refl floor) hleft⟩

end CommitsOwn

end Member

namespace Visit

/-- Whether the run itself leaves the outputs of all members as they are but that of the
visited one: its ledger holds them as the task of that member has left them. -/
def SparesOthers (visit : Visit (Traced σ)) : Prop :=
  ∀ (index : Nat) (other : Member (Traced σ)) (key : String), visit.members[index]? = some other →
    index ≠ visit.index → other.definition.outputKey = some key →
      visit.after.1.ledger.outputAt visit.scope.context.session.id key =
        (visit.floor.worked visit.exchanges).ledger.outputAt visit.scope.context.session.id key

end Visit

namespace Run

/-! ## Runs -/

variable {behave : σ → Poll σ} {workflow : Workflow σ} {context : Context}
  {history : List (Stretch (Traced σ))}

theorem distinctKeys_iff_nodup {definitions : List Definition} :
    DistinctKeys definitions ↔ (definitions.filterMap (·.outputKey)).Nodup := by
  refine ⟨fun h => List.pairwise_filterMap.2 (List.pairwise_iff_getElem.2 ?_),
    distinctKeys_of_nodup⟩
  rintro i j hi hj hlt key hkey _ hkey' rfl
  exact absurd (h i j _ _ key (List.getElem?_eq_getElem hi) (List.getElem?_eq_getElem hj) hkey
    hkey') (Nat.ne_of_lt hlt)

/-- The members of a run carry out its workflow, and the drafts of those that have started go
by their keys. -/
structure Drafting (behave : σ → Poll σ) (workflow : Workflow σ) (floor : Floor)
    (members : List (Member (Traced σ))) : Prop where
  keyed : floor.keyed = workflow.isKeyed
  carries : Carries behave workflow members
  drafts : ∀ member ∈ members, member.DraftsOwn

theorem drafting_open {world : World} {floor : Floor} (behave : σ → Poll σ)
    (h : (ofWorkflow workflow.traced).open context world = .ok floor) :
    Drafting behave workflow floor (ofWorkflow workflow.traced).members where
  keyed := by
    obtain ⟨recorded, hrecorded, hopened⟩ := open_eq_ok h
    exact ((putUpGate_eq_ok hopened).1.keyed.trans (createRecord_abides hrecorded).keyed).trans
      (carries_ofWorkflow behave workflow).isKeyed
  carries := carries_ofWorkflow behave workflow
  drafts := by
    intro member hmem access events hphase
    obtain ⟨index, hget⟩ := List.mem_iff_getElem?.1 hmem
    obtain ⟨_, _, -, rfl⟩ := getElem?_members_ofWorkflow hget
    cases hphase

/-- A visit publishes under the key of its member, or not at all, and so it goes on. -/
theorem Drafting.visited {visit : Visit (Traced σ)} {stretch : Stretch (Traced σ)}
    (h : Drafting behave workflow visit.floor visit.members)
    (hof : visit.Of (Traced.poll behave) workflow.plan context stretch) :
    Drafting behave workflow visit.after.1 visit.left ∧
      (visit.floor.worked visit.exchanges).ledger.OnlyAt visit.scope.context.session.id
        visit.member.definition.outputKey visit.after.1.ledger := by
  have hget := visit.getElem?_members
  have hvisited := hof.visited
  obtain ⟨exchanges, hcommits⟩ := hvisited.commitsOwn (h.drafts _ (List.mem_of_getElem? hget))
  have hexchanges : visit.exchanges = exchanges := by
    rw [Visit.exchanges, hcommits.past, List.drop_left]
  have habides : Floor.Abides False visit.floor visit.after.1 :=
    hvisited.abides visit.floor fun hfalse => hfalse.elim
  rw [visit.left_eq_set, hexchanges]
  refine ⟨⟨habides.keyed.trans h.keyed, h.carries.set hget hvisited.polled, fun member hmem => ?_⟩,
    hcommits.ledger⟩
  rcases List.mem_or_eq_of_mem_set hmem with hold | rfl
  · exact h.drafts member hold
  · exact hcommits.drafts

/-- So it is at every visit of a run, whatever its tasks do. -/
theorem History.drafting
    (h : History (Traced.poll behave) context (ofWorkflow workflow.traced) history) :
    ∀ visit ∈ log (Traced.poll behave) context (ofWorkflow workflow.traced) history,
      Drafting behave workflow visit.floor visit.members :=
  (h.log_induction (P := fun _ floor members => Drafting behave workflow floor members)
    (R := fun _ _ => True) rfl (fun _ _ _ hP => hP.keyed.trans hP.carries.any_isSome.symm)
    (fun _ _ _ hopen => drafting_open behave hopen)
    (fun visit hmem hP => by
      obtain ⟨stretch, -, hof⟩ := h.of_mem_log hmem
      exact (hP.visited hof).1)
    (List.pairwise_of_forall fun _ _ => trivial).isChain
    (fun _ _ _ _ _ hP _ => ⟨hP.keyed, hP.carries, hP.drafts⟩)).1

/-- What a run does not do to the outputs of its members: overwrite them. -/
structure KeepsOutputs (behave : σ → Poll σ) (workflow : Workflow σ) (context : Context)
    (history : List (Stretch (Traced σ))) : Prop where
  /-- Whatever the tasks do, what the run itself does at a visit concerns the output of no
  other member. -/
  commits : ∀ visit ∈ log (Traced.poll behave) context (ofWorkflow workflow.traced) history,
    visit.SparesOthers
  /-- If the tasks leave the record of the run alone, what a member has committed is found
  unchanged from then on, and in the record that the run reports. -/
  lasting : (workflow.plan.sharesLedger → Undisturbed context.session.id history) →
    ∀ before visit later, log (Traced.poll behave) context (ofWorkflow workflow.traced) history =
      before ++ visit :: later →
    ∀ index definition settlement key, SettledAt visit.left index definition settlement →
      settlement.isSuccess → definition.outputKey = some key →
      let committed := some (textOf settlement.events)
      visit.after.1.ledger.outputAt context.session.id key = committed ∧
      (∀ next ∈ later, next.floor.ledger.outputAt context.session.id key = committed ∧
        next.after.1.ledger.outputAt context.session.id key = committed) ∧
      ∀ last report record, history.head? = some last → last.step.result = some (.ok report) →
        report.record = some record → record.outputs.get? key = committed

/-- The members of a run under way find in its ledger what they have committed. -/
theorem Underway.outputAt {id : String} {floor : Floor} {members : List (Member (Traced σ))}
    (h : Underway behave workflow id floor members) {index : Nat} {definition : Definition}
    {settlement : Settlement} {key : String}
    (hsettled : SettledAt members index definition settlement) (hsuccess : settlement.isSuccess)
    (hkey : definition.outputKey = some key) :
    floor.ledger.outputAt id key = some (textOf settlement.events) := by
  obtain ⟨record, hrecord, haccord⟩ := h.accord
  rw [Ledger.outputAt_of_get? hrecord]
  exact (haccord.outputs key _).2 ⟨index, definition, settlement, hsettled, hsuccess, hkey, rfl⟩

/-- At its end the run reports it. -/
theorem Underway.outputs_reported {id : String} {floor : Floor}
    {members : List (Member (Traced σ))} (h : Underway behave workflow id floor members)
    {order : Order} {report : Report} {after : Floor}
    (hconclude : conclude order id floor members = some (.ok report, after)) {index : Nat}
    {definition : Definition} {settlement : Settlement} {key : String}
    (hsettled : SettledAt members index definition settlement) (hsuccess : settlement.isSuccess)
    (hkey : definition.outputKey = some key) {record : Record}
    (hrecord : report.record = some record) :
    record.outputs.get? key = some (textOf settlement.events) := by
  obtain ⟨held, hheld, -⟩ := h.accord
  obtain ⟨report', now, verdict, hok, hreported, -⟩ := h.settles hheld hconclude
  obtain rfl := Except.ok.inj hok
  obtain rfl := Option.some.inj (hrecord.symm.trans hreported)
  have hout := h.outputAt hsettled hsuccess hkey
  rwa [Ledger.outputAt_of_get? hheld] at hout

theorem History.lasting (hcheck : workflow.check = .ok ()) (hkeyed : workflow.isKeyed = true)
    (h : History (Traced.poll behave) context (ofWorkflow workflow.traced) history)
    (hundisturbed : workflow.plan.sharesLedger → Undisturbed context.session.id history)
    {before later : List (Visit (Traced σ))} {visit : Visit (Traced σ)}
    (hlog : log (Traced.poll behave) context (ofWorkflow workflow.traced) history =
      before ++ visit :: later) {index : Nat} {definition : Definition} {settlement : Settlement}
    {key : String} (hsettled : SettledAt visit.left index definition settlement)
    (hsuccess : settlement.isSuccess) (hkey : definition.outputKey = some key) :
    let committed := some (textOf settlement.events)
    visit.after.1.ledger.outputAt context.session.id key = committed ∧
      (∀ next ∈ later, next.floor.ledger.outputAt context.session.id key = committed ∧
        next.after.1.ledger.outputAt context.session.id key = committed) ∧
      ∀ last report record, history.head? = some last → last.step.result = some (.ok report) →
        report.record = some record → record.outputs.get? key = committed := by
  intro committed
  obtain ⟨hvisits, -, hlast⟩ := h.underway_account
    (P := fun before _ members => ∀ visit ∈ before, Onward visit.left members) hcheck hkeyed
    hundisturbed (fun _ _ _ _ _ hmem => by cases hmem)
    (fun stretch _ visit before hof _ honward earlier hmem => by
      rcases List.mem_append.1 hmem with hmem | hmem
      · exact (honward earlier hmem).trans hof.onward
      · obtain rfl := List.mem_singleton.1 hmem
        exact .refl _)
    (fun _ _ _ _ _ honward _ => honward)
  have hleft : ∀ next ∈ log (Traced.poll behave) context (ofWorkflow workflow.traced) history,
      Underway behave workflow context.session.id next.floor next.members ∧
        Underway behave workflow context.session.id next.after.1 next.left := by
    intro next hmem
    obtain ⟨_, hunder, -⟩ := hvisits next hmem
    obtain ⟨stretch, hstretch, hof⟩ := h.of_mem_log hmem
    exact ⟨hunder, hunder.visited hof fun hshares =>
      (hundisturbed hshares).within stretch hstretch⟩
  have hlater := h.onward hlog
  rw [hlog] at hleft hlast
  refine ⟨(hleft visit (by simp)).2.outputAt hsettled hsuccess hkey, fun next hmem => ?_, ?_⟩
  · have hstill := (hlater next hmem).settledAt hsettled
    obtain ⟨hbefore, hafter⟩ := hleft next (by simp [hmem])
    obtain ⟨stretch, -, hof⟩ := h.of_mem_log (show next ∈ log _ _ _ _ by simp [hlog, hmem])
    exact ⟨hbefore.outputAt hstill hsuccess hkey,
      hafter.outputAt (hof.onward.settledAt hstill) hsuccess hkey⟩
  · intro last report record hhead hresult hrecord
    rcases hlast last hhead with harrives | ⟨-, hnone, -⟩
    · obtain ⟨floor, after, ⟨hunder, honward⟩, hconclude⟩ := harrives.of_ok hresult
      exact hunder.outputs_reported hconclude ((honward visit (by simp)).settledAt hsettled)
        hsuccess hkey hrecord
    · simp at hnone

/-- A workflow that may be run keeps the outputs of its members apart in all its runs. -/
theorem History.keepsOutputs (hcheck : workflow.check = .ok ())
    (h : History (Traced.poll behave) context (ofWorkflow workflow.traced) history) :
    KeepsOutputs behave workflow context history where
  commits := by
    intro visit hmem index other key hget hne hkey
    have hdrafting := h.drafting visit hmem
    obtain ⟨stretch, -, hof⟩ := h.of_mem_log hmem
    refine (hdrafting.visited hof).2 key fun hown => hne ?_
    have hdistinct := distinctKeys_ofWorkflow hcheck
    rw [(carries_ofWorkflow behave workflow).definitions,
      ← hdrafting.carries.definitions] at hdistinct
    refine hdistinct index visit.index other.definition visit.member.definition key ?_ ?_ hkey hown
    · rw [List.getElem?_map, hget, Option.map_some]
    · rw [List.getElem?_map, visit.getElem?_members, Option.map_some]
  lasting := by
    intro hundisturbed before visit later hlog index definition settlement key hsettled hsuccess
      hkey
    have hmem : visit ∈ log (Traced.poll behave) context (ofWorkflow workflow.traced) history := by
      simp [hlog]
    obtain ⟨stretch, -, hof⟩ := h.of_mem_log hmem
    have hcarries := ((h.drafting visit hmem).visited hof).1.carries
    -- A member with a key is there only in a run with output keys.
    have hkeyed : workflow.isKeyed = true := by
      obtain ⟨member, hget, rfl, -⟩ := settledAt_iff.1 hsettled
      exact hcarries.isKeyed_of_mem (List.mem_of_getElem? hget) hkey
    exact h.lasting hcheck hkeyed hundisturbed hlog hsettled hsuccess hkey

/-- Keys are checked for repetitions: a list passes exactly if no key occurs in it twice. Else
the keys that do are told, each once, in ascending order; and the order of the list makes no
difference. So a workflow may be run exactly if its bound, where it has one, is in range and the
sub-tasks with a key have different ones; and in no run of it a commit overwrites the
output of another sub-task. -/
theorem outputs_kept_apart :
    (∀ keys, (OutputKey.checkUnique keys = .ok () ↔ keys.Nodup) ∧
      (¬ keys.Nodup → ∃ repeated,
        OutputKey.checkUnique keys = .error (.duplicateKeys repeated) ∧ repeated ≠ [] ∧
          (∀ key, key ∈ repeated ↔ 2 ≤ keys.count key) ∧ repeated.Pairwise (· < ·)) ∧
      ∀ keys', keys.Perm keys' → OutputKey.checkUnique keys' = OutputKey.checkUnique keys) ∧
    (∀ (τ : Type) (workflow : Workflow τ), workflow.check = .ok () ↔
      (∀ workers, workflow.plan.order = .parallel workers → checkWorkers workers = .ok ()) ∧
        DistinctKeys (workflow.members.map (·.1))) ∧
    ∀ (σ : Type) (behave : σ → Poll σ) (workflow : Workflow σ) (context : Context)
      (history : List (Stretch (Traced σ))), workflow.check = .ok () →
      History (Traced.poll behave) context (ofWorkflow workflow.traced) history →
        KeepsOutputs behave workflow context history := by
  refine ⟨fun keys => ⟨OutputKey.checkUnique_eq_ok_iff, fun hrepeats => ?_,
    fun _ => OutputKey.checkUnique_perm⟩, fun τ workflow => ?_,
    fun _ _ _ _ _ hcheck h => h.keepsOutputs hcheck⟩
  · have hsome := mt OutputKey.duplicates_eq_nil_iff.1 hrepeats
    exact ⟨OutputKey.duplicates keys, OutputKey.checkUnique_eq_error hsome
      (KeyMap.keys_ascending _) fun _ => OutputKey.mem_duplicates, hsome,
      fun _ => OutputKey.mem_duplicates, KeyMap.keys_ascending _⟩
  · rw [Workflow.check_eq_ok_iff, distinctKeys_iff_nodup, List.filterMap_map]
    rfl

/-- What the first sub-task of a dispatch has committed is there when the second has committed,
and in the end. -/
theorem outputs_kept_apart_dispatch : ∃ visit ∈ dispatchLog, ∃ report record,
    visit.index = 1 ∧ visit.SparesOthers ∧
      visit.after.1.ledger.outputAt "s" "b" = some "ice" ∧
      visit.after.1.ledger.outputAt "s" "a" = some "sun" ∧
      dispatchSecond.step.result = some (.ok report) ∧ report.record = some record ∧
      record.outputs.get? "a" = some "sun" := by
  have h : History (Traced.poll Leaf.poll) dispatchContext (ofWorkflow dispatch.traced)
      [dispatchSecond, dispatchFirst] := .next (.first _ _ _) rfl _ _ _
  have hkeeps := outputs_kept_apart.2.2 Leaf Leaf.poll dispatch dispatchContext _ rfl h
  obtain ⟨first, hfirst⟩ : ∃ visit, dispatchLog[0]? = some visit := ⟨_, rfl⟩
  obtain ⟨visit, hvisit⟩ : ∃ visit, dispatchLog[3]? = some visit := ⟨_, rfl⟩
  obtain ⟨hlt, hget⟩ := List.getElem?_eq_some_iff.1 hfirst
  have hlog : dispatchLog = [] ++ first :: dispatchLog.drop 1 := by
    rw [List.nil_append, ← hget, ← List.drop_eq_getElem_cons hlt, List.drop_zero]
  have hmem := List.mem_of_getElem? hvisit
  have hlater : visit ∈ dispatchLog.drop 1 := by
    refine List.mem_of_getElem? (i := 2) ?_
    rw [List.getElem?_drop, hvisit]
  have hone : (dispatchLog[0]?.bind fun visit => visit.left[0]?.bind fun member =>
      member.phase.settlement?.map fun settlement =>
        (member.definition.outputKey, settlement.isSuccess, textOf settlement.events)) =
      some (some "a", true, "sun") := by decide +kernel
  have htwo : dispatchLog[3]?.map (fun visit => (visit.index,
      visit.after.1.ledger.outputAt "s" "b")) = some (1, some "ice") := by decide +kernel
  rw [hfirst, Option.bind_some, Option.bind_eq_some_iff] at hone
  obtain ⟨member, hmember, hone⟩ := hone
  obtain ⟨settlement, hsettlement, hone⟩ := Option.map_eq_some_iff.1 hone
  simp only [Prod.mk.injEq] at hone
  obtain ⟨hkey, hsuccess, htext⟩ := hone
  simp only [hvisit, Option.map_some, Option.some.injEq, Prod.mk.injEq] at htwo
  obtain ⟨hindex, hice⟩ := htwo
  obtain ⟨-, hstays, hreports⟩ := hkeeps.lasting (fun _ => dispatch_undisturbed) [] first _ hlog 0
    member.definition settlement "a" (settledAt_iff.2 ⟨member, hmember, rfl, hsettlement⟩) hsuccess
    hkey
  have hreported : (dispatchSecond.step.result.bind fun result =>
      result.toOption.bind (·.record)).isSome := by decide +kernel
  obtain ⟨result, hresult, hrecord⟩ := Option.bind_eq_some_iff.1
    (Option.isSome_iff_exists.1 hreported).choose_spec
  obtain ⟨report, hreport, hrecord⟩ := Option.bind_eq_some_iff.1 hrecord
  have hok : dispatchSecond.step.result = some (.ok report) := by
    cases result with
    | error error => cases hreport
    | ok report' => rw [hresult, Option.some.inj hreport]
  exact ⟨visit, hmem, report, _, hindex, hkeeps.commits visit hmem, hice,
    htext ▸ (hstays visit hlater).2, hok, hrecord, htext ▸ hreports _ report _ rfl hok hrecord⟩

end Run

end Coordination
