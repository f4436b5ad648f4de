import Coordination.Proofs.Run.Deadline
import Coordination.Proofs.Run.Moments
import Coordination.Proofs.Run.Returns

/-!
# The successes in the record of a run

The successes that a run appends, read off its visits one by one (`Visit.appended`), are
those in its record, in the same order and under the name of the run (`Record.Credits`),
provided that nobody else touches the record. So they are those in the record that it
returns, however it returns.

* `Record.Credits.moved`: what a visit makes of the record, and what it appends;
* `Run.History.credited`: the record after every stretch;
* `Run.Step.Returns.credited`: the record that is returned;
* `Run.History.appended_of_not_keyed`: without output keys nothing is appended.
-/

namespace Coordination

variable {σ : Type}

/-- The successes in a record. -/
def Record.successes (record : Record) : List Execution := record.executions.filter (·.isSuccess)

/-- Whether a record bears the name and the namespace of a workflow. -/
def Record.Bears (plan : Plan) (record : Record) : Prop :=
  record.workflowName = plan.name ∧ record.namespace = plan.namespace

/-- Whether these are the successes in a record, each appended under the name that the
record bears. -/
structure Record.Credits (plan : Plan) (appended : List (Record × Execution)) (record : Record) :
    Prop where
  bears : record.Bears plan
  labels : ∀ success ∈ appended, success.1.Bears plan
  successes : record.successes = appended.map (·.2)

theorem Record.Credits.start (plan : Plan) (now : Timestamp) (id owner : String) :
    (Record.start now id owner plan.name plan.namespace).Credits plan [] :=
  ⟨⟨rfl, rfl⟩, fun _ hmem => absurd hmem List.not_mem_nil, rfl⟩

theorem Record.Bears.commit {plan : Plan} {record : Record} (h : record.Bears plan)
    (now : Timestamp) (draft : Draft) (value : String) :
    (record.commit now draft value).Bears plan :=
  ⟨(record.workflowName_commit now draft value).trans h.1,
    (record.namespace_commit now draft value).trans h.2⟩

/-- Bringing a record to its end leaves the successes in it. -/
theorem Record.Credits.settle {plan : Plan} {appended : List (Record × Execution)}
    {record : Record} (h : record.Credits plan appended) (now : Timestamp) (verdict : Verdict) :
    (record.settle now verdict).Credits plan appended :=
  ⟨h.bears, h.labels, h.successes⟩

/-! ## Visits -/

/-- Who works in a session of its own publishes, unless it has settled. -/
theorem Member.Coherent.publishes {plan : Plan} {id : String} {index : Nat}
    {member : Member (Traced σ)} (h : member.Coherent plan id index) :
    member.publishes true = member.phase.settlement?.isNone := by
  unfold Member.publishes
  cases hphase : member.phase with
  | idle | waiting | settled => rfl
  | running access events =>
    simp only [Member.Coherent, hphase] at h
    obtain ⟨⟨draft, context, rfl, -⟩, -⟩ := h
    rfl

/-- What a visit makes of the record, and what it appends. -/
theorem Record.Credits.moved {plan : Plan} {id : String} {index : Nat} {record record' : Record}
    {appended : List (Record × Execution)} {member : Member (Traced σ)}
    {after : Floor × Member (Traced σ)} (h : record.Credits plan appended)
    (hcoherent : member.Coherent plan id index)
    (hmoved : member.Moved plan id index record after.2 record')
    (hget : after.1.ledger.get? id = some record') :
    record'.Credits plan
      (appended ++ (if member.publishes true then Member.appended id after else none).toList) := by
  have hpublishes := hcoherent.publishes
  cases hmoved with
  | onward _ hsettlement _ =>
    -- Whoever had settled before appends nothing any more.
    have hnone : (if member.publishes true then Member.appended id after else none) = none := by
      rw [hpublishes, Member.appended, hsettlement]
      cases member.phase.settlement? <;> rfl
    rwa [hnone, Option.toList_none, List.append_nil]
  | @succeeded now draft hunsettled _ _ hphase _ =>
    have hsome : (if member.publishes true then Member.appended id after else none) =
        some (record.commit now draft (textOf after.2.process.events),
          Ledger.succeed record now draft (textOf after.2.process.events)) := by
      rw [hpublishes, hunsettled]
      simp [Member.appended, hphase, hget, Phase.settlement?, Settlement.isSuccess]
    have hbears := h.bears.commit now draft (textOf after.2.process.events)
    rw [hsome, Option.toList_some]
    refine ⟨hbears, List.forall_mem_append.2 ⟨h.labels, List.forall_mem_singleton.2 hbears⟩, ?_⟩
    rw [Record.successes, Record.executions_commit, List.filter_append, List.map_append,
      ← h.successes]
    rfl
  | @failed now draft message hunsettled _ _ hphase =>
    have hnone : (if member.publishes true then Member.appended id after else none) = none := by
      simp [Member.appended, hphase, Phase.settlement?, Settlement.isSuccess]
    rw [hnone, Option.toList_none, List.append_nil]
    refine ⟨h.bears, h.labels, ?_⟩
    rw [← h.successes, Record.successes, Record.append, List.filter_append]
    exact List.append_nil _

/-- The run has a record in its ledger in which these are the successes. -/
def Floor.Credits (plan : Plan) (id : String) (appended : List (Record × Execution))
    (floor : Floor) : Prop :=
  ∃ record, floor.ledger.get? id = some record ∧ record.Credits plan appended

namespace Run

variable {behave : σ → Poll σ} {workflow : Workflow σ} {context : Context}
  {history : List (Stretch (Traced σ))}

theorem credits_visited {appended : List (Record × Execution)} {visit : Visit (Traced σ)}
    {stretch : Stretch (Traced σ)}
    (hunder : Underway behave workflow context.session.id visit.floor visit.members)
    (hcredits : visit.floor.Credits workflow.plan context.session.id appended)
    (hof : visit.Of (Traced.poll behave) workflow.plan context stretch)
    (hspares : workflow.plan.sharesLedger → ∀ member ∈ stretch.step.run.members,
      member.process.Spares context.session.id) :
    visit.after.1.Credits workflow.plan context.session.id (appended ++ visit.appended.toList) := by
  obtain ⟨record, record', hget, haccord, hget', hmoved⟩ := hunder.movesTo hof hspares
  obtain ⟨found, hfound, hcredits⟩ := hcredits
  obtain rfl : record = found := Option.some.inj (hget.symm.trans hfound)
  have hid : visit.scope.context.session.id = context.session.id := by rw [hof.scope]; rfl
  have hmember := haccord.coherent _ _ visit.getElem?_members
  refine ⟨record', hget', ?_⟩
  rw [Visit.appended, hunder.keyed, hid]
  exact hcredits.moved hmember hmoved hget'

theorem credits_open {world : World} {floor : Floor} (hkeyed : workflow.isKeyed = true)
    (h : (ofWorkflow workflow.traced).open context world = .ok floor) :
    floor.Credits workflow.plan context.session.id [] := by
  have hrun : (ofWorkflow workflow.traced).isKeyed = true :=
    (any_isSome_of_definitions (definitions_traced workflow)).trans hkeyed
  obtain ⟨recorded, hrecorded, hopened⟩ := open_eq_ok h
  obtain ⟨-, now, hrecord⟩ := createRecord_eq_ok hrun hrecorded
  obtain ⟨-, hledger, -⟩ := putUpGate_eq_ok hopened
  exact ⟨_, hledger ▸ hrecord, .start workflow.plan now _ _⟩

/-! ## Histories -/

/-- After every stretch of a run with output keys, the successes in its record are those
that it has appended, provided that nobody else touches the record. -/
theorem History.credited {last : Stretch (Traced σ)} (hcheck : workflow.check = .ok ())
    (hkeyed : workflow.isKeyed = true)
    (h : History (Traced.poll behave) context (ofWorkflow workflow.traced) history)
    (hundisturbed : workflow.plan.sharesLedger → Undisturbed context.session.id history)
    (hlast : history.head? = some last) :
    let appended := (log (Traced.poll behave) context (ofWorkflow workflow.traced) history).filterMap
      Visit.appended
    Arrives (fun floor members => Underway behave workflow context.session.id floor members ∧
        floor.Credits workflow.plan context.session.id appended)
        workflow.plan context.session.id last.step ∨
      history = [last] ∧ appended = [] ∧ ∃ refusal,
        (ofWorkflow workflow.traced).open (context.withState last.state) last.world =
          .error refusal ∧ last.step.result = some (.error refusal.1) := by
  intro appended
  have haccount := (h.underway_account
    (P := fun before floor _ => floor.Credits workflow.plan context.session.id
      (before.filterMap Visit.appended)) hcheck hkeyed hundisturbed ?_ ?_ ?_).2.2 last hlast
  · rcases haccount with harrives | ⟨honly, hlog, refusal, hopen, hstep⟩
    · exact .inl harrives
    · refine .inr ⟨honly, ?_, refusal, hopen, by rw [hstep]⟩
      simp only [appended, hlog, List.filterMap_nil]
  · intro state world floor hopen
    have hcredits := credits_open hkeyed hopen
    exact hcredits
  · intro stretch hstretch visit before hof hunder hcredits
    have hnext := credits_visited hunder hcredits hof fun hshares =>
      (hundisturbed hshares).within stretch hstretch
    rw [List.filterMap_append]
    cases happended : visit.appended <;> simpa [happended] using hnext
  · rintro _ floor _ state world ⟨record, hrecord, hcredits⟩ hsame
    exact ⟨record, hsame.trans hrecord, hcredits⟩

/-- So it has appended them under its own name. -/
theorem History.bears {last : Stretch (Traced σ)} (hcheck : workflow.check = .ok ())
    (hkeyed : workflow.isKeyed = true)
    (h : History (Traced.poll behave) context (ofWorkflow workflow.traced) history)
    (hundisturbed : workflow.plan.sharesLedger → Undisturbed context.session.id history)
    (hlast : history.head? = some last) :
    ∀ success ∈ (log (Traced.poll behave) context (ofWorkflow workflow.traced) history).filterMap
      Visit.appended, success.1.Bears workflow.plan := by
  rcases h.credited hcheck hkeyed hundisturbed hlast with
    (⟨_, _, ⟨-, _, -, hcredits⟩, -⟩ | ⟨_, _, _, _, ⟨-, _, -, hcredits⟩, -⟩) | ⟨-, hnone, -⟩
  · exact hcredits.labels
  · exact hcredits.labels
  · rw [hnone]
    exact fun _ hmem => absurd hmem List.not_mem_nil

/-- A run without output keys appends nothing. -/
theorem History.appended_of_not_keyed {sessions : String → Prop} {B : σ → Prop}
    {licence : Licence} (hkeyed : workflow.isKeyed = false)
    (h : History (Traced.poll behave) context (ofWorkflow workflow.traced) history)
    (hbehave : ∀ task, B task → (behave task).Heeds licence sessions B)
    (hstart : ∀ index, sessions (Member.startId workflow.isKeyed context.session.id index))
    (htasks : ∀ member ∈ workflow.members, B member.2) :
    ∀ visit ∈ log (Traced.poll behave) context (ofWorkflow workflow.traced) history,
      visit.appended = none := by
  intro visit hmem
  have hengaged := (h.log_induction
    (P := fun _ floor members => Engaged sessions B workflow context.session.id floor members)
    (R := fun _ _ => True) rfl (fun _ _ _ hP => hP.any_isSome)
    (fun _ _ _ hopen => engaged_open htasks hopen)
    (fun visit hmem hP => by
      obtain ⟨stretch, -, hof⟩ := h.of_mem_log hmem
      exact (hP.visited hbehave hstart hof).1)
    (List.pairwise_of_forall fun _ _ => trivial).isChain
    (fun _ _ _ state world hP _ => hP.resume state world)).1 visit hmem
  have hpublishes := hengaged.publishes (List.mem_of_getElem? visit.getElem?_members)
  rw [Visit.appended, hpublishes, hkeyed, Bool.and_false, if_neg Bool.false_ne_true]

/-! ## The record that is returned -/

/-- At its deadline a run returns its record as it has settled it. -/
theorem expire_of_get? {run : Run Process} {gate : Gate Nat} {own : Option Ledger}
    {context : Context} {record : Record} (hstage : run.stage = .open gate own)
    (hkeyed : run.isKeyed = true) (deadline : Nat) (world : World)
    (hrecord : (⟨context.state, true, own, gate, world⟩ : Floor).ledger.get? context.session.id =
      some record) (hrunning : record.status = .running) :
    ∃ now, (run.expire deadline context world).1 =
      .ok (cutReport run.members (record.settle now .cancelled)) := by
  have hdropped := Process.ledger_abandon (.workflow run) world
  have hheld := (Floor.get?_ledger_withWorld ⟨context.state, true, own, gate, world⟩
    fun _ => congrArg (·.get? context.session.id) hdropped).trans hrecord
  obtain ⟨now, after, hcancel, -⟩ :=
    cancel_of_get? hstage hkeyed (Process.abandons run.members) deadline world hheld hrunning
  exact ⟨now, by rw [expire, hcancel]⟩

/-- So does a run that is under way, if nobody has touched its record in the meantime. -/
theorem Underway.expires {workflow : Workflow Process} {context : Context} {floor : Floor}
    {members : List (Member (Traced Process))} {record : Record} {step : Step (Traced Process)}
    (h : Underway Process.poll workflow context.session.id floor members)
    (hkeyed : workflow.isKeyed = true)
    (hrecord : floor.ledger.get? context.session.id = some record)
    (hstep : step =
      ⟨⟨workflow.plan, .open floor.gate floor.own, members⟩, floor.state, floor.world, none⟩)
    (deadline : Nat) (state : KeyMap String) {later : World}
    (hlater : workflow.plan.sharesLedger →
      later.ledger.get? context.session.id = step.world.ledger.get? context.session.id) :
    let run := (step.map (·.task)).run
    ∃ now, (run.expire deadline (context.withState state) later).1 =
      .ok (cutReport run.members (record.settle now .cancelled)) := by
  intro run
  have hstage : run.stage = .open floor.gate floor.own := by
    simp only [run, hstep]
    rfl
  have hrun : run.isKeyed = true := by
    simp only [run, Step.map, isKeyed_map, hstep]
    exact h.carries.isKeyed.trans hkeyed
  have hheld : (⟨state, true, floor.own, floor.gate, later⟩ : Floor).ledger.get?
      context.session.id = some record := by
    refine (floor.get?_ledger_withWorld fun hown => ?_).trans hrecord
    have hsame := hlater (h.own_eq_none_iff.1 hown)
    rwa [hstep] at hsame
  exact @expire_of_get? _ _ _ (context.withState state) record hstage hrun deadline later hheld
    (h.running_of_get? hrecord)

/-- In whatever way a run with output keys returns, the successes in the record that it
returns are those that it has appended, provided that nobody else touches the record. -/
theorem Step.Returns.credited {workflow : Workflow Process}
    {last : Stretch (Traced Process)} {past : List (Stretch (Traced Process))}
    {later after : World} {report : Report} {record : Record}
    (hreturns : (last.step.map (·.task)).Returns context later (some (.ok report)) after)
    (hcheck : workflow.check = .ok ()) (hkeyed : workflow.isKeyed = true)
    (h : History (Traced.poll Process.poll) context (ofWorkflow workflow.traced) (last :: past))
    (hundisturbed : workflow.plan.sharesLedger → Undisturbed context.session.id (last :: past))
    (hlater : workflow.plan.sharesLedger →
      later.ledger.get? context.session.id = last.step.world.ledger.get? context.session.id)
    (hrecord : report.record = some record) :
    record.Credits workflow.plan ((log (Traced.poll Process.poll) context
      (ofWorkflow workflow.traced) (last :: past)).filterMap Visit.appended) := by
  generalize hreport : some (Except.ok report) = answer at hreturns
  rcases h.credited hcheck hkeyed hundisturbed rfl with
    (⟨floor, members, ⟨hunder, found, hfound, hcredits⟩, -, hstep⟩ |
      ⟨floor, after, members, result, ⟨hunder, found, hfound, hcredits⟩, hconclude, hstep⟩) |
    ⟨-, -, refusal, -, herror⟩
  · -- The run has not ended of itself, so only its deadline brings a record.
    cases hreturns with
    | ended result hended =>
      have hsome : last.step.result = some result := hended
      rw [hstep] at hsome
      cases hsome
    | expired deadline state =>
      obtain ⟨now, hexpire⟩ := hunder.expires hkeyed hfound hstep deadline state hlater
      rw [hexpire] at hreport
      obtain rfl := Except.ok.inj (Option.some.inj hreport)
      obtain rfl := Option.some.inj hrecord
      exact hcredits.settle now _
    | dropped => cases hreport
  · cases hreturns with
    | ended answer hended =>
      have hsome : last.step.result = some answer := hended
      rw [hstep] at hsome
      obtain rfl := Option.some.inj hreport
      cases result with
      | error error => cases hsome
      | ok reported =>
        obtain rfl := Except.ok.inj (Option.some.inj hsome)
        obtain ⟨_, now, verdict, hok, hsettled, -⟩ := hunder.settles hfound hconclude
        obtain rfl := Except.ok.inj hok
        obtain rfl := Option.some.inj (hsettled.symm.trans hrecord)
        exact hcredits.settle now verdict
    | expired _ _ hnone | dropped hnone =>
      have hnone : last.step.result = none := hnone
      rw [hstep] at hnone
      cases hnone
  · cases hreturns with
    | ended answer hended =>
      have hsome : last.step.result = some answer := hended
      rw [herror] at hsome
      obtain rfl := Option.some.inj hreport
      cases hsome
    | expired _ _ hnone | dropped hnone =>
      have hnone : last.step.result = none := hnone
      rw [herror] at hnone
      cases hnone

end Run

end Coordination
