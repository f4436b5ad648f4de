import Coordination.Proofs.OutputKey
import Coordination.Proofs.Run.Session
import Coordination.Proofs.Run.Tally

/-!
# Runs with output keys under way

From its opening on, a run with output keys has a record in accord with its
members, which carry out the tasks of its workflow (`Underway`).

* `Underway.visited`, `Underway.resume`: so it has after a visit, and after
  whatever happens outside of the run;
* `underway_open`: so it has from its opening on;
* `Underway.settles`, `Underway.closes`: its end does not fail, and reports the
  record and how the members have settled.
-/

namespace Coordination

variable {σ : Type}

namespace Run

/-- The members of a run carry out the tasks of a workflow. -/
structure Carries (behave : σ → Poll σ) (workflow : Workflow σ)
    (members : List (Member (Traced σ))) : Prop where
  length : members.length = workflow.members.length
  task : ∀ (index : Nat) (member : Member (Traced σ)), members[index]? = some member →
    ∃ task, workflow.members[index]? = some (member.definition, task) ∧
      member.process.Follows behave task

/-- The members of a run with output keys carry out the tasks of a workflow,
each in a session of its own. -/
structure Apart (behave : σ → Poll σ) (workflow : Workflow σ) (floor : Floor)
    (members : List (Member (Traced σ))) : Prop where
  keyed : floor.keyed = true
  carries : Carries behave workflow members
  secluded : ∀ member ∈ members, member.Secluded

/-- A run with output keys under way, whose record is `id`'s. -/
structure Underway (behave : σ → Poll σ) (workflow : Workflow σ) (id : String) (floor : Floor)
    (members : List (Member (Traced σ))) : Prop extends Apart behave workflow floor members where
  own : floor.own.isSome = !workflow.plan.sharesLedger
  accord : ∃ record, floor.ledger.get? id = some record ∧ Accord workflow.plan id members record

variable {behave : σ → Poll σ} {workflow : Workflow σ} {id : String} {floor : Floor}
  {members : List (Member (Traced σ))}

theorem Underway.own_eq_none_iff (h : Underway behave workflow id floor members) :
    floor.own = none ↔ workflow.plan.sharesLedger := by
  rw [← Option.not_isSome_iff_eq_none, h.own]
  simp

theorem Carries.definitions (h : Carries behave workflow members) :
    members.map (·.definition) = workflow.members.map (·.1) := by
  refine List.ext_getElem? fun index => ?_
  rw [List.getElem?_map, List.getElem?_map]
  cases hget : members[index]? with
  | none =>
    have hlength := List.getElem?_eq_none_iff.1 hget
    rw [h.length] at hlength
    rw [List.getElem?_eq_none hlength, Option.map_none, Option.map_none]
  | some member =>
    obtain ⟨task, htask, -⟩ := h.task index member hget
    rw [htask, Option.map_some, Option.map_some]

theorem Carries.any_isSome (h : Carries behave workflow members) :
    (members.any fun member => member.definition.outputKey.isSome) = workflow.isKeyed := by
  have hany := congrArg (List.any · fun definition => definition.outputKey.isSome) h.definitions
  rw [List.any_map, List.any_map] at hany
  exact hany

theorem Carries.isKeyed {run : Run (Traced σ)} (h : Carries behave workflow run.members) :
    run.isKeyed = workflow.isKeyed :=
  h.any_isSome

theorem Carries.isKeyed_of_mem (h : Carries behave workflow members)
    {member : Member (Traced σ)} (hmem : member ∈ members) {key : String}
    (hkey : member.definition.outputKey = some key) : workflow.isKeyed = true := by
  rw [← h.any_isSome, List.any_eq_true]
  exact ⟨member, hmem, by rw [hkey]; rfl⟩

/-! ## Visits -/

theorem Carries.set (h : Carries behave workflow members) {index : Nat}
    {member after : Member (Traced σ)} (hget : members[index]? = some member)
    (hpolled : Member.Polled (Traced.poll behave member.process) member after) :
    Carries behave workflow (members.set index after) where
  length := by rw [List.length_set, h.length]
  task := by
    intro i m hm
    rw [List.getElem?_set] at hm
    split at hm
    next heq =>
      subst heq
      split at hm
      · obtain rfl := Option.some.inj hm
        obtain ⟨task, htask, hfollows⟩ := h.task index member hget
        refine ⟨task, hpolled.1 ▸ htask, ?_⟩
        rcases hpolled.2 with heq | ⟨turn, context, world, heq⟩
        · exact heq ▸ hfollows
        · exact heq ▸ hfollows.poll turn context world
      · cases hm
    next => exact h.task i m hm

section Visit

variable {visit : Visit (Traced σ)} {context : Context} {stretch : Stretch (Traced σ)}

/-- A visit keeps the members apart, and the values of the run's session. -/
theorem Apart.visited (h : Apart behave workflow visit.floor visit.members)
    (hof : visit.Of (Traced.poll behave) workflow.plan context stretch) :
    Apart behave workflow visit.after.1 visit.left ∧ visit.floor.Kept visit.after.1 := by
  have hget := visit.getElem?_members
  have hvisited := hof.visited
  obtain ⟨hkept, hsecluded⟩ := (h.secluded _ (List.mem_of_getElem? hget)).visited h.keyed hvisited
  rw [visit.left_eq_set]
  refine ⟨⟨hkept.keyed.trans h.keyed, h.carries.set hget hvisited.polled, fun member hset => ?_⟩,
    hkept⟩
  rcases List.mem_or_eq_of_mem_set hset with hold | rfl
  · exact h.secluded member hold
  · exact hsecluded

/-- A visit moves the record on with its member, if the task that it visits
leaves the record alone. -/
theorem Underway.movesTo
    (h : Underway behave workflow context.session.id visit.floor visit.members)
    (hof : visit.Of (Traced.poll behave) workflow.plan context stretch)
    (hspares : workflow.plan.sharesLedger → ∀ member ∈ stretch.step.run.members,
      member.process.Spares context.session.id) :
    ∃ record record', visit.floor.ledger.get? context.session.id = some record ∧
      Accord workflow.plan context.session.id visit.members record ∧
      visit.after.1.ledger.get? context.session.id = some record' ∧
      visit.member.Moved workflow.plan context.session.id visit.index record visit.after.2
        record' := by
  obtain ⟨record, hrecord, haccord⟩ := h.accord
  have hmoves : Member.MovesTo visit.scope visit.index visit.floor visit.member record
      visit.after := by
    refine hof.visited.movesTo h.keyed ?_ ?_ ?_ <;> rw [hof.scope]
    · exact hrecord
    · exact haccord.coherent _ _ visit.getElem?_members
    · exact fun hown => hspares (h.own_eq_none_iff.1 hown) _ hof.kept
  rw [hof.scope] at hmoves
  obtain ⟨record', hrecord', hmoved, -⟩ := hmoves
  exact ⟨record, record', hrecord, haccord, hrecord', hmoved⟩

/-- So it keeps the run under way. -/
theorem Underway.visited
    (h : Underway behave workflow context.session.id visit.floor visit.members)
    (hof : visit.Of (Traced.poll behave) workflow.plan context stretch)
    (hspares : workflow.plan.sharesLedger → ∀ member ∈ stretch.step.run.members,
      member.process.Spares context.session.id) :
    Underway behave workflow context.session.id visit.after.1 visit.left := by
  obtain ⟨hapart, hkept⟩ := h.toApart.visited hof
  obtain ⟨_, record', -, haccord, hrecord', hmoved⟩ := h.movesTo hof hspares
  refine ⟨hapart, hkept.own.trans h.own, record', hrecord', ?_⟩
  rw [visit.left_eq_set]
  exact haccord.moved visit.getElem?_members hmoved

end Visit

/-! ## Opening -/

theorem getElem?_members_ofWorkflow {index : Nat} {member : Member (Traced σ)}
    (h : (ofWorkflow workflow.traced).members[index]? = some member) :
    ∃ definition task, workflow.members[index]? = some (definition, task) ∧
      member = ⟨definition, .idle, .fresh task⟩ := by
  simp only [ofWorkflow, Workflow.traced, List.map_map, List.getElem?_map,
    Option.map_eq_some_iff, Prod.exists] at h
  obtain ⟨definition, task, hget, rfl⟩ := h
  exact ⟨definition, task, hget, rfl⟩

theorem carries_ofWorkflow (behave : σ → Poll σ) (workflow : Workflow σ) :
    Carries behave workflow (ofWorkflow workflow.traced).members where
  length := by simp [ofWorkflow, Workflow.traced]
  task := by
    intro index member hget
    obtain ⟨definition, task, htask, rfl⟩ := getElem?_members_ofWorkflow hget
    exact ⟨task, htask, .fresh⟩

theorem distinctKeys_of_nodup {definitions : List Definition}
    (h : (definitions.filterMap (·.outputKey)).Nodup) : DistinctKeys definitions := by
  have hpairwise := List.pairwise_iff_getElem.1 (List.pairwise_filterMap.1 h)
  intro i j a b key hi hj ha hb
  obtain ⟨hilt, rfl⟩ := List.getElem?_eq_some_iff.1 hi
  obtain ⟨hjlt, rfl⟩ := List.getElem?_eq_some_iff.1 hj
  rcases Nat.lt_trichotomy i j with hlt | heq | hgt
  · exact absurd rfl (hpairwise i j hilt hjlt hlt key ha key hb)
  · exact heq
  · exact absurd rfl (hpairwise j i hjlt hilt hgt key hb key ha)

/-- The sub-tasks of a workflow that may be run have different output keys. -/
theorem distinctKeys_ofWorkflow (hcheck : workflow.check = .ok ()) :
    DistinctKeys ((ofWorkflow workflow.traced).members.map (·.definition)) := by
  refine distinctKeys_of_nodup ?_
  have hnodup := (Workflow.check_eq_ok_iff.1 hcheck).2
  rw [Workflow.outputKeys] at hnodup
  simpa [ofWorkflow, Workflow.traced, List.filterMap_map, Function.comp_def] using hnodup

/-- Before anything has happened, a new record is in accord with the members. -/
theorem accord_start (hcheck : workflow.check = .ok ()) (now : Timestamp)
    (id owner : String) : Accord workflow.plan id (ofWorkflow workflow.traced).members
      (.start now id owner workflow.plan.name workflow.plan.namespace) := by
  have hunsettled : ∀ index definition settlement,
      ¬ SettledAt (ofWorkflow workflow.traced).members index definition settlement := by
    intro index definition settlement hsettled
    obtain ⟨member, hget, -, hs⟩ := settledAt_iff.1 hsettled
    obtain ⟨_, _, -, rfl⟩ := getElem?_members_ofWorkflow hget
    cases hs
  exact {
    running := rfl
    numbered := Record.numbered_start ..
    nodup := List.nodup_nil
    told := fun e he => absurd he List.not_mem_nil
    complete := fun _ _ _ h => absurd h (hunsettled _ _ _)
    outputs := by simp [hunsettled, Record.start]
    coherent := by
      intro index member hget
      obtain ⟨_, _, -, rfl⟩ := getElem?_members_ofWorkflow hget
      rfl
    distinct := distinctKeys_ofWorkflow hcheck }

theorem createRecord_eq_ok {plan : Plan} {context : Context} {opened : Floor}
    (hkeyed : floor.keyed = true) (h : createRecord plan context floor = .ok opened) :
    floor.Kept opened ∧ ∃ now, opened.ledger.get? context.session.id =
      some (.start now context.session.id context.session.user plan.name plan.namespace) := by
  have hfree : floor.ledger.get? context.session.id = none := by
    rw [Option.eq_none_iff_forall_ne_some]
    intro record hrecord
    simp [createRecord, hkeyed, Ledger.create_of_get? hrecord, bind, Except.bind] at h
  simp only [createRecord, hkeyed, if_true, Floor.ledger_stamp, Ledger.create_of_get?_none hfree,
    bind, Except.bind, pure, Except.pure, Except.ok.injEq] at h
  subst h
  exact ⟨floor.kept_stamp.trans (Floor.kept_setLedger _ _), floor.stamp.1, by simp⟩

/-- Notices concern neither the ledger nor the gate, nor what visits keep. -/
theorem foldl_notice {α : Type} (notice : α → Notice) (places : List α) (floor : Floor) :
    let after := places.foldl (fun floor place => floor.notice (notice place)) floor
    floor.Inside after ∧ after.ledger = floor.ledger := by
  induction places generalizing floor with
  | nil => exact ⟨.refl floor, rfl⟩
  | cons place rest ih =>
    obtain ⟨hinside, hledger⟩ := ih (floor.notice (notice place))
    exact ⟨(floor.inside_notice _).trans hinside, hledger⟩

/-- Putting up the gate concerns neither the ledger nor what visits keep. -/
theorem putUpGate_eq_ok {run : Run σ} {context : Context} {opened : Floor}
    (h : run.putUpGate context floor = .ok opened) :
    floor.Kept opened ∧ opened.ledger = floor.ledger ∧
      ∀ workers, run.plan.order = .parallel workers → opened.gate = .ofCapacity workers := by
  rw [putUpGate] at h
  split at h
  next horder =>
    cases h
    exact ⟨.refl floor, rfl, fun workers hparallel => by simp [horder] at hparallel⟩
  next workers horder =>
    cases hgate : (Gate.new workers : Except PolicyError (Gate Nat)) with
    | error error => simp [hgate, bind, Except.bind] at h
    | ok gate =>
      simp only [hgate, bind, Except.bind, pure, Except.pure, Except.ok.injEq] at h
      subst h
      obtain ⟨hinside, hledger⟩ := foldl_notice (fun place : Member σ × Nat =>
          Member.scopeNotice context.session.id place.2 place.1.definition)
        run.members.zipIdx ({ floor with gate }.measure [.slots run.plan.name workers])
      refine ⟨(floor.kept_withGate gate).trans ((Floor.kept_measure ..).trans hinside.toKept),
        hledger, fun workers' hparallel => ?_⟩
      obtain rfl : workers = workers' := by simpa [horder] using hparallel
      exact hinside.gate.trans (Gate.new_eq_ok hgate)

/-- A run is opened by starting its record and putting up its gate. -/
theorem open_eq_ok {run : Run σ} {context : Context} {world : World}
    (h : run.open context world = .ok floor) :
    ∃ recorded, createRecord run.plan context (run.lobby context world) = .ok recorded ∧
      run.putUpGate context recorded = .ok floor := by
  rw [«open»] at h
  split at h
  · cases h
  next recorded hrecorded =>
    split at h
    · cases h
    next opened hopened =>
      cases h
      exact ⟨recorded, hrecorded, hopened⟩

/-- In an opened run with output keys the members are apart. -/
theorem apart_open {context : Context} {world : World} (behave : σ → Poll σ)
    (hkeyed : workflow.isKeyed = true)
    (h : (ofWorkflow workflow.traced).open context world = .ok floor) :
    Apart behave workflow floor (ofWorkflow workflow.traced).members ∧
      floor.state = context.state := by
  have hcarries := carries_ofWorkflow behave workflow
  have hrun : (ofWorkflow workflow.traced).isKeyed = true := hcarries.isKeyed.trans hkeyed
  obtain ⟨recorded, hrecorded, hopened⟩ := open_eq_ok h
  have hkept := (createRecord_eq_ok hrun hrecorded).1.trans (putUpGate_eq_ok hopened).1
  refine ⟨⟨hkept.keyed.trans hrun, hcarries, fun member hmem => ?_⟩, hkept.state⟩
  obtain ⟨index, hget⟩ := List.mem_iff_getElem?.1 hmem
  obtain ⟨definition, task, -, rfl⟩ := getElem?_members_ofWorkflow hget
  rfl

/-- An opened run is under way. -/
theorem underway_open {context : Context} {world : World} (behave : σ → Poll σ)
    (hcheck : workflow.check = .ok ()) (hkeyed : workflow.isKeyed = true)
    (h : (ofWorkflow workflow.traced).open context world = .ok floor) :
    Underway behave workflow context.session.id floor (ofWorkflow workflow.traced).members := by
  obtain ⟨hapart, -⟩ := apart_open behave hkeyed h
  have hrun : (ofWorkflow workflow.traced).isKeyed = true := hapart.carries.isKeyed.trans hkeyed
  obtain ⟨recorded, hrecorded, hopened⟩ := open_eq_ok h
  obtain ⟨hkept, now, hrecord⟩ := createRecord_eq_ok hrun hrecorded
  obtain ⟨hkept', hledger, -⟩ := putUpGate_eq_ok hopened
  refine ⟨hapart, (hkept.trans hkept').own.trans ?_,
    _, hledger ▸ hrecord, accord_start hcheck now _ _⟩
  have hplan : (ofWorkflow workflow.traced).plan = workflow.plan := rfl
  simp only [lobby, hrun, hplan, Bool.true_and]
  cases workflow.plan.sharesLedger <;> rfl

/-- The members of a run stay apart, whatever happens outside of it. -/
theorem Apart.resume (h : Apart behave workflow floor members) (state : KeyMap String)
    (world : World) : Apart behave workflow { floor with state, world } members :=
  ⟨h.keyed, h.carries, h.secluded⟩

/-- A run that is under way stays so while nobody touches its record. -/
theorem Underway.resume (h : Underway behave workflow id floor members) (state : KeyMap String)
    {world : World}
    (hsame : workflow.plan.sharesLedger → world.ledger.get? id = floor.world.ledger.get? id) :
    Underway behave workflow id { floor with state, world } members where
  toApart := h.toApart.resume state world
  own := h.own
  accord := by
    obtain ⟨record, hrecord, haccord⟩ := h.accord
    refine ⟨record, ?_, haccord⟩
    rw [← hrecord]
    exact floor.get?_ledger_withWorld fun hown => hsame (h.own_eq_none_iff.1 hown)

/-! ## Closing -/

/-- A running record can be brought to its end. -/
theorem settleRecord_of_get? (hkeyed : floor.keyed = true) {record : Record}
    (hrecord : floor.ledger.get? id = some record) (hrunning : record.status = .running)
    (verdict : Verdict) : settleRecord id verdict floor =
      .ok (some (record.settle floor.stamp.1 verdict),
        floor.stamp.2.setLedger (floor.ledger.put id (record.settle floor.stamp.1 verdict))) := by
  simp [settleRecord, hkeyed, Ledger.settle_of_get? hrecord, hrunning, RunStatus.isSettled, bind,
    Except.bind, pure, Except.pure]

theorem Underway.running_of_get? (h : Underway behave workflow id floor members) {record : Record}
    (hrecord : floor.ledger.get? id = some record) : record.status = .running := by
  obtain ⟨held, hheld, haccord⟩ := h.accord
  obtain rfl : record = held := Option.some.inj (hrecord.symm.trans hheld)
  exact haccord.running

/-- At its end a run under way brings its record to its end, and reports it. -/
theorem Underway.settles (h : Underway behave workflow id floor members) {record : Record}
    (hrecord : floor.ledger.get? id = some record) {order : Order}
    {concluded : Except LedgerError Report × Floor}
    (hconclude : conclude order id floor members = some concluded) :
    ∃ report now verdict, concluded.1 = .ok report ∧
      report.record = some (record.settle now verdict) ∧
      concluded.2.ledger.get? id = some (record.settle now verdict) ∧
      concluded.2.own.isSome = floor.own.isSome := by
  have hrunning := h.running_of_get? hrecord
  have hsettle := settleRecord_of_get? h.keyed hrecord hrunning
  have hput : ∀ (floor : Floor) (settled : Record),
      (floor.setLedger (floor.ledger.put id settled)).ledger.get? id = some settled ∧
        (floor.setLedger (floor.ledger.put id settled)).own.isSome = floor.own.isSome :=
    fun floor settled => ⟨by simp, (floor.kept_setLedger _).own⟩
  cases concluded_of_conclude hconclude with
  | parallel =>
    simp only [concludeParallel, h.keyed, if_true, hsettle]
    split
    · exact ⟨_, _, _, rfl, rfl, hput floor.stamp.2 _⟩
    · exact ⟨_, _, _, rfl, rfl, hput floor.stamp.2 _⟩
  | stopped failure =>
    obtain ⟨index, definition, error⟩ := failure
    have hnoticed := fun notice verdict =>
      @settleRecord_of_get? id (floor.notice notice) h.keyed record hrecord hrunning verdict
    simp only [concludeStopped, hnoticed]
    exact ⟨_, _, _, rfl, rfl, hput (floor.notice _).stamp.2 _⟩
  | completed =>
    simp only [concludeCompleted, hsettle]
    exact ⟨_, _, _, rfl, rfl, hput floor.stamp.2 _⟩

/-- The end of a run under way does not fail. -/
theorem Underway.conclude_ok (h : Underway behave workflow id floor members) {order : Order}
    {concluded : Except LedgerError Report × Floor}
    (hconclude : conclude order id floor members = some concluded) :
    ∃ report, concluded.1 = .ok report := by
  obtain ⟨record, hrecord, -⟩ := h.accord
  obtain ⟨report, _, _, hok, -⟩ := h.settles hrecord hconclude
  exact ⟨report, hok⟩

/-- The report of a run with output keys whose members have all settled. -/
structure Closes (behave : σ → Poll σ) (workflow : Workflow σ) (id : String)
    (members : List (Member (Traced σ))) (report : Report) : Prop where
  carries : Carries behave workflow members
  settled : ∀ member ∈ members, member.phase.settlement?.isSome
  succeeded : report.succeeded = succeeded members
  failed : report.failed = failed members
  record : ∃ record now verdict, Accord workflow.plan id members record ∧
    report.record = some (record.settle now verdict)

theorem Underway.closes (h : Underway behave workflow id floor members)
    (hsettled : ∀ member ∈ members, member.phase.settlement?.isSome) :
    ∃ report, (concludeParallel id floor members).1 = .ok report ∧
      Closes behave workflow id members report := by
  obtain ⟨record, hrecord, haccord⟩ := h.accord
  have hsettle := settleRecord_of_get? h.keyed hrecord haccord.running
  rw [concludeParallel]
  simp only [h.keyed, if_true]
  split
  next =>
    simp only [hsettle]
    exact ⟨_, rfl, h.carries, hsettled, rfl, rfl, record, _, _, haccord, rfl⟩
  next =>
    simp only [hsettle]
    exact ⟨_, rfl, h.carries, hsettled, rfl, rfl, record, _, _, haccord, rfl⟩

end Run

end Coordination
