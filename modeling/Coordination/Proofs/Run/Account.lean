import Mathlib.Algebra.GroupWithZero.Nat
import Coordination.Proofs.Run.Engagement

/-!
# The account of what is measured under a name

What was measured under the name of a run since its beginning accounts for where its
members stand and for the successes that it has appended to its record (`Account`): the
levels have risen by those who wait for a slot and those who hold one, and the counts by the
successes, beside what was heard from the tasks.

* `Account.told`: what a visit adds;
* `Run.History.account`: so it is after every stretch, whatever the tasks do that make no
  measurements at a gate of this name, and whatever is measured elsewhere.
-/

namespace Coordination

variable {σ : Type}

namespace Measurement

variable {series : Series} {name : String}

/-- Measurements that do not count leave the level as it is. -/
theorem levelFrom?_of_forall {measured : List Measurement}
    (h : ∀ measurement ∈ measured, ¬ measurement.isOf series name) (level : Nat) :
    levelFrom? series name level measured = some level := by
  rw [← levelFrom?_filter, List.filter_eq_nil_iff.2 h, levelFrom?_nil]

/-- So they do among others. -/
theorem levelFrom?_between {between : List Measurement}
    (h : ∀ measurement ∈ between, ¬ measurement.isOf series name) (before after : List Measurement)
    (level : Nat) : levelFrom? series name level (before ++ between ++ after) =
      levelFrom? series name level (before ++ after) := by
  rw [← levelFrom?_filter, List.filter_append, List.filter_append, List.filter_eq_nil_iff.2 h,
    List.append_nil, ← List.filter_append, levelFrom?_filter]

end Measurement

/-- Whether a success was appended to a record under this name and in this namespace, and
has an output. -/
def isWritten (name «namespace» : String) (appended : Record × Execution) : Bool :=
  appended.1.workflowName = name && appended.1.namespace = «namespace» &&
    appended.2.outputKey.isSome

/-- What is measured under a name tells how many wait for a slot and how many hold one, and,
beside what was heard from tasks, which successes were appended. -/
structure Account (name : String) (queued active : Nat) (appended : List (Record × Execution))
    (heard measured : List Measurement) : Prop where
  queue : ∀ level,
    Measurement.levelFrom? .queueDepth name level measured = some (level + queued)
  active : ∀ level,
    Measurement.levelFrom? .activeExecutions name level measured = some (level + active)
  writes : ∀ «namespace», measured.count (.outputWritten name «namespace») =
    appended.countP (isWritten name «namespace») + heard.count (.outputWritten name «namespace»)
  waits : measured.count (.turnAwaited name) =
    appended.countP (·.1.workflowName = name) + heard.count (.turnAwaited name)

/-- Measurements that are none of this name, but for those of the number of slots. -/
def Elsewhere (name : String) (measured : List Measurement) : Prop :=
  ∀ measurement ∈ measured, measurement.workflow = name → measurement.series = .maxWorkers

theorem count_committed_outputWritten (name «namespace» : String)
    (appended : Option (Record × Execution)) :
    (committed appended).count (.outputWritten name «namespace») =
      appended.toList.countP (isWritten name «namespace») := by
  rcases appended with _ | ⟨record, execution⟩
  · rfl
  · cases hkey : execution.outputKey <;>
      simp [committed, Ledger.commitMeasurements, hkey, isWritten, List.count_cons,
        List.countP_cons]

theorem count_committed_turnAwaited (name : String) (appended : Option (Record × Execution)) :
    (committed appended).count (.turnAwaited name) =
      appended.toList.countP (·.1.workflowName = name) := by
  rcases appended with _ | ⟨record, execution⟩
  · rfl
  · cases hkey : execution.outputKey <;>
      simp [committed, Ledger.commitMeasurements, hkey, List.count_cons, List.countP_cons]

/-- What counts successes is not among measurements of levels. -/
theorem count_eq_zero_of_levels {measured : List Measurement}
    (h : ∀ measurement ∈ measured, measurement.isLevel) {measurement : Measurement}
    (hnot : measurement.isLevel = false) : measured.count measurement = 0 :=
  List.count_eq_zero.2 fun hmem => by simp [h measurement hmem] at hnot

namespace Account

variable {name : String} {queued active : Nat} {successes : List (Record × Execution)}
  {heard measured : List Measurement}

theorem nil (name : String) : Account name 0 0 [] [] [] :=
  ⟨fun _ => rfl, fun _ => rfl, fun _ => rfl, rfl⟩

/-- What is measured elsewhere is of no account. -/
theorem elsewhere (h : Account name queued active successes heard measured)
    {more : List Measurement} (hmore : Elsewhere name more) :
    Account name queued active successes heard (measured ++ more) := by
  have hlevel : ∀ series : Series, series ≠ .maxWorkers → ∀ level,
      Measurement.levelFrom? series name level more = some level := by
    refine fun series hseries => Measurement.levelFrom?_of_forall fun measurement hmem hof => ?_
    obtain ⟨hsame, hname⟩ := Measurement.isOf_iff.1 hof
    exact hseries (hsame ▸ hmore measurement hmem hname)
  have hcount : ∀ measurement : Measurement, measurement.workflow = name →
      measurement.series ≠ .maxWorkers → more.count measurement = 0 :=
    fun measurement hname hseries => List.count_eq_zero.2 fun hmem =>
      hseries (hmore measurement hmem hname)
  refine ⟨fun level => ?_, fun level => ?_, fun «namespace» => ?_, ?_⟩
  · rw [Measurement.levelFrom?_append, h.queue, Option.bind_some, hlevel _ (by decide)]
  · rw [Measurement.levelFrom?_append, h.active, Option.bind_some, hlevel _ (by decide)]
  · rw [List.count_append, h.writes, hcount (.outputWritten name «namespace») rfl (by
      simp only [Measurement.series]; decide), Nat.add_zero]
  · rw [List.count_append, h.waits, hcount (.turnAwaited name) rfl (by
      simp only [Measurement.series]; decide), Nat.add_zero]

/-- What is measured at the gate accounts for the phase of a member, and the commit for its
success. -/
theorem moves {plan : Plan} {before after : Phase} {opening told closing : List Measurement}
    (h : Account plan.name (queued + before.queued plan.order) (active + before.active plan.order)
      successes heard measured) (success : Option (Record × Execution))
    (htold : ∀ measurement ∈ told, measurement.isLevel → measurement.workflow ≠ plan.name)
    (hmoves : Phase.Moves plan before after (opening ++ closing)) :
    Account plan.name (queued + after.queued plan.order) (active + after.active plan.order)
      (successes ++ success.toList) (heard ++ told)
      (measured ++ (opening ++ (told ++ committed success) ++ closing)) := by
  have hbetween : ∀ series : Series, series = .queueDepth ∨ series = .activeExecutions →
      ∀ measurement ∈ told ++ committed success, ¬ measurement.isOf series plan.name := by
    intro series hseries measurement hmem hof
    obtain ⟨hsame, hname⟩ := Measurement.isOf_iff.1 hof
    have hlevel : measurement.isLevel := by
      rw [Measurement.isLevel, hsame]
      rcases hseries with rfl | rfl <;> decide
    rcases List.mem_append.1 hmem with hmem | hmem
    · exact htold measurement hmem hlevel hname
    · simp [isLevel_of_mem_committed success measurement hmem] at hlevel
  have hgate : ∀ measurement : Measurement, measurement.isLevel = false →
      opening.count measurement = 0 ∧ closing.count measurement = 0 := by
    intro measurement hnot
    have hlevels := List.forall_mem_append.1 hmoves.levels
    exact ⟨count_eq_zero_of_levels hlevels.1 hnot, count_eq_zero_of_levels hlevels.2 hnot⟩
  refine ⟨fun level => ?_, fun level => ?_, fun «namespace» => ?_, ?_⟩
  · rw [Measurement.levelFrom?_append, h.queue, Option.bind_some,
      Measurement.levelFrom?_between (hbetween _ (.inl rfl)), ← Nat.add_assoc, hmoves.queue,
      Nat.add_assoc]
  · rw [Measurement.levelFrom?_append, h.active, Option.bind_some,
      Measurement.levelFrom?_between (hbetween _ (.inr rfl)), ← Nat.add_assoc, hmoves.active,
      Nat.add_assoc]
  · obtain ⟨hopening, hclosing⟩ := hgate (.outputWritten plan.name «namespace») rfl
    simp only [List.count_append, List.countP_append, h.writes, hopening, hclosing,
      count_committed_outputWritten]
    omega
  · obtain ⟨hopening, hclosing⟩ := hgate (.turnAwaited plan.name) rfl
    simp only [List.count_append, List.countP_append, h.waits, hopening, hclosing,
      count_committed_turnAwaited]
    omega

end Account

/-! ## Visits -/

namespace Run

/-- The sum of what the phases of members count for. -/
def sumOf (count : Phase → Nat) (members : List (Member σ)) : Nat :=
  (members.map fun member => count member.phase).sum

/-- What was measured on a floor since `first` accounts for where the members of a run stand
after visits. -/
def Accounted (plan : Plan) (first : World) (visits : List (Visit (Traced σ))) (floor : Floor)
    (members : List (Member (Traced σ))) : Prop :=
  ∃ measured, first.Measures floor.world measured ∧
    Account plan.name (sumOf (Phase.queued plan.order) members)
      (sumOf (Phase.active plan.order) members) (visits.filterMap Visit.appended)
      (visits.flatMap Visit.heard) measured

/-- Only the visited member comes to count for something else. -/
theorem exists_sumOf (visit : Visit σ) (count : Phase → Nat) : ∃ others,
    sumOf count visit.members = others + count visit.member.phase ∧
      sumOf count visit.left = others + count visit.after.2.phase := by
  refine ⟨sumOf count visit.front + sumOf count visit.rest, ?_, ?_⟩ <;>
    simp [sumOf, Visit.members, Visit.left] <;> omega

/-- A visit is accounted for, if its task makes no measurements at a gate of the name. -/
theorem Accounted.visited {plan : Plan} {first : World} {before : List (Visit (Traced σ))}
    {visit : Visit (Traced σ)} {behave : σ → Poll σ} {sessions : String → Prop}
    {opening closing : List Measurement}
    (h : Accounted plan first before visit.floor visit.members)
    (htold : Member.Told behave sessions visit.scope visit.floor visit.member visit.after
      visit.exchanges opening closing) (hplan : visit.scope.plan = plan)
    (hexchanges : ∀ exchange ∈ visit.exchanges, exchange.Extends ∧
      ∀ measurement ∈ exchange.measured, measurement.isLevel → measurement.workflow ≠ plan.name) :
    Accounted plan first (before ++ [visit]) visit.after.1 visit.left := by
  subst hplan
  obtain ⟨measured, hmeasures, haccount⟩ := h
  obtain ⟨waiting, hwaiting, hwaiting'⟩ := exists_sumOf visit (Phase.queued visit.scope.plan.order)
  obtain ⟨working, hworking, hworking'⟩ := exists_sumOf visit (Phase.active visit.scope.plan.order)
  rw [hwaiting, hworking] at haccount
  have hheard : ∀ measurement ∈ visit.heard, measurement.isLevel →
      measurement.workflow ≠ visit.scope.plan.name := by
    intro measurement hmem
    obtain ⟨exchange, hexchange, hmem⟩ := List.mem_flatMap.1 hmem
    exact (hexchanges exchange hexchange).2 measurement hmem
  have hlater := htold.measures fun exchange hmem => (hexchanges exchange hmem).1
  refine ⟨_, hmeasures.trans hlater, ?_⟩
  have hnext := haccount.moves visit.appended hheard htold.moves
  have hsuccess : [visit].filterMap Visit.appended = visit.appended.toList := by
    cases happended : visit.appended <;> simp [happended]
  rw [hwaiting', hworking', List.filterMap_append, List.flatMap_append, List.flatMap_singleton,
    hsuccess]
  exact hnext

/-! ## The beginning and the end of a run -/

section Ends

variable {id : String} {floor : Floor}

theorem settleRecord_measures {verdict : Verdict} {record : Option Record} {after : Floor}
    (h : settleRecord id verdict floor = .ok (record, after)) :
    floor.world.Measures after.world [] := by
  unfold settleRecord at h
  split at h
  · cases hsettle : floor.stamp.2.ledger.settle floor.stamp.1 id verdict with
    | error error => simp only [hsettle, bind, Except.bind, reduceCtorEq] at h
    | ok settled =>
      simp only [hsettle, bind, Except.bind, pure, Except.pure, Except.ok.injEq,
        Prod.mk.injEq] at h
      rw [← h.2, World.Measures, Floor.journal_setLedger, List.append_nil]
      rfl
  · cases h
    exact .refl floor.world

theorem publish_measures (record : Option Record) (floor : Floor) :
    floor.world.Measures (publish record floor).world [] := by
  cases record <;> exact .refl floor.world

/-- The end of a run is not measured. -/
theorem conclude_measures {order : Order} {members : List (Member σ)}
    {concluded : Except LedgerError Report × Floor}
    (h : conclude order id floor members = some concluded) :
    floor.world.Measures concluded.2.world [] := by
  cases concluded_of_conclude h with
  | parallel =>
    rw [concludeParallel]
    split
    · split
      · split
        next => exact .refl floor.world
        next hsettled => exact (settleRecord_measures hsettled).trans (publish_measures _ _)
      · split
        next => exact .refl floor.world
        next hsettled => exact (settleRecord_measures hsettled :)
    · exact .refl floor.world
  | stopped failure =>
    obtain ⟨index, definition, error⟩ := failure
    simp only [concludeStopped]
    split
    next => exact .refl floor.world
    next hsettled => exact (settleRecord_measures hsettled :)
  | completed =>
    simp only [concludeCompleted]
    split
    next => exact .refl floor.world
    next hsettled => exact (settleRecord_measures hsettled).trans (publish_measures _ _)

/-- A run that is over has nobody left who waits for a slot or holds one. -/
theorem sumOf_of_conclude {order : Order} {members : List (Member σ)}
    {concluded : Except LedgerError Report × Floor}
    (h : conclude order id floor members = some concluded) :
    sumOf (Phase.queued order) members = 0 ∧ sumOf (Phase.active order) members = 0 := by
  have hnone : (∀ member ∈ members, member.phase.queued order = 0 ∧
      member.phase.active order = 0) →
      sumOf (Phase.queued order) members = 0 ∧ sumOf (Phase.active order) members = 0 := by
    intro hall
    rw [sumOf, sumOf, List.sum_eq_zero_iff_forall_eq_nat, List.sum_eq_zero_iff_forall_eq_nat]
    refine ⟨fun count hmem => ?_, fun count hmem => ?_⟩ <;>
    · obtain ⟨member, hmember, rfl⟩ := List.mem_map.1 hmem
      simp [hall member hmember]
  refine hnone fun member hmem => ?_
  cases concluded_of_conclude h with
  | parallel workers hall =>
    obtain ⟨settlement, hsettled⟩ := Option.isSome_iff_exists.1 (hall member hmem)
    rw [Phase.settlement?_eq_some.1 hsettled]
    exact ⟨rfl, rfl⟩
  | stopped | completed => exact ⟨rfl, rfl⟩

theorem createRecord_measures {plan : Plan} {context : Context} {recorded : Floor}
    (h : createRecord plan context floor = .ok recorded) :
    floor.world.Measures recorded.world [] := by
  unfold createRecord at h
  split at h
  · cases hcreate : floor.stamp.2.ledger.create floor.stamp.1 context.session.id
        context.session.user plan.name plan.namespace with
    | error error => simp only [hcreate, bind, Except.bind, reduceCtorEq] at h
    | ok created =>
      simp only [hcreate, bind, Except.bind, pure, Except.pure, Except.ok.injEq] at h
      rw [← h, World.Measures, Floor.journal_setLedger, List.append_nil]
      rfl
  · cases h
    exact .refl floor.world

variable {run : Run σ} {context : Context}

theorem putUpGate_measures {opened : Floor} (h : run.putUpGate context floor = .ok opened) :
    ∃ measured, floor.world.Measures opened.world measured ∧
      Elsewhere run.plan.name measured := by
  have hnotices : ∀ (places : List (Member σ × Nat)) (entered : Floor),
      entered.world.Measures (places.foldl (fun floor place => floor.notice
        (Member.scopeNotice context.session.id place.2 place.1.definition)) entered).world [] := by
    intro places
    induction places with
    | nil => exact fun entered => .refl entered.world
    | cons place rest ih => exact fun entered => ih (entered.notice _)
  rw [putUpGate] at h
  split at h
  · cases h
    exact ⟨[], .refl floor.world, fun _ hmem => absurd hmem List.not_mem_nil⟩
  next workers _ =>
    cases hgate : (Gate.new workers : Except PolicyError (Gate Nat)) with
    | error error => simp [hgate, bind, Except.bind] at h
    | ok gate =>
      simp only [hgate, bind, Except.bind, pure, Except.pure, Except.ok.injEq] at h
      subst h
      have hslots : floor.world.Measures
          ({ floor with gate }.measure [.slots run.plan.name workers]).world
          [.slots run.plan.name workers] := World.measures_measure _ _
      refine ⟨_, hslots.trans (hnotices _ _), ?_⟩
      intro measurement hmem _
      rw [List.append_nil] at hmem
      rw [List.mem_singleton.1 hmem]
      rfl

/-- When a run is opened, the number of its slots is measured at most. -/
theorem open_measures (run : Run σ) (context : Context) (world : World) :
    match run.open context world with
    | .error refusal => world.Measures refusal.2 []
    | .ok floor => ∃ measured, world.Measures floor.world measured ∧
      Elsewhere run.plan.name measured := by
  have hlobby : world.Measures (run.lobby context world).world [] := .refl world
  rw [Run.open]
  cases hcreate : createRecord run.plan context (run.lobby context world) with
  | error error => exact hlobby
  | ok recorded =>
    have hrecorded := hlobby.trans (createRecord_measures hcreate)
    cases hopened : run.putUpGate context recorded with
    | error error =>
      simp only [hopened]
      exact hrecorded
    | ok opened =>
      obtain ⟨measured, hmeasures, helsewhere⟩ := putUpGate_measures hopened
      simp only [hopened]
      exact ⟨measured, hrecorded.trans hmeasures, helsewhere⟩

end Ends

end Run

/-! ## Histories -/

/-- All but measuring under a name. -/
def Licence.butUnder (name : String) : Licence where
  measurement := fun measurement => measurement.workflow ≠ name
  op := fun _ => True

theorem Licence.butUnder_covers {name : String} {plan : Plan} (h : plan.name ≠ name) (id : String) :
    (butUnder name).Covers plan id where
  measurement := fun _ hname hsame => h (hname.symm.trans hsame)
  op := fun _ _ => trivial

theorem isLevel_of_mem_measurementsOf {ledger : Ledger} {now : Timestamp} {op : Ledger.Op}
    {measurement : Measurement} (h : measurement ∈ ledger.measurementsOf now op) :
    measurement.isLevel = false := by
  cases op with
  | commit id draft value =>
    simp only [Ledger.measurementsOf] at h
    split at h
    next record execution _ _ _ =>
      exact isLevel_of_mem_committed (some (record, execution)) measurement h
    next => cases h
  | _ => cases h

/-- Who may not measure under a name makes no measurements at a gate of this name, though
the commits of others may be measured under it. -/
theorem World.Becomes.butUnder {name : String} {before after : World}
    (h : before.Becomes (.butUnder name) after) : ∃ measured, before.Measures after measured ∧
      ∀ measurement ∈ measured, measurement.isLevel → measurement.workflow ≠ name := by
  refine (h.invariant (I := fun _ => True)
    (Q := fun measurement => measurement.isLevel → measurement.workflow ≠ name)
    (fun _ hname _ => hname) ?_ trivial).2
  intro ledger now op _ _
  exact ⟨trivial, fun measurement hmem hlevel => by
    simp [isLevel_of_mem_measurementsOf hmem] at hlevel⟩

/-- Between two stretches of a run nothing is measured under its name. -/
def Run.MeasuredElsewhere (name : String) (history : List (Stretch σ)) : Prop :=
  history.IsChain fun later earlier =>
    ∃ measured, earlier.step.world.Measures later.world measured ∧ Elsewhere name measured

namespace Run

variable {behave : σ → Poll σ} {workflow : Workflow σ} {context : Context}
  {history : List (Stretch (Traced σ))}

theorem sumOf_ofWorkflow {count : Phase → Nat} (hidle : count .idle = 0) (workflow : Workflow σ) :
    sumOf count (ofWorkflow workflow).members = 0 := by
  rw [sumOf, List.sum_eq_zero_iff_forall_eq_nat]
  intro number hmem
  obtain ⟨member, hmember, rfl⟩ := List.mem_map.1 hmem
  obtain ⟨_, -, rfl⟩ := List.mem_map.1 hmember
  exact hidle

/-- When a run is opened, there is nothing to account for. -/
theorem accounted_open {world : World} {floor : Floor}
    (h : (ofWorkflow workflow.traced).open context world = .ok floor) :
    Accounted workflow.plan world [] floor (ofWorkflow workflow.traced).members := by
  have hmeasures := open_measures (ofWorkflow workflow.traced) context world
  rw [h] at hmeasures
  obtain ⟨measured, hmeasures, helsewhere⟩ := hmeasures
  have hnil := (Account.nil workflow.plan.name).elsewhere helsewhere
  rw [List.nil_append] at hnil
  refine ⟨measured, hmeasures, ?_⟩
  rw [sumOf_ofWorkflow, sumOf_ofWorkflow]
  · exact hnil
  · cases workflow.plan.order <;> rfl
  · cases workflow.plan.order <;> rfl

section Histories

variable {B : σ → Prop} {first last : Stretch (Traced σ)}
  (h : History (Traced.poll behave) context (ofWorkflow workflow.traced) history)
  (hbehave : ∀ task, B task →
    (behave task).Heeds (.butUnder workflow.plan.name) (fun _ => True) B)
  (htasks : ∀ member ∈ workflow.members, B member.2)
  (helsewhere : MeasuredElsewhere workflow.plan.name history)
  (hfirst : history.getLast? = some first) (hlast : history.head? = some last)
include h hbehave htasks helsewhere hfirst hlast

/-- After every stretch of a run, what was measured under its name since its beginning
accounts for its members and for the successes that it has appended. -/
theorem History.accounted :
    let visits := log (Traced.poll behave) context (ofWorkflow workflow.traced) history
    Arrives (fun floor members =>
        Engaged (fun _ => True) B workflow context.session.id floor members ∧
          Accounted workflow.plan first.world visits floor members)
        workflow.plan context.session.id last.step ∨
      visits = [] ∧ first.world.Measures last.step.world [] ∧ last.step.result ≠ none := by
  intro visits
  have haccount := (h.log_account
    (P := fun before _ floor members =>
      Engaged (fun _ => True) B workflow context.session.id floor members ∧
        Accounted workflow.plan first.world before floor members)
    (S := fun _ world => world = first.world)
    (R := fun _ earlier _ later => ∃ measured, earlier.Measures later measured ∧
      Elsewhere workflow.plan.name measured)
    rfl ?_ ?_ ?_ ?_ helsewhere ?_).2.2 last hlast
  · rcases haccount with harrives | ⟨rfl, hlog, refusal, hopen, hstep⟩
    · exact .inl harrives
    · obtain rfl : last = first := by simpa using hfirst
      have hmeasures := open_measures (ofWorkflow workflow.traced) (context.withState last.state)
        last.world
      rw [hopen] at hmeasures
      rw [hstep]
      exact .inr ⟨hlog, hmeasures, by simp⟩
  · exact fun _ _ floor members hP => hP.1.any_isSome
  · rintro state world floor rfl hopen
    exact ⟨engaged_open htasks hopen, accounted_open hopen⟩
  · rintro visit hmem before ⟨hengaged, haccounted⟩
    obtain ⟨stretch, -, hof⟩ := h.of_mem_log hmem
    obtain ⟨hnext, hbecomes, opening, closing, htold⟩ :=
      hengaged.visited hbehave (fun _ => trivial) hof
    refine ⟨hnext, haccounted.visited htold (by rw [hof.scope]; rfl) fun exchange hexchange => ?_⟩
    obtain ⟨measured, hmeasures, hlevels⟩ := (hbecomes exchange hexchange).butUnder
    obtain ⟨hextends, rfl⟩ := Exchange.extends_of_measures hmeasures
    exact ⟨hextends, hlevels⟩
  · intro earliest hearliest
    obtain rfl : first = earliest := Option.some.inj (hfirst.symm.trans hearliest)
    rfl
  · rintro _ _ floor members state world ⟨hengaged, measured, hmeasures, haccount⟩
      ⟨more, hmore, helse⟩
    exact ⟨hengaged.resume state world, _, hmeasures.trans hmore, haccount.elsewhere helse⟩

/-- Once a run has ended, its levels are back where they were. -/
theorem History.balanced (hresult : last.step.result ≠ none) :
    let visits := log (Traced.poll behave) context (ofWorkflow workflow.traced) history
    ∃ measured, first.world.Measures last.step.world measured ∧
      Account workflow.plan.name 0 0 (visits.filterMap Visit.appended)
        (visits.flatMap Visit.heard) measured := by
  intro visits
  rcases h.accounted hbehave htasks helsewhere hfirst hlast with
    (⟨floor, members, -, -, hstep⟩ | ⟨floor, after, members, result, ⟨-, hP⟩, hconclude, hstep⟩) |
    ⟨hnone, hmeasures, -⟩
  · rw [hstep] at hresult
    exact absurd rfl hresult
  · obtain ⟨measured, hmeasures, haccount⟩ := hP
    obtain ⟨hqueued, hactive⟩ := sumOf_of_conclude hconclude
    rw [hqueued, hactive] at haccount
    have hlater := hmeasures.trans (conclude_measures hconclude)
    rw [List.append_nil] at hlater
    rw [hstep]
    exact ⟨measured, hlater, haccount⟩
  · rw [show visits = [] from hnone]
    exact ⟨[], hmeasures, .nil _⟩

end Histories

end Run

end Coordination
