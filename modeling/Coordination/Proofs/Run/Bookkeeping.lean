import Coordination.Proofs.Run.InFlight

/-!
# Runs keep up with their records

The record that a run has in the shared ledger is running exactly while the run is in
flight: with its opening the run creates it, visits leave the number of the others as
it is (`Run.visits_follow`), and at its end the run settles it
(`Run.conclude_running`). So it is all the way up a tree of tasks
(`Process.Orderly.tracks`).
-/

namespace Coordination

/-! ## Stretches of a run -/

/-- The record that a run has in the shared ledger while its members are visited. -/
def Floor.record (session : String) (floor : Floor) : List String :=
  if floor.keyed && floor.own.isNone then [session] else []

theorem Floor.record_congr {floor other : Floor} (hkeyed : floor.keyed = other.keyed)
    (hown : floor.own.isSome = other.own.isSome) (session : String) :
    floor.record session = other.record session := by
  rw [record, record, hkeyed, ← Option.not_isSome, ← Option.not_isSome, hown]

namespace Run

variable {id session : String}

/-- A run that is under way has the record that its floor tells. -/
theorem sharedRecord_of_open {run : Run Process} {gate : Gate Nat} {own : Option Ledger}
    (hstage : run.stage = .open gate own) {floor : Floor} (hkeyed : floor.keyed = run.isKeyed)
    (hown : floor.own = own) : sharedRecord session run = floor.record session := by
  rw [sharedRecord, hstage, Floor.record, hkeyed, hown]
  cases own <;> cases run.isKeyed <;> rfl

/-- A visit keeps the members in order. -/
theorem Ordered.visited {plan : Plan} {visit : Visit Process} (h : Ordered plan visit.members)
    (hvisited : Member.Visited visit.scope visit.index visit.member.process.poll visit.floor
      visit.member visit.after)
    (hfront : plan.order = .sequential → ∀ member ∈ visit.front, member.passes .sequential) :
    Ordered plan visit.left where
  workers := h.workers
  unopened := by
    intro member hmem hunstarted
    rcases List.mem_append.1 hmem with hbefore | hbehind
    · exact h.unopened member (List.mem_append_left _ hbefore) hunstarted
    · rcases List.mem_cons.1 hbehind with rfl | hbehind
      · obtain ⟨hnot, hsame⟩ := hvisited.unstarted hunstarted
        rw [hsame]
        exact h.unopened visit.member (by simp [Visit.members]) hnot
      · exact h.unopened member (by simp [Visit.members, hbehind]) hunstarted
  inLine := by
    intro horder
    obtain ⟨hbefore, hrest, hacross⟩ := List.pairwise_append.1 (h.inLine horder)
    obtain ⟨hmember, hbehind⟩ := List.pairwise_cons.1 hrest
    refine List.pairwise_append.2 ⟨hbefore, List.pairwise_cons.2 ⟨?_, hbehind⟩, ?_⟩
    · exact fun second hmem hstarted => hvisited.passes (hmember second hmem hstarted)
    · exact fun first hmem _ _ _ => hfront horder first hmem

/-- What the visits of a stretch keep of a run. -/
structure Follows (id session : String) (plan : Plan) (entry now : Floor × List (Member Process)) :
    Prop where
  keyed : now.1.keyed = entry.1.keyed
  own : now.1.own.isSome = entry.1.own.isSome
  definitions : now.2.map (·.definition) = entry.2.map (·.definition)
  ordered : Ordered plan now.2
  orderly : ∀ member ∈ now.2, member.process.Orderly id
  running : ∀ others, (entry.1.world.ledger.isRunning id).toNat =
      (entry.2.flatMap (Member.inFlight session)).count id + others →
    (now.1.world.ledger.isRunning id).toNat =
      (now.2.flatMap (Member.inFlight session)).count id + others

theorem Follows.visited {plan : Plan} {entry : Floor × List (Member Process)}
    {visit : Visit Process} (h : Follows id session plan entry (visit.floor, visit.members))
    (hvisited : Member.Visited visit.scope visit.index visit.member.process.poll visit.floor
      visit.member visit.after)
    (hfront : plan.order = .sequential → ∀ member ∈ visit.front, member.passes .sequential)
    (htracked : Member.Tracked id session visit.floor visit.member visit.after) :
    Follows id session plan entry (visit.after.1, visit.left) where
  keyed := htracked.keyed.trans h.keyed
  own := htracked.own.trans h.own
  definitions := by
    rw [visit.left_eq_set, map_definition_set visit.getElem?_members hvisited.polled.1]
    exact h.definitions
  ordered := h.ordered.visited hvisited hfront
  orderly := by
    intro member hmem
    rcases List.mem_append.1 hmem with hbefore | hbehind
    · exact h.orderly member (List.mem_append_left _ hbefore)
    · rcases List.mem_cons.1 hbehind with rfl | hbehind
      · exact htracked.orderly
      · exact h.orderly member (by simp [Visit.members, hbehind])
  running := by
    intro others hcount
    have hbefore := h.running others hcount
    simp only [Visit.members, Visit.left, List.flatMap_append, List.flatMap_cons,
      List.count_append] at hbefore ⊢
    have hafter := htracked.running
      ((visit.front.flatMap (Member.inFlight session)).count id +
        (visit.rest.flatMap (Member.inFlight session)).count id + others) (by omega)
    omega

/-- The visits of a stretch. -/
theorem visits_follow (scope : Scope) (floor : Floor) {members : List (Member Process)}
    (hordered : Ordered scope.plan members)
    (horderly : ∀ member ∈ members, member.process.Orderly id)
    (htracks : ∀ member ∈ members, ∀ turn context world,
      member.process.Tracks id turn context world) :
    let log := Member.visits Process.poll scope [] floor members
    Follows id scope.context.session.id scope.plan (floor, members)
      (Visit.floorLeft floor log, Visit.membersLeft members log) := by
  intro log
  have hfront : ∀ visit ∈ log, ∀ member ∈ visit.front, member.passes scope.plan.order :=
    Member.front_of_mem_visits (fun _ _ hpasses => hpasses)
      fun _ hmem => absurd hmem List.not_mem_nil
  have hentry : Follows id scope.context.session.id scope.plan (floor, members)
      (floor, [] ++ members) := ⟨rfl, rfl, rfl, hordered, horderly, fun _ hcount => hcount⟩
  refine (Member.visits_induction (P := fun floor' members' => Follows id scope.context.session.id
    scope.plan (floor, members) (floor', members')) (fun visit hmem hP => ?_) hentry).2
  obtain ⟨hscope, hafter⟩ := Member.of_mem_visits hmem
  have hvisited : Member.Visited visit.scope visit.index visit.member.process.poll visit.floor
      visit.member visit.after := by
    rw [hafter, hscope]
    exact Member.visitBy_visited ..
  have hmember := Member.mem_of_mem_visits hmem
  refine hP.visited hvisited (fun horder member hin => horder ▸ hfront visit hmem member hin) ?_
  rw [hafter]
  exact Member.visitBy_tracked (htracks visit.member hmember) (horderly visit.member hmember)
    (hordered.unopened visit.member hmember)

/-! ## Ends and beginnings -/

section Ends

variable {floor : Floor}

/-- Settling its record, a run leaves one running less, or it has none in the shared
ledger. -/
theorem settleRecord_running {verdict : Verdict} {record : Option Record} {after : Floor}
    (h : settleRecord session verdict floor = .ok (record, after)) (id : String) :
    (floor.world.ledger.isRunning id).toNat =
      (floor.record session).count id + (after.world.ledger.isRunning id).toNat := by
  unfold settleRecord at h
  rw [Floor.record]
  split at h
  next hkeyed =>
    cases hsettle : floor.ledger.settle floor.stamp.1 session verdict with
    | error error => simp [hsettle, bind, Except.bind] at h
    | ok settled =>
      obtain ⟨record, ledger⟩ := settled
      simp only [Floor.ledger_stamp, hsettle, bind, Except.bind, pure, Except.pure,
        Except.ok.injEq, Prod.mk.injEq] at h
      obtain ⟨-, rfl⟩ := h
      have hcount := Ledger.isRunning_settle hsettle id
      cases hown : floor.own with
      | none =>
        rw [Floor.ledger, hown, Option.getD_none] at hcount
        simpa [hkeyed, hown, Floor.stamp, Floor.setLedger] using hcount
      | some own => simp [hown, Floor.stamp, Floor.setLedger, World.stamp]
  next hkeyed =>
    cases h
    simp [hkeyed]

/-- A run is only refused the end of a record that is not its own, or not running. -/
theorem count_record_of_settleRecord_error {verdict : Verdict} {error : LedgerError}
    (h : settleRecord session verdict floor = .error error)
    (hrunning : (floor.record session).count id ≤ (floor.world.ledger.isRunning id).toNat) :
    (floor.record session).count id = 0 := by
  unfold settleRecord at h
  rw [Floor.record] at hrunning ⊢
  split at h
  next hkeyed =>
    cases hsettle : floor.ledger.settle floor.stamp.1 session verdict with
    | ok settled => simp [hsettle, bind, Except.bind, pure, Except.pure] at h
    | error error =>
      have hnot := Ledger.isRunning_of_settle_error hsettle
      cases hown : floor.own with
      | some own => simp
      | none =>
        simp only [hkeyed, hown, Option.isNone_none, Bool.and_self, if_true,
          List.count_singleton] at hrunning ⊢
        by_cases hid : session = id
        · subst hid
          rw [Floor.ledger, hown, Option.getD_none] at hnot
          simp [hnot] at hrunning
        · simp [hid]
  next => cases h

theorem running_of_settleRecord_error {verdict : Verdict} {error : LedgerError}
    (h : settleRecord session verdict floor = .error error)
    (hrunning : (floor.record session).count id ≤ (floor.world.ledger.isRunning id).toNat) :
    (floor.world.ledger.isRunning id).toNat =
      (floor.record session).count id + (floor.world.ledger.isRunning id).toNat := by
  rw [count_record_of_settleRecord_error h hrunning, Nat.zero_add]

theorem ledger_publish (record : Option Record) (floor : Floor) :
    (publish record floor).world.ledger = floor.world.ledger := by
  cases record <;> rfl

theorem running_publish {verdict : Verdict} {record : Option Record} {after : Floor}
    (h : settleRecord session verdict floor = .ok (record, after)) (id : String) :
    (floor.world.ledger.isRunning id).toNat = (floor.record session).count id +
      ((publish record after).world.ledger.isRunning id).toNat := by
  rw [ledger_publish]
  exact settleRecord_running h id

/-- At its end a run leaves one record running less, if it has one in the shared ledger.
Only the record is settled; what is published and told has to do with no ledger. -/
theorem conclude_running {order : Order} {members : List (Member Process)}
    {concluded : Except LedgerError Report × Floor}
    (h : conclude order session floor members = some concluded)
    (hrunning : (floor.record session).count id ≤ (floor.world.ledger.isRunning id).toNat) :
    (floor.world.ledger.isRunning id).toNat =
      (floor.record session).count id + (concluded.2.world.ledger.isRunning id).toNat := by
  cases concluded_of_conclude h with
  | parallel =>
    rw [concludeParallel]
    by_cases hkeyed : floor.keyed = true
    · simp only [if_pos hkeyed]
      split
      · split
        next herror => exact running_of_settleRecord_error herror hrunning
        next hsettled => exact running_publish hsettled id
      · split
        next herror => exact running_of_settleRecord_error herror hrunning
        next hsettled => exact settleRecord_running hsettled id
    · simp [Floor.record, hkeyed, Floor.notice, World.notice]
  | stopped failure =>
    obtain ⟨index, definition, error⟩ := failure
    simp only [concludeStopped]
    split
    next herror => exact @running_of_settleRecord_error _ _ (floor.notice _) _ _ herror hrunning
    next hsettled => exact settleRecord_running hsettled id
  | completed =>
    simp only [concludeCompleted]
    split
    next herror => exact running_of_settleRecord_error herror hrunning
    next hsettled => exact running_publish hsettled id

/-- Of a run that is over no member is under way any more. -/
theorem inFlight_of_conclude {plan : Plan} {members : List (Member Process)}
    {concluded : Except LedgerError Report × Floor} (hordered : Ordered plan members)
    (h : conclude plan.order session floor members = some concluded) :
    members.flatMap (Member.inFlight session) = [] := by
  have hsettled : (∀ member ∈ members, member.phase.settlement?.isSome) →
      members.flatMap (Member.inFlight session) = [] := fun hall =>
    List.flatMap_eq_nil_iff.2 fun member hmem => Member.inFlight_of_settled (hall member hmem)
  generalize horder : plan.order = order at h
  cases concluded_of_conclude h with
  | parallel _ hall => exact hsettled hall
  | completed _ hall => exact hsettled hall
  | stopped failure hfailure =>
    -- A member that is under way has none before it that failed, and none behind it at all.
    have hnot : ¬ ∀ member ∈ members, ∀ settlement,
        member.phase.settlement? = some settlement → settlement.isSuccess := by
      rw [← firstFailure?_eq_none_iff, hfailure]
      simp
    push Not at hnot
    obtain ⟨failed, hfailed, settlement, hends, hfails⟩ := hnot
    rw [List.flatMap_eq_nil_iff]
    intro member hmem
    rw [Member.inFlight]
    split
    next access events hphase =>
      obtain ⟨i, hi, rfl⟩ := List.getElem_of_mem hfailed
      obtain ⟨j, hj, rfl⟩ := List.getElem_of_mem hmem
      have hpairs := List.pairwise_iff_getElem.1 (hordered.inLine horder)
      rcases Nat.lt_trichotomy i j with hlt | rfl | hlt
      · have hpasses := hpairs i j hi hj hlt (by rw [hphase]; rfl)
        simp [Member.passes, hends, hfails] at hpasses
      · simp [hphase, Phase.settlement?] at hends
      · have hpasses := hpairs j i hj hi hlt
          (Member.hasStarted_of_settled (by rw [hends]; rfl))
        simp [Member.passes, hphase, Phase.settlement?] at hpasses
    next => rfl

/-- A run that creates its record in the shared ledger has one more running there. -/
theorem createRecord_running {plan : Plan} {context : Context} {opened : Floor}
    (h : createRecord plan context floor = .ok opened) (id : String) :
    opened.keyed = floor.keyed ∧ opened.own.isSome = floor.own.isSome ∧
      (opened.world.ledger.isRunning id).toNat =
        (floor.record context.session.id).count id + (floor.world.ledger.isRunning id).toNat := by
  unfold createRecord at h
  rw [Floor.record]
  split at h
  next hkeyed =>
    cases hcreate : floor.ledger.create floor.stamp.1 context.session.id context.session.user
        plan.name plan.namespace with
    | error error =>
      simp only [Floor.ledger_stamp, hcreate, bind, Except.bind, reduceCtorEq] at h
    | ok created =>
      obtain ⟨record, ledger⟩ := created
      simp only [Floor.ledger_stamp, hcreate, bind, Except.bind, pure, Except.pure,
        Except.ok.injEq] at h
      subst h
      have hkept := floor.stamp.2.kept_setLedger ledger
      refine ⟨hkept.keyed, hkept.own, ?_⟩
      have hcount := Ledger.isRunning_create hcreate id
      cases hown : floor.own with
      | none =>
        rw [Floor.ledger, hown, Option.getD_none] at hcount
        simpa [hkeyed, hown, Floor.stamp, Floor.setLedger] using hcount
      | some own => simp [hown, Floor.stamp, Floor.setLedger, World.stamp]
  next hkeyed =>
    cases h
    simp [hkeyed]

theorem putUpGate_upholds {run : Run Process} {context : Context} {opened : Floor}
    (h : run.putUpGate context floor = .ok opened) : floor.Upholds id opened := by
  have hnotices : ∀ (places : List (Member Process × Nat)) (entered : Floor),
      entered.Upholds id (places.foldl (fun floor place => floor.notice
        (Member.scopeNotice context.session.id place.2 place.1.definition)) entered) := by
    intro places
    induction places with
    | nil => exact fun entered => .refl entered
    | cons place rest ih =>
      intro entered
      have hnotice : entered.Upholds id (entered.notice
          (Member.scopeNotice context.session.id place.2 place.1.definition)) := ⟨rfl, rfl, rfl⟩
      exact hnotice.trans (ih _)
  rw [putUpGate] at h
  split at h
  · cases h
    exact .refl floor
  next workers _ =>
    cases hgate : (Gate.new workers : Except PolicyError (Gate Nat)) with
    | error error => simp [hgate, bind, Except.bind] at h
    | ok gate =>
      simp only [hgate, bind, Except.bind, pure, Except.pure, Except.ok.injEq] at h
      subst h
      have hgate : floor.Upholds id
          ({ floor with gate }.measure [.slots run.plan.name workers]) := ⟨rfl, rfl, rfl⟩
      exact hgate.trans (hnotices _ _)

theorem putUpGate_of_ordered {run : Run Process} (hordered : Ordered run.plan run.members)
    (context : Context) (floor : Floor) : ∃ opened, run.putUpGate context floor = .ok opened := by
  rw [putUpGate]
  split
  · exact ⟨floor, rfl⟩
  next workers horder =>
    simp [Gate.new, hordered.workers workers horder, bind, Except.bind, pure, Except.pure]

/-- How a run opens: with a record more in flight, or not at all. -/
theorem open_running {run : Run Process} (hordered : Ordered run.plan run.members)
    (context : Context) (world : World) (id : String) :
    match run.open context world with
    | .error refusal => refusal.2.ledger = world.ledger
    | .ok floor => floor.keyed = run.isKeyed ∧ (floor.world.ledger.isRunning id).toNat =
        (floor.record context.session.id).count id + (world.ledger.isRunning id).toNat := by
  rw [Run.open]
  cases hcreate : createRecord run.plan context (run.lobby context world) with
  | error error => rfl
  | ok recorded =>
    obtain ⟨hkeyed, hown, hcount⟩ := createRecord_running hcreate id
    obtain ⟨opened, hopened⟩ := putUpGate_of_ordered hordered context recorded
    have hupholds : recorded.Upholds id opened := putUpGate_upholds hopened
    simp only [hopened]
    rw [Floor.record_congr (hupholds.keyed.trans hkeyed) (hupholds.own.trans hown),
      hupholds.running]
    exact ⟨hupholds.keyed.trans hkeyed, hcount⟩

end Ends

/-! ## Runs as tasks -/

section Give

variable {run : Run Process} {turn : Turn} {context : Context} {world : World}

/-- What a stretch does to the records that are running, and to the runs in flight. -/
structure Treads (id : String) (run : Run Process) (context : Context) (world : World)
    (step : Step Process) : Prop where
  orderly : (Process.workflow step.run).Orderly id
  ended : step.result ≠ none → (Process.workflow step.run).inFlight context.session.id = []
  running : ∀ others, (world.ledger.isRunning id).toNat =
      ((Process.workflow run).inFlight context.session.id).count id + others →
    (step.world.ledger.isRunning id).toNat =
      ((Process.workflow step.run).inFlight context.session.id).count id + others

theorem visitAll_treads {floor : Floor} (hordered : Ordered run.plan run.members)
    (horderly : ∀ member ∈ run.members, member.process.Orderly id)
    (htracks : ∀ member ∈ run.members, ∀ turn context world,
      member.process.Tracks id turn context world)
    (hkeyed : floor.keyed = run.isKeyed)
    (hentry : ∀ others, (world.ledger.isRunning id).toNat =
        ((Process.workflow run).inFlight context.session.id).count id + others →
      (floor.world.ledger.isRunning id).toNat = (floor.record context.session.id).count id +
        (run.members.flatMap (Member.inFlight context.session.id)).count id + others) :
    Treads id run context world (run.visitAll
      (run.members.map fun member => member.process.poll) turn context floor) := by
  have hfollows := visits_follow ⟨run.plan, context, turn⟩ floor hordered horderly htracks
  rw [visitAll_eq]
  simp only at hfollows ⊢
  generalize Visit.floorLeft floor _ = left, Visit.membersLeft run.members _ = members
    at hfollows ⊢
  obtain ⟨hkept, hown, hdefinitions, hordered', horderly', hrunning⟩ := hfollows
  have hrecord := Floor.record_congr hkept hown context.session.id
  have hcounted : ∀ others, (world.ledger.isRunning id).toNat =
      ((Process.workflow run).inFlight context.session.id).count id + others →
      (left.world.ledger.isRunning id).toNat =
        (members.flatMap (Member.inFlight context.session.id)).count id +
          ((left.record context.session.id).count id + others) := by
    intro others hcount
    rw [hrecord]
    refine hrunning _ ?_
    dsimp only
    have := hentry others hcount
    omega
  split
  next hconclude =>
    have hsame : left.keyed =
        (⟨run.plan, .open left.gate left.own, members⟩ : Run Process).isKeyed := by
      have hany := congrArg (List.any · fun definition => definition.outputKey.isSome) hdefinitions
      simp only [List.any_map, Function.comp_def] at hany
      rw [hkept, hkeyed, isKeyed, isKeyed, hany]
    refine ⟨.workflow _ hordered' (fun h => by cases h) horderly', fun h => absurd rfl h,
      fun others hcount => ?_⟩
    rw [Process.inFlight_workflow, sharedRecord_of_open rfl hsame rfl, List.count_append]
    dsimp only
    have := hcounted others hcount
    omega
  next result after hconclude =>
    have hnone := inFlight_of_conclude hordered' hconclude
    have hempty : (Process.workflow ⟨run.plan, .closed, members⟩).inFlight context.session.id =
        [] := by
      rw [Process.inFlight_workflow, hnone]
      rfl
    refine ⟨.workflow _ hordered' (fun h => by cases h) horderly', fun _ => hempty,
      fun others hcount => ?_⟩
    have hleft := hcounted others hcount
    have hheld : (left.record context.session.id).count id ≤
        (left.world.ledger.isRunning id).toNat := by omega
    have hends := conclude_running hconclude hheld
    rw [hnone] at hleft
    rw [hempty]
    simp only [List.count_nil] at hleft hends ⊢
    omega

/-- Any stretch of a run. -/
theorem give_treads (hordered : Ordered run.plan run.members)
    (hfresh : run.stage = .fresh → ∀ member ∈ run.members, member.phase = .idle)
    (horderly : ∀ member ∈ run.members, member.process.Orderly id)
    (htracks : ∀ member ∈ run.members, ∀ turn context world,
      member.process.Tracks id turn context world) (turn : Turn) (context : Context)
    (world : World) : Treads id run context world (run.give Process.poll turn context world) := by
  rw [give, poll]
  cases hstage : run.stage with
  | fresh =>
    have hidle : run.members.flatMap (Member.inFlight context.session.id) = [] :=
      List.flatMap_eq_nil_iff.2 fun member hmem =>
        Member.inFlight_of_unstarted (by rw [hfresh hstage member hmem]; rfl)
    have hnone : (Process.workflow run).inFlight context.session.id = [] := by
      rw [Process.inFlight_workflow, sharedRecord, hstage, hidle]
      rfl
    have hopened := open_running hordered context world id
    cases hopen : run.open context world with
    | error refusal =>
      rw [hopen] at hopened
      have hclosed : (Process.workflow { run with stage := .closed }).inFlight
          context.session.id = [] := by
        rw [Process.inFlight_workflow, hidle]
        rfl
      refine ⟨.workflow _ hordered (fun h => by cases h) horderly, fun _ => hclosed,
        fun others hcount => ?_⟩
      rw [hclosed, ← hnone]
      dsimp only at hopened ⊢
      rw [hopened]
      exact hcount
    | ok floor =>
      rw [hopen] at hopened
      refine visitAll_treads hordered horderly htracks hopened.1 fun others hcount => ?_
      rw [hnone] at hcount
      rw [hopened.2, hidle]
      simp only [List.count_nil] at hcount ⊢
      omega
  | «open» gate own =>
    refine visitAll_treads hordered horderly htracks rfl fun others hcount => ?_
    rw [Process.inFlight_workflow, List.count_append] at hcount
    rwa [← sharedRecord_of_open hstage rfl rfl]
  | closed =>
    exact ⟨.workflow run hordered hfresh horderly, fun h => absurd rfl h, fun _ hcount => hcount⟩

end Give

end Run

namespace Process

theorem world_ofStep (step : Run.Step Process) : (ofStep step).world = step.world := by
  unfold ofStep
  split
  · rfl
  · split <;> rfl

/-- No stretch of a tree of tasks leaves a record running whose run is not in flight any
more. -/
theorem Orderly.tracks {id : String} {process : Process} (h : process.Orderly id) (turn : Turn)
    (context : Context) (world : World) : Tracks id process turn context world := by
  induction h generalizing turn context world with
  | leaf body habstains => exact tracks_leaf habstains turn context world
  | workflow run hordered hfresh horderly ih =>
    obtain ⟨hafter, hover, hrunning⟩ :=
      Run.give_treads hordered hfresh horderly ih turn context world
    refine ⟨?_, ?_, ?_⟩ <;> rw [poll_workflow]
    · rw [process_ofStep]
      exact hafter
    · intro hdone
      obtain ⟨result, hresult⟩ := result_of_ended hdone
      rw [process_ofStep]
      exact hover (by simp [hresult])
    · rw [world_ofStep, process_ofStep]
      exact hrunning

end Process

end Coordination
