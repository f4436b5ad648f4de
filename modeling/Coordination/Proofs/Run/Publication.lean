import Coordination.Clock
import Coordination.Proofs.Run.Moments

/-!
# Publication is all or nothing

The values of a run's session stay as they are until the run with output keys
is over. When it has completed, its outputs are published into the session,
all at once; when it has failed, was cancelled or refused, nothing is
(`published_at_once`). What sub-tasks write into sessions of their own gets
nowhere else.

* `Publishes`: what a run comes to;
* `conclude_concludes`, `cancel_publishes`: so it does, at its end or at its deadline;
* `Apart.sealed`: what a visit leaves in a session of its own, only its task can see.
-/

namespace Coordination

variable {σ : Type}

/-- A report and a record that say the same of a run that is over. -/
structure Report.Agrees (report : Report) (record : Record) : Prop where
  holds : report.record = some record
  status : record.status = report.status
  message : record.errorMessage = report.error
  error : report.error.isSome ↔ report.status = .failed

/-- What a run with output keys comes to: what it answers, and the values that
it leaves in its session, which were `initial` before. -/
inductive Publishes (initial : KeyMap String) : Except RunError Report → KeyMap String → Prop
  | completed (report : Report) (record : Record) (hagrees : report.Agrees record)
      (hstatus : report.status = .completed) :
    Publishes initial (.ok report) (initial.overlay record.outputs)
  | withheld (report : Report) (record : Record) (hagrees : report.Agrees record)
      (hstatus : report.status = .failed ∨ report.status = .cancelled) :
    Publishes initial (.ok report) initial
  | refused (error : RunError) : Publishes initial (.error error) initial

/-- Whatever the task of the member leaves in its session, the visit leaves the
same to everybody else. -/
def Visit.Sealed (behave : σ → Poll σ) (visit : Visit σ) : Prop :=
  ∀ values, Member.visitBy visit.scope visit.index ((behave visit.member.process).leaving values)
    visit.floor visit.member = visit.after.map id (Member.withSession values)

namespace Run

/-- When a run counts as a success: side by side, if some member has
succeeded; one after another, if all have. -/
def Succeeds (order : Order) (members : List (Member σ)) : Prop :=
  match order with
  | .parallel _ => ∃ member ∈ members, member.phase.settlement?.any (·.isSuccess)
  | .sequential => ∀ member ∈ members, member.phase.settlement?.any (·.isSuccess)

/-! ## Ends -/

variable {id : String} {floor : Floor} {members : List (Member σ)}

/-- Settling the record of a run leaves the values of its session alone. -/
theorem settleRecord_eq_ok (hkeyed : floor.keyed = true) {verdict : Verdict}
    {record? : Option Record} {settled : Floor}
    (h : settleRecord id verdict floor = .ok (record?, settled)) :
    settled.state = floor.state ∧ ∃ record, record? = some record ∧
      record.status = verdict.status ∧ record.errorMessage = verdict.message := by
  cases hrecord : floor.ledger.get? id with
  | none =>
    simp [settleRecord, hkeyed, Ledger.settle, Ledger.find_of_get?_none hrecord, bind,
      Except.bind] at h
  | some record =>
    simp only [settleRecord, hkeyed, if_true, Floor.ledger_stamp,
      Ledger.settle_of_get? hrecord] at h
    split at h
    · simp [bind, Except.bind] at h
    · simp only [bind, Except.bind, pure, Except.pure, Except.ok.injEq, Prod.mk.injEq] at h
      obtain ⟨rfl, rfl⟩ := h
      exact ⟨(Floor.kept_setLedger _ _).state, _, rfl, rfl, rfl⟩

/-- How a run with output keys comes to its end of itself. -/
structure Concludes (succeeds : Prop) (initial : KeyMap String)
    (concluded : Except LedgerError Report × Floor) : Prop where
  publishes : Publishes initial (concluded.1.mapError .ledger) concluded.2.state
  status : ∀ report, concluded.1 = .ok report →
    (succeeds → report.status = .completed) ∧ (¬ succeeds → report.status = .failed)

theorem concludeParallel_concludes (hkeyed : floor.keyed = true) :
    Concludes (0 < succeeded members) floor.state (concludeParallel id floor members) := by
  rw [concludeParallel]
  simp only [hkeyed, if_true]
  split
  next hsome =>
    split
    next error _ => exact ⟨.refused (.ledger error), fun report h => by cases h⟩
    next record? settled hsettle =>
      obtain ⟨hstate, record, rfl, hstatus, hmessage⟩ := settleRecord_eq_ok hkeyed hsettle
      refine ⟨?_, fun report h => ?_⟩
      · simp only [publish, Floor.notice, hstate]
        refine .completed _ record ⟨rfl, rfl, rfl, ?_⟩ hstatus
        simp [hstatus, hmessage, Verdict.status, Verdict.message]
      · cases h
        exact ⟨fun _ => hstatus, fun hnone => absurd hsome hnone⟩
  next hnone =>
    split
    next error _ => exact ⟨.refused (.ledger error), fun report h => by cases h⟩
    next record? settled hsettle =>
      obtain ⟨hstate, record, rfl, hstatus, hmessage⟩ := settleRecord_eq_ok hkeyed hsettle
      refine ⟨?_, fun report h => ?_⟩
      · simp only [Floor.notice, hstate]
        refine .withheld _ record ⟨rfl, rfl, rfl, ?_⟩ (.inl hstatus)
        simp [hstatus, hmessage, Verdict.status, Verdict.message]
      · cases h
        exact ⟨fun hsome => absurd hsome hnone, fun _ => hstatus⟩

theorem concludeStopped_concludes (hkeyed : floor.keyed = true)
    (failure : Nat × Definition × String) :
    Concludes False floor.state (concludeStopped id floor members failure) := by
  obtain ⟨index, definition, error⟩ := failure
  simp only [concludeStopped]
  split
  next error _ => exact ⟨.refused (.ledger error), fun report h => by cases h⟩
  next record? settled hsettle =>
    obtain ⟨hstate, record, rfl, hstatus, hmessage⟩ :=
      settleRecord_eq_ok (show (floor.notice _).keyed = true from hkeyed) hsettle
    refine ⟨?_, fun report h => ?_⟩
    · rw [hstate]
      exact .withheld _ record ⟨rfl, hstatus, hmessage, by simp⟩ (.inl rfl)
    · cases h
      exact ⟨False.elim, fun _ => rfl⟩

theorem concludeCompleted_concludes (hkeyed : floor.keyed = true) :
    Concludes True floor.state (concludeCompleted id floor members) := by
  simp only [concludeCompleted]
  split
  next error _ => exact ⟨.refused (.ledger error), fun report h => by cases h⟩
  next record? settled hsettle =>
    obtain ⟨hstate, record, rfl, hstatus, hmessage⟩ := settleRecord_eq_ok hkeyed hsettle
    refine ⟨?_, fun report h => ?_⟩
    · simp only [publish, Floor.notice, hstate]
      exact .completed _ record ⟨rfl, hstatus, hmessage, by simp⟩ rfl
    · cases h
      exact ⟨fun _ => rfl, fun hnot => absurd trivial hnot⟩

theorem succeeded_pos_iff : 0 < succeeded members ↔
    ∃ member ∈ members, member.phase.settlement?.any (·.isSuccess) := by
  simp only [succeeded, settlements, List.countP_pos_iff, List.mem_filterMap, Option.any_eq_true]
  constructor
  · rintro ⟨settlement, ⟨member, hmem, hsettled⟩, hsuccess⟩
    exact ⟨member, hmem, settlement, hsettled, hsuccess⟩
  · rintro ⟨member, hmem, settlement, hsettled, hsuccess⟩
    exact ⟨settlement, ⟨member, hmem, hsettled⟩, hsuccess⟩

theorem firstFailure?_eq_none_iff : firstFailure? members = none ↔
    ∀ member ∈ members, ∀ settlement, member.phase.settlement? = some settlement →
      settlement.isSuccess := by
  rw [firstFailure?, List.findSome?_eq_none_iff]
  constructor
  · intro h member hmem settlement hsettled
    obtain ⟨index, hget⟩ := List.mem_iff_getElem?.1 hmem
    have hnone := h (member, index) (List.mem_zipIdx_iff_getElem?.2 hget)
    cases herror : settlement.error with
    | none => simp [Settlement.isSuccess, herror]
    | some message => simp [hsettled, herror] at hnone
  · rintro h ⟨member, index⟩ hmem
    have hmem : member ∈ members := List.mem_of_getElem? (List.mem_zipIdx_iff_getElem?.1 hmem)
    cases hsettled : member.phase.settlement? with
    | none => simp [hsettled]
    | some settlement =>
      have herror : settlement.error = none := by
        simpa [Settlement.isSuccess] using h member hmem settlement hsettled
      simp [hsettled, herror]

/-- A run ends as its members have settled. -/
theorem conclude_concludes {order : Order} (hkeyed : floor.keyed = true)
    {concluded : Except LedgerError Report × Floor}
    (h : conclude order id floor members = some concluded) :
    Concludes (Succeeds order members) floor.state concluded := by
  cases concluded_of_conclude h with
  | parallel =>
    have hconcludes := @concludeParallel_concludes σ id floor members hkeyed
    rwa [succeeded_pos_iff] at hconcludes
  | stopped failure hfailure =>
    have hfails : ¬ Succeeds .sequential members := by
      intro hsucceeds
      have hnone : firstFailure? members = none := by
        rw [firstFailure?_eq_none_iff]
        intro member hmem settlement hsettled
        simpa [hsettled] using hsucceeds member hmem
      simp [hnone] at hfailure
    exact eq_false hfails ▸ concludeStopped_concludes hkeyed failure
  | completed hnone hall =>
    have hsucceeds : Succeeds .sequential members := by
      intro member hmem
      obtain ⟨settlement, hsettled⟩ := Option.isSome_iff_exists.1 (hall member hmem)
      rw [hsettled]
      exact firstFailure?_eq_none_iff.1 hnone member hmem settlement hsettled
    exact eq_true hsucceeds ▸ concludeCompleted_concludes hkeyed

/-- Cancelling a run publishes nothing. -/
theorem cancel_publishes {run : Run σ} (hkeyed : run.isKeyed = true) (abandons : List Abandon)
    (deadline : Nat) (context : Context) (world : World) :
    Publishes context.state (run.cancel abandons deadline context world).1 context.state := by
  simp only [cancel]
  split
  next error _ => exact .refused (.ledger error)
  next record? settled hsettle =>
    obtain ⟨-, record, rfl, hstatus, hmessage⟩ := settleRecord_eq_ok hkeyed hsettle
    exact .withheld _ record ⟨rfl, hstatus, hmessage, by simp⟩ (.inr rfl)

end Run

/-! ## Whole runs -/

namespace Run

variable {behave : σ → Poll σ} {workflow : Workflow σ} {context : Context}

theorem Apart.sealed {visit : Visit (Traced σ)} {stretch : Stretch (Traced σ)}
    (h : Apart behave workflow visit.floor visit.members)
    (hof : visit.Of (Traced.poll behave) workflow.plan context stretch) :
    visit.Sealed (Traced.poll behave) := by
  have hmem : visit.member ∈ visit.members := List.mem_of_getElem? visit.getElem?_members
  intro values
  rw [hof.after]
  refine Member.visitBy_leaving values _ _ _ _ _ h.keyed fun access events hphase => ?_
  obtain ⟨draft, _, current, haccess, -⟩ := (h.secluded visit.member hmem).confined hphase
  exact ⟨draft, current, haccess⟩

/-- How a run with output keys comes out of its last stretch: it is over, or, if
its sub-tasks run side by side, it is cancelled at its deadline. -/
inductive Ending (context : Context) (last : Stretch σ) : Finish → Prop
  | settled (result : Except RunError Report) (hresult : last.step.result = some result) :
    Ending context last ⟨result, last.step.state, last.step.world⟩
  | cancelled {workers : Nat} (horder : last.step.run.plan.order = .parallel workers)
      (hopen : last.step.result = none) (abandons : List Abandon) (deadline : Nat) (world : World) :
    Ending context last
      ⟨(last.step.run.cancel abandons deadline (context.withState last.step.state) world).1,
        last.step.state,
        (last.step.run.cancel abandons deadline (context.withState last.step.state) world).2⟩

/-- Nobody but a run writes into its session, which held these values at first. -/
structure Untouched (initial : KeyMap String) (history : List (Stretch σ)) : Prop where
  first : ∀ first, history.getLast? = some first → first.state = initial
  between : history.IsChain fun later earlier => later.state = earlier.step.state

/-- If no stretch but the latest changes the values, all find them as they were at first. -/
theorem Untouched.state_of_mem {initial : KeyMap String} {last : Stretch σ}
    {past : List (Stretch σ)} (h : Untouched initial (last :: past))
    (hkept : ∀ stretch ∈ past, stretch.step.state = stretch.state) :
    ∀ stretch ∈ last :: past, stretch.state = initial := by
  induction past generalizing last with
  | nil => simpa using h.first
  | cons earlier past ih =>
    rw [List.forall_mem_cons] at hkept
    have hearlier : ∀ stretch ∈ earlier :: past, stretch.state = initial :=
      ih ⟨h.first, h.between.tail⟩ hkept.2
    refine List.forall_mem_cons.2 ⟨?_, hearlier⟩
    rw [(List.isChain_cons_cons.1 h.between).1, hkept.1, hearlier earlier List.mem_cons_self]

/-- What a run comes to that its last stretch has left with its members apart. -/
theorem Comes.publishes {last : Stretch (Traced σ)} {finish : Finish}
    (hkeyed : workflow.isKeyed = true)
    (h : Comes (fun floor members => Apart behave workflow floor members ∧ floor.state = last.state)
      (ofWorkflow workflow.traced) context last)
    (hending : Ending context last finish) :
    Publishes last.state finish.result finish.state ∧
      ∀ report, last.step.result = some (.ok report) →
        (Succeeds workflow.plan.order last.step.run.members → report.status = .completed) ∧
        (¬ Succeeds workflow.plan.order last.step.run.members → report.status = .failed) := by
  rcases h with ⟨error, world, -, hstep⟩ | ⟨⟨floor, members, ⟨hapart, hstate⟩, -, hstep⟩ |
    ⟨floor, after, members, result, ⟨hapart, hstate⟩, hconclude, hstep⟩⟩
  · refine ⟨?_, fun report hreport => by simp [hstep] at hreport⟩
    cases hending with
    | settled result hresult =>
      obtain rfl : .error error = result := by simpa [hstep] using hresult
      rw [hstep]
      exact .refused error
    | cancelled _ hopen => simp [hstep] at hopen
  · refine ⟨?_, fun report hreport => by simp [hstep] at hreport⟩
    cases hending with
    | settled result hresult => simp [hstep] at hresult
    | cancelled _ _ abandons deadline world =>
      have hrun : last.step.run.isKeyed = true := by
        rw [hstep]
        exact hapart.carries.any_isSome.trans hkeyed
      have hafter : last.step.state = last.state := by rw [hstep, hstate]
      rw [← hafter]
      exact cancel_publishes hrun abandons deadline (context.withState last.step.state) world
  · obtain ⟨hpublishes, hstatus⟩ := conclude_concludes hapart.keyed hconclude
    rw [hstate] at hpublishes
    refine ⟨?_, fun report hreport => ?_⟩
    · cases hending with
      | settled result' hresult =>
        obtain rfl : result.mapError .ledger = result' := by simpa [hstep] using hresult
        rw [hstep]
        exact hpublishes
      | cancelled _ hopen => simp [hstep] at hopen
    · rw [hstep] at hreport ⊢
      cases result with
      | error error => cases hreport
      | ok report' =>
        cases hreport
        exact hstatus report rfl

/-- A run with output keys that ends of itself without a report was not opened,
provided that nobody else touches its record. -/
theorem Comes.refused_of_error {last : Stretch (Traced σ)}
    (h : Comes (Underway behave workflow context.session.id) (ofWorkflow workflow.traced) context
      last) {error : RunError} (hresult : last.step.result = some (.error error)) :
    ∃ world, (ofWorkflow workflow.traced).open (context.withState last.state) last.world =
      .error (error, world) := by
  rcases h with ⟨refusal, world, hopen, hstep⟩ | ⟨⟨_, _, -, -, hstep⟩ |
    ⟨floor, after, members, result, hunder, hconclude, hstep⟩⟩
  · obtain rfl : refusal = error := by simpa [hstep] using hresult
    exact ⟨world, hopen⟩
  · simp [hstep] at hresult
  · obtain ⟨report, rfl⟩ : ∃ report, result = .ok report := hunder.conclude_ok hconclude
    rw [hstep] at hresult
    cases hresult

/-- Publication is all or nothing. Whatever the sub-tasks of a run with output
keys do in their sessions, the values of the run's session stay as they were at
first until the run is over. Then they are overlaid with all outputs, if the run
has completed, and else stay as they are. And it completes as the sub-tasks
have succeeded, if it comes to an end of itself: it does so with a report, once
it is opened and if nobody else touches its record. -/
theorem published_at_once {initial : KeyMap String} {last : Stretch (Traced σ)}
    {past : List (Stretch (Traced σ))} {finish : Finish} (hkeyed : workflow.isKeyed = true)
    (h : History (Traced.poll behave) context (ofWorkflow workflow.traced) (last :: past))
    (huntouched : Untouched initial (last :: past)) (hending : Ending context last finish) :
    (∀ stretch ∈ last :: past, stretch.state = initial) ∧
    (∀ visit ∈ log (Traced.poll behave) context (ofWorkflow workflow.traced) (last :: past),
      visit.floor.state = initial ∧ visit.after.1.state = initial ∧
        visit.after.2.Secluded ∧ visit.Sealed (Traced.poll behave)) ∧
    Publishes initial finish.result finish.state ∧
    (∀ report, last.step.result = some (.ok report) →
      (Succeeds workflow.plan.order last.step.run.members → report.status = .completed) ∧
      (¬ Succeeds workflow.plan.order last.step.run.members → report.status = .failed)) ∧
    (workflow.check = .ok () →
      (workflow.plan.sharesLedger → Undisturbed context.session.id (last :: past)) →
      ∀ error, last.step.result = some (.error error) → ∃ world,
        (ofWorkflow workflow.traced).open (context.withState initial) last.world =
          .error (error, world)) := by
  obtain ⟨hvisits, hstretches⟩ := h.apart hkeyed
  have hstates := huntouched.state_of_mem fun stretch hmem =>
    h.state_of_none hkeyed stretch (List.mem_cons_of_mem _ hmem) (h.result_of_mem stretch hmem)
  have hlast := hstates last List.mem_cons_self
  obtain ⟨hpublishes, hstatus⟩ :=
    (hstretches last List.mem_cons_self).publishes hkeyed hending
  refine ⟨hstates, fun visit hmem => ?_, hlast ▸ hpublishes, hstatus, ?_⟩
  · obtain ⟨hapart, hstate⟩ := hvisits visit hmem
    obtain ⟨stretch, hstretch, hof⟩ := h.of_mem_log hmem
    obtain ⟨hafter, hkept⟩ := hapart.visited hof
    have hinitial : visit.floor.state = initial := by
      rw [hstate, hof.scope]
      exact hstates stretch hstretch
    have hleft : visit.after.2 ∈ visit.left := by simp [Visit.left]
    exact ⟨hinitial, hkept.state.trans hinitial, hafter.secluded _ hleft, hapart.sealed hof⟩
  · intro hcheck hundisturbed error hresult
    have hcomes := (h.underway hcheck hkeyed hundisturbed).2 last List.mem_cons_self
    rw [← hlast]
    exact hcomes.refused_of_error hresult

/-- Two sub-tasks one after another. The first writes into its session; its
output goes into the instruction of the second, which waits before it ends. -/
def relay : Workflow Leaf where
  plan := ⟨"relay", "default", .sequential, 100, false⟩
  members :=
    [(⟨"one", none, some "a", none⟩,
        .ofBody (.write "secret" "x" (.emit (.text "one" "sun") .finish))),
      (⟨"two", none, some "b", some "after \x7ba\x7d"⟩,
        .ofBody (.pause 5 (.emit (.text "two" "ice") .finish)))]

/-- The session of a relay. -/
def relayContext : Context := ⟨⟨"s", "u", "a", .empty⟩, 0, none⟩

/-- The values that a relay finds. -/
def relayState : KeyMap String := KeyMap.empty.insert "a" "fog"

/-- The first stretch of a relay. -/
def relayFirst : Stretch (Traced Leaf) :=
  ⟨.at 0, relayState, .start 100, (ofWorkflow relay.traced).give (Traced.poll Leaf.poll) (.at 0)
    (relayContext.withState relayState) (.start 100)⟩

/-- The second, when the second sub-task has waited long enough. -/
def relaySecond : Stretch (Traced Leaf) :=
  let world := { relayFirst.step.world with clock := 5 }
  ⟨.at 5, relayState, world, relayFirst.step.run.give (Traced.poll Leaf.poll) (.at 5)
    (relayContext.withState relayState) world⟩

theorem published_at_once_relay : ∃ report record,
    relaySecond.step.result = some (.ok report) ∧ report.Agrees record ∧
      report.status = .completed ∧ relayFirst.step.state = relayState ∧
      relaySecond.step.state = relayState.overlay record.outputs ∧
      relaySecond.step.state.get? "a" = some "sun" ∧ relaySecond.step.state.get? "secret" = none ∧
      ∀ visit ∈ log (Traced.poll Leaf.poll) relayContext (ofWorkflow relay.traced)
        [relaySecond, relayFirst], visit.Sealed (Traced.poll Leaf.poll) := by
  have h : History (Traced.poll Leaf.poll) relayContext (ofWorkflow relay.traced)
      [relaySecond, relayFirst] := .next (.first _ _ _) rfl _ _ _
  have hfirst : ∀ first, [relaySecond, relayFirst].getLast? = some first →
      first.state = relayState := by
    rintro _ ⟨⟩
    rfl
  have hbetween : [relaySecond, relayFirst].IsChain fun later earlier =>
      later.state = earlier.step.state := List.isChain_cons_cons.2 ⟨rfl, List.isChain_singleton _⟩
  obtain ⟨report, hreport⟩ : ∃ report, relaySecond.step.result = some (.ok report) := ⟨_, rfl⟩
  obtain ⟨-, hvisits, hpublishes, hstatus, -⟩ :=
    published_at_once rfl h ⟨hfirst, hbetween⟩ (.settled (.ok report) hreport)
  have hsucceeds : ∀ member ∈ relaySecond.step.run.members,
      member.phase.settlement?.any (·.isSuccess) := by decide +kernel
  have hcompleted := (hstatus report hreport).1 hsucceeds
  have hsun : relaySecond.step.state.get? "a" = some "sun" := by decide +kernel
  have hsecret : relaySecond.step.state.get? "secret" = none := by decide +kernel
  have hsealed := fun visit hmem => (hvisits visit hmem).2.2.2
  generalize relaySecond.step.state = state at hpublishes hsun hsecret ⊢
  cases hpublishes with
  | completed _ record hagrees =>
    exact ⟨report, record, hreport, hagrees, hcompleted, rfl, rfl, hsun, hsecret, hsealed⟩
  | withheld _ record hagrees hnot => simp [hcompleted] at hnot

end Run

end Coordination
