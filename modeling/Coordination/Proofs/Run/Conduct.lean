import Coordination.Proofs.Ledger.Naming
import Coordination.Proofs.Run.InFlight
import Coordination.Proofs.Run.Licence

/-!
# What a run does to its surroundings

A run makes its measurements under its own name, and in the shared ledger it operates on
the record of its own session alone (`Plan.Operates`). So it stays within a licence that
covers it, if its tasks do in the sessions in which they work.

* `Member.visitBy_conducts`: a visit;
* `Run.open_conducts`, `Run.conclude_conducts`: the beginning and the end of a run;
* `Run.give_conducts`: a stretch of it, over whatever its tasks are.
-/

namespace Coordination

variable {σ : Type}

/-! ## Licences for runs -/

/-- How a run with this plan operates on the shared ledger, in a session with this id. -/
inductive Plan.Operates (plan : Plan) (id : String) : Ledger.Op → Prop
  | create (owner : String) : Operates plan id (.create id owner plan.name plan.namespace)
  | commit (draft : Draft) (value : String) : Operates plan id (.commit id draft value)
  | recordFailure (draft : Draft) (error : String) :
    Operates plan id (.recordFailure id draft error)
  | settle (verdict : Verdict) : Operates plan id (.settle id verdict)

theorem Plan.Operates.name_of_create {plan : Plan} {id target owner name «namespace» : String}
    (h : plan.Operates id (.create target owner name «namespace»)) : name = plan.name := by
  cases h
  rfl

/-- Whether a licence covers what a run does itself, in a session with this id. -/
structure Licence.Covers (licence : Licence) (plan : Plan) (id : String) : Prop where
  measurement : ∀ measurement : Measurement,
    measurement.workflow = plan.name → licence.measurement measurement
  op : ∀ op, plan.Operates id op → licence.op op

/-- Whether a poll stays within a licence in sessions of these ids, and leaves a task of
which `B` holds. -/
def Poll.Heeds (licence : Licence) (sessions : String → Prop) (B : σ → Prop) (poll : Poll σ) :
    Prop :=
  ∀ turn context world, sessions context.session.id →
    world.Becomes licence (poll turn context world).world ∧ B (poll turn context world).process

/-! ## Floors -/

/-- Whether all records in the run's own ledger, if it has one, bear its name. -/
def Floor.OwnNamed (name : String) (floor : Floor) : Prop :=
  ∀ own, floor.own = some own → own.Named fun _ held => held = name

/-- What is done on a floor stays within a licence, and a ledger of the run's own
keeps to the name of the run. -/
def Floor.Conducts (licence : Licence) (name : String) (before after : Floor) : Prop :=
  before.OwnNamed name → after.OwnNamed name ∧ before.world.Becomes licence after.world

namespace Floor

variable {licence : Licence} {name : String} {plan : Plan} {id : String}

theorem Conducts.refl (floor : Floor) : Conducts licence name floor floor := fun h => ⟨h, .refl⟩

theorem Conducts.trans {a b c : Floor} (h : Conducts licence name a b)
    (h' : Conducts licence name b c) : Conducts licence name a c := by
  intro hnamed
  obtain ⟨hb, hbecomes⟩ := h hnamed
  obtain ⟨hc, hbecomes'⟩ := h' hb
  exact ⟨hc, hbecomes.trans hbecomes'⟩

theorem conducts_stamp (floor : Floor) : Conducts licence name floor floor.stamp.2 :=
  fun h => ⟨h, World.Becomes.refl.stamp⟩

theorem conducts_notice (floor : Floor) (notice : Notice) :
    Conducts licence name floor (floor.notice notice) :=
  fun h => ⟨h, World.Becomes.refl.notice notice⟩

/-- Measurements at the gate are made under the name of the run. -/
theorem conducts_measure (hcovers : licence.Covers plan id) (floor : Floor) (gate : Gate Nat)
    (measurements : List Measurement)
    (hname : ∀ measurement ∈ measurements, measurement.workflow = plan.name) :
    Conducts licence plan.name floor ({ floor with gate }.measure measurements) :=
  fun h => ⟨h, World.Becomes.refl.measure measurements fun measurement hmem =>
    hcovers.measurement measurement (hname measurement hmem)⟩

theorem conducts_withWorld (floor : Floor) (name : String) (state : KeyMap String) {world : World}
    (h : floor.world.Becomes licence world) :
    Conducts licence name floor { floor with state, world } :=
  fun hnamed => ⟨hnamed, h⟩

@[simp] theorem measure_nil (floor : Floor) : floor.measure [] = floor := by
  simp [measure, World.measure, Journal.measure]

/-- An operation of the run, on the shared ledger or on its own. -/
theorem conducts_operate (hcovers : licence.Covers plan id) (floor : Floor) {op : Ledger.Op}
    (hop : plan.Operates id op) :
    Conducts licence plan.name floor
      ((floor.stamp.2.setLedger (floor.ledger.apply floor.stamp.1 op).2).measure
        (floor.ledger.measurementsOf floor.stamp.1 op)) := by
  intro hnamed
  cases hown : floor.own with
  | none =>
    have hledger : floor.ledger = floor.world.ledger := by rw [ledger, hown, Option.getD_none]
    have hafter : (floor.stamp.2.setLedger (floor.ledger.apply floor.stamp.1 op).2).measure
        (floor.ledger.measurementsOf floor.stamp.1 op) =
          { floor with world := (floor.world.operate op).2 } := by
      rw [hledger]
      simp only [setLedger, stamp, hown]
      rfl
    rw [hafter]
    exact ⟨hnamed, World.Becomes.refl.operate op (hcovers.op op hop)⟩
  | some own =>
    have hledger : floor.ledger = own := by rw [ledger, hown, Option.getD_some]
    have howned := hnamed own hown
    rw [hledger]
    refine ⟨?_, ?_⟩
    · rintro later hlater
      have hsame : later = (own.apply floor.stamp.1 op).2 := by
        simpa [setLedger, stamp, hown, measure, eq_comm] using hlater
      rw [hsame]
      refine howned.apply (fun target owner held «namespace» hcreate => ?_) floor.stamp.1
      exact (hcreate ▸ hop).name_of_create
    · have hworld : ((floor.stamp.2.setLedger (own.apply floor.stamp.1 op).2).measure
          (own.measurementsOf floor.stamp.1 op)).world =
            floor.world.stamp.2.measure (own.measurementsOf floor.stamp.1 op) := by
        simp only [setLedger, stamp, hown]
        rfl
      rw [hworld]
      refine World.Becomes.refl.stamp.measure _ fun measurement hmem => ?_
      obtain ⟨_, _, _, -, hname⟩ := howned.measurementsOf hmem
      exact hcovers.measurement measurement hname

end Floor

/-! ## Members -/

/-- Whether a member has a task of which `B` holds, and no other session of its own than
one of these. -/
structure Member.Minds (sessions : String → Prop) (B : σ → Prop) (member : Member σ) : Prop where
  task : B member.process
  session : ∀ draft context events, member.phase = .running (.own draft context) events →
    sessions context.session.id

namespace Member

variable {licence : Licence} {sessions : String → Prop} {B : σ → Prop} {scope : Scope}
  {index : Nat} {poll : Poll σ} {floor : Floor} {member : Member σ}

theorem minds_fail (h : B member.process) (draft : Option Draft) (events : List Event)
    (error : TaskError) : (fail scope floor member draft events error).2.Minds sessions B :=
  ⟨h, fun _ _ _ hphase => by cases hphase⟩

theorem minds_succeed (h : B member.process) (draft : Option Draft) (events : List Event) :
    (succeed scope floor member draft events).2.Minds sessions B where
  task := by rwa [process_succeed]
  session := by
    intro _ _ _ hphase
    have hsettled := settled_succeed scope floor member draft events
    rw [hphase] at hsettled
    cases hsettled

section Minds

variable (hpoll : poll.Heeds licence sessions B) (hsession : sessions scope.context.session.id)
include hpoll hsession

theorem minds_proceed {access : Access} (events : List Event)
    (haccess : ∀ draft context, access = .own draft context → sessions context.session.id) :
    (proceed scope index poll floor member access events).2.Minds sessions B := by
  cases access with
  | own draft context =>
    have hown := haccess draft context rfl
    obtain ⟨-, htask⟩ := hpoll (scope.turn.below index) context floor.world hown
    simp only [proceed]
    split
    · refine ⟨htask, fun draft' context' events' hphase => ?_⟩
      obtain ⟨⟨rfl, rfl⟩, -⟩ : (draft = draft' ∧ _ = context') ∧ _ := by simpa using hphase
      exact hown
    · exact minds_succeed (by exact htask) _ _
    · exact minds_fail (by exact htask) _ _ _
  | shared instruction =>
    obtain ⟨-, htask⟩ := hpoll (scope.turn.below index)
      ((scope.context.withState floor.state).withInstruction instruction) floor.world hsession
    simp only [proceed]
    split
    · exact ⟨htask, fun _ _ _ hphase => by simp at hphase⟩
    · exact minds_succeed (by exact htask) _ _
    · exact minds_fail (by exact htask) _ _ _

variable (hchild : sessions (Context.childId scope.context.session.id index))
include hchild

theorem minds_start (h : B member.process) :
    (start scope index poll floor member).2.Minds sessions B := by
  unfold start
  split
  · simp only
    split
    · exact minds_fail h _ _ _
    · split
      · exact minds_fail h _ _ _
      · refine minds_proceed hpoll hsession _ fun _ _ haccess => ?_
        cases haccess
        exact hchild
  · split
    · exact minds_fail h _ _ _
    · exact minds_proceed hpoll hsession _ fun _ _ haccess => by cases haccess

/-- A visit leaves a member with such a task, in such a session. -/
theorem Visited.minds {after : Floor × Member σ} (h : member.Minds sessions B)
    (hvisited : Visited scope index poll floor member after) : after.2.Minds sessions B := by
  cases hvisited with
  | stays => exact h
  | waits => exact ⟨h.task, fun _ _ _ hphase => by cases hphase⟩
  | starts => exact minds_start hpoll hsession hchild h.task
  | proceeds access events _ hphase =>
    exact minds_proceed hpoll hsession events fun draft context haccess =>
      h.session draft context events (haccess ▸ hphase)

end Minds

section Conducts

variable (hcovers : licence.Covers scope.plan scope.context.session.id)
include hcovers

theorem recordFailure_conducts (floor : Floor) (draft : Draft) (message : String) :
    floor.Conducts licence scope.plan.name (recordFailure scope floor draft message) := by
  simp only [recordFailure]
  split
  next ledger hrecorded =>
    have hoperate := floor.conducts_operate hcovers (.recordFailure draft message)
    rw [Floor.ledger_stamp] at hrecorded
    rw [Ledger.apply_snd_of_ok (.recordFailure _ draft message) rfl hrecorded] at hoperate
    rw [← Floor.measure_nil (Floor.setLedger _ _)]
    exact hoperate
  next => exact floor.conducts_stamp.trans (Floor.conducts_notice _ _)

theorem fail_conducts (floor : Floor) (member : Member σ) (draft : Option Draft)
    (events : List Event) (error : TaskError) : floor.Conducts licence scope.plan.name
      (fail scope floor member draft events error).1 := by
  cases draft with
  | none => exact floor.conducts_notice _
  | some draft => exact (floor.conducts_notice _).trans (recordFailure_conducts hcovers _ _ _)

theorem succeed_conducts (floor : Floor) (member : Member σ) (draft : Option Draft)
    (events : List Event) : floor.Conducts licence scope.plan.name
      (succeed scope floor member draft events).1 := by
  cases draft with
  | none => exact .refl floor
  | some draft =>
    simp only [succeed]
    split
    next record execution ledger hfound hcommitted =>
      rw [Floor.ledger_stamp] at hfound hcommitted
      have hoperate := floor.conducts_operate hcovers (.commit draft (textOf events))
      rw [Ledger.apply_snd_of_ok (.commit _ draft (textOf events)) rfl hcommitted] at hoperate
      simp only [Ledger.measurementsOf, hfound, hcommitted] at hoperate
      exact hoperate
    next => exact floor.conducts_stamp.trans (fail_conducts hcovers _ _ _ _ _)
    next => exact floor.conducts_stamp.trans (fail_conducts hcovers _ _ _ _ _)

variable (hpoll : poll.Heeds licence sessions B) (hsession : sessions scope.context.session.id)
include hpoll hsession

theorem proceed_conducts (floor : Floor) (member : Member σ) {access : Access}
    (events : List Event)
    (haccess : ∀ draft context, access = .own draft context → sessions context.session.id) :
    floor.Conducts licence scope.plan.name
      (proceed scope index poll floor member access events).1 := by
  cases access with
  | own draft context =>
    have hworld := floor.conducts_withWorld scope.plan.name floor.state
      (hpoll (scope.turn.below index) context floor.world (haccess draft context rfl)).1
    simp only [proceed]
    split
    · exact hworld
    · exact hworld.trans (succeed_conducts hcovers _ _ _ _)
    · exact hworld.trans (fail_conducts hcovers _ _ _ _ _)
  | shared instruction =>
    have hworld := fun state => floor.conducts_withWorld scope.plan.name state
      (hpoll (scope.turn.below index)
        ((scope.context.withState floor.state).withInstruction instruction) floor.world hsession).1
    simp only [proceed]
    split
    · exact hworld _
    · exact (hworld _).trans (succeed_conducts hcovers _ _ _ _)
    · exact (hworld _).trans (fail_conducts hcovers _ _ _ _ _)

variable (hchild : sessions (Context.childId scope.context.session.id index))
include hchild

theorem start_conducts (floor : Floor) (member : Member σ) :
    floor.Conducts licence scope.plan.name (start scope index poll floor member).1 := by
  unfold start
  split
  · simp only
    split
    · exact floor.conducts_stamp.trans (fail_conducts hcovers _ _ _ _ _)
    · split
      · exact floor.conducts_stamp.trans (fail_conducts hcovers _ _ _ _ _)
      · refine floor.conducts_stamp.trans
          (proceed_conducts hcovers hpoll hsession _ _ _ fun _ _ haccess => ?_)
        cases haccess
        exact hchild
  · split
    · exact fail_conducts hcovers _ _ _ _ _
    · exact proceed_conducts hcovers hpoll hsession _ _ _ fun _ _ haccess => by cases haccess

omit hpoll hsession hchild in
variable (index) in
theorem freeSlot_conducts (after : Floor × Member σ) :
    after.1.Conducts licence scope.plan.name (freeSlot scope index after).1 := by
  unfold freeSlot
  split
  · exact Floor.conducts_measure hcovers _ _ _ (by simp [Measurement.workflow])
  · exact .refl _

/-- A visit stays within a licence that covers the run, if the task does. -/
theorem visitBy_conducts (floor : Floor) (h : member.Minds sessions B) :
    floor.Conducts licence scope.plan.name (visitBy scope index poll floor member).1 := by
  have hstarts := fun entered =>
    start_conducts hcovers hpoll hsession hchild entered member
  have hproceeds : ∀ access events, member.phase = .running access events →
      floor.Conducts licence scope.plan.name
        (proceed scope index poll floor member access events).1 :=
    fun access events hphase => proceed_conducts hcovers hpoll hsession floor member events
      fun draft context haccess => h.session draft context events (haccess ▸ hphase)
  have hgate := fun gate measurements => floor.conducts_measure hcovers gate measurements
  have hfrees := fun after : Floor × Member σ => freeSlot_conducts index hcovers after
  unfold visitBy
  split
  · unfold visit
    cases hphase : member.phase with
    | idle =>
      simp only
      split
      · exact (hgate _ _ (by simp [Measurement.workflow])).trans ((hstarts _).trans (hfrees _))
      · exact hgate _ _ (by simp [Measurement.workflow])
    | waiting =>
      simp only
      split
      · split
        · exact (hgate _ _ (by simp [Measurement.workflow])).trans ((hstarts _).trans (hfrees _))
        · exact .refl floor
      · exact .refl floor
    | running access events => exact (hproceeds access events hphase).trans (hfrees _)
    | settled => exact .refl floor
  · unfold visitInLine
    cases hphase : member.phase with
    | idle | waiting => exact (floor.conducts_notice _).trans (hstarts _)
    | running access events => exact hproceeds access events hphase
    | settled => exact .refl floor

end Conducts

end Member

/-! ## Runs -/

/-- Whether a run keeps its name in a ledger of its own, and its members mind. -/
structure Run.Minds (sessions : String → Prop) (B : σ → Prop) (run : Run σ) : Prop where
  own : ∀ gate own, run.stage = .open gate (some own) → own.Named fun _ held => held = run.plan.name
  members : ∀ member ∈ run.members, member.Minds sessions B

namespace Run

section Conducts

variable {licence : Licence} {sessions : String → Prop} {B : σ → Prop} {plan : Plan}
  {id : String} {floor : Floor}

theorem createRecord_conducts {context : Context} {opened : Floor}
    (hcovers : licence.Covers plan context.session.id)
    (h : createRecord plan context floor = .ok opened) :
    floor.Conducts licence plan.name opened := by
  unfold createRecord at h
  split at h
  · cases hcreate : floor.stamp.2.ledger.create floor.stamp.1 context.session.id
        context.session.user plan.name plan.namespace with
    | error error => simp only [hcreate, bind, Except.bind, reduceCtorEq] at h
    | ok created =>
      simp only [hcreate, bind, Except.bind, pure, Except.pure, Except.ok.injEq] at h
      have hoperate := floor.conducts_operate hcovers (.create context.session.user)
      rw [Floor.ledger_stamp] at hcreate
      rw [Ledger.apply_snd_of_ok (.create _ context.session.user plan.name plan.namespace) rfl
        hcreate] at hoperate
      rw [← h, ← Floor.measure_nil (Floor.setLedger _ _)]
      exact hoperate
  · cases h
    exact .refl floor

theorem settleRecord_conducts (hcovers : licence.Covers plan id) {verdict : Verdict}
    {record : Option Record} {after : Floor}
    (h : settleRecord id verdict floor = .ok (record, after)) :
    floor.Conducts licence plan.name after := by
  unfold settleRecord at h
  split at h
  · cases hsettle : floor.stamp.2.ledger.settle floor.stamp.1 id verdict with
    | error error => simp only [hsettle, bind, Except.bind, reduceCtorEq] at h
    | ok settled =>
      simp only [hsettle, bind, Except.bind, pure, Except.pure, Except.ok.injEq,
        Prod.mk.injEq] at h
      have hoperate := floor.conducts_operate hcovers (.settle verdict)
      rw [Floor.ledger_stamp] at hsettle
      rw [Ledger.apply_snd_of_ok (.settle _ verdict) rfl hsettle] at hoperate
      rw [← h.2, ← Floor.measure_nil (Floor.setLedger _ _)]
      exact hoperate
  · cases h
    exact .refl floor

theorem publish_conducts {name : String} (record : Option Record) (floor : Floor) :
    floor.Conducts licence name (publish record floor) := by
  cases record with
  | none => exact .refl floor
  | some record => exact fun hnamed => ⟨hnamed, .refl⟩

/-- The end of a run stays within a licence that covers it. -/
theorem conclude_conducts (hcovers : licence.Covers plan id) {order : Order}
    {members : List (Member σ)} {concluded : Except LedgerError Report × Floor}
    (h : conclude order id floor members = some concluded) :
    floor.Conducts licence plan.name concluded.2 := by
  cases concluded_of_conclude h with
  | parallel =>
    rw [concludeParallel]
    split
    · split
      · split
        next => exact .refl floor
        next hsettled =>
          exact (settleRecord_conducts hcovers hsettled).trans
            ((publish_conducts _ _).trans (Floor.conducts_notice _ _))
      · split
        next => exact .refl floor
        next hsettled =>
          exact (settleRecord_conducts hcovers hsettled).trans (Floor.conducts_notice _ _)
    · exact floor.conducts_notice _
  | stopped failure =>
    obtain ⟨index, definition, error⟩ := failure
    simp only [concludeStopped]
    split
    next => exact floor.conducts_notice _
    next hsettled => exact (floor.conducts_notice _).trans (settleRecord_conducts hcovers hsettled)
  | completed =>
    simp only [concludeCompleted]
    split
    next => exact .refl floor
    next hsettled =>
      exact (settleRecord_conducts hcovers hsettled).trans
        ((publish_conducts _ _).trans (Floor.conducts_notice _ _))

theorem putUpGate_conducts {run : Run σ} {context : Context} {opened : Floor}
    (hcovers : licence.Covers run.plan id) (h : run.putUpGate context floor = .ok opened) :
    floor.Conducts licence run.plan.name opened := by
  have hnotices : ∀ (places : List (Member σ × Nat)) (entered : Floor),
      entered.Conducts licence run.plan.name (places.foldl (fun floor place => floor.notice
        (Member.scopeNotice context.session.id place.2 place.1.definition)) entered) := by
    intro places
    induction places with
    | nil => exact fun entered => .refl entered
    | cons place rest ih => exact fun entered => (entered.conducts_notice _).trans (ih _)
  rw [putUpGate] at h
  split at h
  · cases h
    exact .refl floor
  next workers _ =>
    cases hgate : (Gate.new workers : Except PolicyError (Gate Nat)) with
    | error error => simp [hgate, bind, Except.bind] at h
    | ok gate =>
      simp only [hgate, bind, Except.bind, pure, Except.pure, Except.ok.injEq] at h
      subst h
      have hgate := floor.conducts_measure hcovers gate [.slots run.plan.name workers]
        (by simp [Measurement.workflow])
      exact hgate.trans (hnotices _ _)

/-- A run opens within a licence that covers it, or fails to. -/
theorem open_conducts {run : Run σ} {context : Context} (world : World)
    (hcovers : licence.Covers run.plan context.session.id) :
    match run.open context world with
    | .error refusal => world.Becomes licence refusal.2
    | .ok floor => floor.OwnNamed run.plan.name ∧ world.Becomes licence floor.world := by
  have hlobby : (run.lobby context world).OwnNamed run.plan.name := by
    intro own hown
    simp only [lobby] at hown
    split at hown
    · obtain rfl := Option.some.inj hown
      exact Ledger.named_empty _
    · cases hown
  have hnotice : world.Becomes licence (run.lobby context world).world :=
    World.Becomes.refl.notice _
  rw [Run.open]
  cases hcreate : createRecord run.plan context (run.lobby context world) with
  | error error => exact hnotice
  | ok recorded =>
    obtain ⟨hnamed, hbecomes⟩ := createRecord_conducts hcovers hcreate hlobby
    cases hopened : run.putUpGate context recorded with
    | error error =>
      simp only [hopened]
      exact hnotice.trans hbecomes
    | ok opened =>
      obtain ⟨hnamed', hbecomes'⟩ := putUpGate_conducts hcovers hopened hnamed
      simp only [hopened]
      exact ⟨hnamed', hnotice.trans (hbecomes.trans hbecomes')⟩

variable {behave : σ → Poll σ} {run : Run σ} {context : Context} {world : World}

/-- The visits of a stretch stay within a licence that covers the run. -/
theorem visits_conduct (turn : Turn) (hcovers : licence.Covers run.plan context.session.id)
    (hsession : sessions context.session.id)
    (hchild : ∀ index, sessions (Context.childId context.session.id index))
    (hbehave : ∀ member ∈ run.members, (behave member.process).Heeds licence sessions B)
    (hmembers : ∀ member ∈ run.members, member.Minds sessions B)
    (hentry : run.entry context world = some floor) (hnamed : floor.OwnNamed run.plan.name) :
    Arrives (fun after members => after.OwnNamed run.plan.name ∧
        floor.world.Becomes licence after.world ∧ ∀ member ∈ members, member.Minds sessions B)
      run.plan context.session.id (run.give behave turn context world) := by
  refine (give_induction (P := fun _ after members => after.OwnNamed run.plan.name ∧
    floor.world.Becomes licence after.world ∧ ∀ member ∈ members, member.Minds sessions B)
    hentry (fun visit hmem hP => ?_) ⟨hnamed, .refl, hmembers⟩).2
  obtain ⟨hnamed, hbecomes, hminds⟩ := hP
  obtain ⟨hscope, hafter, -⟩ := of_mem_visits hmem
  have hmember := hminds visit.member (List.mem_of_getElem? visit.getElem?_members)
  rw [visits_of_entry hentry] at hmem
  have hpoll := hbehave _ (Member.mem_of_mem_visits hmem)
  have hvisited : Member.Visited visit.scope visit.index (behave visit.member.process) visit.floor
      visit.member visit.after := hafter ▸ Member.visitBy_visited ..
  have hcovers' : licence.Covers visit.scope.plan visit.scope.context.session.id := by
    rwa [hscope]
  have hsession' : sessions visit.scope.context.session.id := by rwa [hscope]
  have hchild' : sessions (Context.childId visit.scope.context.session.id visit.index) := by
    rw [hscope]
    exact hchild _
  have hconducts : visit.floor.Conducts licence run.plan.name visit.after.1 := by
    have := Member.visitBy_conducts hcovers' hpoll hsession' hchild' visit.floor hmember
    rw [← hafter] at this
    simpa only [hscope] using this
  obtain ⟨hnamed', hbecomes'⟩ := hconducts hnamed
  refine ⟨hnamed', hbecomes.trans hbecomes', fun member hin => ?_⟩
  rw [visit.left_eq_set] at hin
  rcases List.mem_or_eq_of_mem_set hin with hold | rfl
  · exact hminds member hold
  · exact hvisited.minds hpoll hsession' hchild' hmember

/-- A stretch of a run stays within a licence that covers it, if its tasks do. -/
theorem give_conducts (turn : Turn) (world : World)
    (hcovers : licence.Covers run.plan context.session.id)
    (hsession : sessions context.session.id)
    (hchild : ∀ index, sessions (Context.childId context.session.id index))
    (hbehave : ∀ member ∈ run.members, (behave member.process).Heeds licence sessions B)
    (h : run.Minds sessions B) :
    world.Becomes licence (run.give behave turn context world).world ∧
      (run.give behave turn context world).run.Minds sessions B := by
  have harrives : ∀ floor, run.entry context world = some floor →
      floor.OwnNamed run.plan.name → world.Becomes licence floor.world →
      world.Becomes licence (run.give behave turn context world).world ∧
        (run.give behave turn context world).run.Minds sessions B := by
    intro floor hentry hnamed hbecomes
    rcases visits_conduct turn hcovers hsession hchild hbehave h.members hentry hnamed with
      ⟨after, members, ⟨hnamed', hbecomes', hminds⟩, -, hstep⟩ |
      ⟨after, closed, members, result, ⟨hnamed', hbecomes', hminds⟩, hconclude, hstep⟩
    · rw [hstep]
      refine ⟨hbecomes.trans hbecomes', fun gate own hstage => ?_, hminds⟩
      obtain ⟨-, hown⟩ : after.gate = gate ∧ after.own = some own := by simpa using hstage
      exact hnamed' own hown
    · rw [hstep]
      exact ⟨hbecomes.trans (hbecomes'.trans (conclude_conducts hcovers hconclude hnamed').2),
        ⟨fun _ _ hstage => (by cases hstage), hminds⟩⟩
  cases hstage : run.stage with
  | fresh =>
    have hopens := open_conducts world hcovers
    cases hopen : run.open context world with
    | error refusal =>
      rw [hopen] at hopens
      simp only [give, poll, hstage, hopen]
      exact ⟨hopens, ⟨fun _ _ hstage => (by cases hstage), h.members⟩⟩
    | ok floor =>
      rw [hopen] at hopens
      exact harrives floor (entry_of_open hstage hopen) hopens.1 hopens.2
  | «open» gate own =>
    exact harrives ⟨context.state, run.isKeyed, own, gate, world⟩ (by simp [entry, hstage])
      (fun ledger hown => h.own gate ledger (by rw [hstage]; exact congrArg _ hown)) .refl
  | closed =>
    simp only [give, poll, hstage]
    exact ⟨.refl, h⟩

end Conducts

end Run

end Coordination
