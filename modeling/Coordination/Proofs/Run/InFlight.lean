import Coordination.Proofs.Ledger.Running
import Coordination.Proofs.Run.Nesting

/-!
# The records of runs in flight

A run with output keys that uses the shared ledger has its record there, under the
id of the session in which it is carried out. While it is in flight, so is the
record running (`Process.inFlight`), and no stretch of a tree of tasks leaves a
record running whose run is not in flight any more (`Process.Orderly.tracks`).
-/

namespace Coordination

/-! ## Whose records are in flight -/

/-- The id of the session that a sub-task works on, in a run with this id. -/
def Access.sessionId (id : String) : Access → String
  | own _ context => context.session.id
  | shared _ => id

/-- The record that a run in flight has in the shared ledger, if it has one. -/
def Run.sharedRecord {σ : Type} (id : String) (run : Run σ) : List String :=
  match run.stage with
  | .open _ none => if run.isKeyed then [id] else []
  | _ => []

namespace Process

mutual

/-- The records that the runs in flight have in the shared ledger, if the task is
carried out in a session with this id. -/
def inFlight (id : String) : Process → List String
  | .leaf _ => []
  | .workflow ⟨plan, stage, members⟩ =>
    Run.sharedRecord id ⟨plan, stage, members⟩ ++ inFlightOf id members
  termination_by structural process => process

/-- The same for the members of a run that are under way. -/
def inFlightOf (id : String) : List (Member Process) → List String
  | [] => []
  | ⟨_, .running access _, process⟩ :: rest =>
    inFlight (access.sessionId id) process ++ inFlightOf id rest
  | _ :: rest => inFlightOf id rest
  termination_by structural members => members

end

/-- Whether a task has not begun. -/
def Unopened : Process → Prop
  | .leaf _ => True
  | .workflow run => run.stage = .fresh

end Process

/-- The records in flight below a member of a run with this id. -/
def Member.inFlight (id : String) (member : Member Process) : List String :=
  match member.phase with
  | .running access _ => member.process.inFlight (access.sessionId id)
  | _ => []

namespace Process

theorem inFlightOf_eq_flatMap (id : String) (members : List (Member Process)) :
    inFlightOf id members = members.flatMap (Member.inFlight id) := by
  induction members with
  | nil => rfl
  | cons member rest ih =>
    obtain ⟨definition, phase, process⟩ := member
    cases phase <;> simp [inFlightOf, Member.inFlight, ih]

theorem inFlight_workflow (id : String) (run : Run Process) :
    (Process.workflow run).inFlight id =
      run.sharedRecord id ++ run.members.flatMap (Member.inFlight id) := by
  rw [← inFlightOf_eq_flatMap]
  rfl

end Process

/-! ## What a tree of tasks keeps -/

/-- The members of a run in whatever order it has them: those that have not started have
tasks that have not begun, and in a sequential run those behind one that has not
succeeded have not started. -/
structure Run.Ordered (plan : Plan) (members : List (Member Process)) : Prop where
  workers : ∀ workers, plan.order = .parallel workers → checkWorkers workers = .ok ()
  unopened : ∀ member ∈ members, member.phase.hasStarted = false → member.process.Unopened
  inLine : plan.order = .sequential →
    members.Pairwise fun first second => second.phase.hasStarted → first.passes .sequential

/-- A tree of tasks under way whose bodies leave it to the runs to bring the record of an
id in, and to bring it to its end. -/
inductive Process.Orderly (id : String) : Process → Prop
  | leaf (body : Leaf) (habstains : body.body.Abstains id) : Orderly id (.leaf body)
  | workflow (run : Run Process) (hordered : Run.Ordered run.plan run.members)
      (hfresh : run.stage = .fresh → ∀ member ∈ run.members, member.phase = .idle)
      (hmembers : ∀ member ∈ run.members, Orderly id member.process) : Orderly id (.workflow run)

namespace Process

theorem Unopened.inFlight_eq {id : String} {process : Process} (h : process.Unopened)
    (horderly : process.Orderly id) (session : String) : process.inFlight session = [] := by
  cases horderly with
  | leaf => rfl
  | workflow run _ hfresh _ =>
    have hstage : run.stage = .fresh := h
    rw [inFlight_workflow, Run.sharedRecord, hstage, List.nil_append, List.flatMap_eq_nil_iff]
    intro member hmem
    rw [Member.inFlight, hfresh hstage member hmem]

/-- What a task does to a record that is running, and to the runs in flight, in any
stretch: there are as many others as before, and none of its runs is left in flight
at its end. -/
structure Tracks (id : String) (process : Process) (turn : Turn) (context : Context)
    (world : World) : Prop where
  orderly : (process.poll turn context world).process.Orderly id
  ended : (process.poll turn context world).outcome ≠ .pending →
    (process.poll turn context world).process.inFlight context.session.id = []
  running : ∀ others, (world.ledger.isRunning id).toNat =
      (process.inFlight context.session.id).count id + others →
    ((process.poll turn context world).world.ledger.isRunning id).toNat =
      ((process.poll turn context world).process.inFlight context.session.id).count id + others

theorem tracks_leaf {id : String} {body : Leaf} (h : body.body.Abstains id) (turn : Turn)
    (context : Context) (world : World) : Tracks id (.leaf body) turn context world := by
  obtain ⟨hkept, hrunning⟩ := Leaf.poll_abstains h turn context world
  refine ⟨.leaf _ hkept, fun _ => rfl, fun others hcount => ?_⟩
  exact (congrArg Bool.toNat hrunning).trans hcount

end Process

/-! ## Floors -/

/-- What is done around the stretch of a member: nothing about whether the record of an
id is running in the shared ledger. -/
structure Floor.Upholds (id : String) (before after : Floor) : Prop where
  keyed : after.keyed = before.keyed
  own : after.own.isSome = before.own.isSome
  running : after.world.ledger.isRunning id = before.world.ledger.isRunning id

namespace Floor

variable {id : String}

theorem Upholds.refl (floor : Floor) : floor.Upholds id floor := ⟨rfl, rfl, rfl⟩

theorem Upholds.trans {a b c : Floor} (h : a.Upholds id b) (h' : b.Upholds id c) :
    a.Upholds id c :=
  ⟨h'.keyed.trans h.keyed, h'.own.trans h.own, h'.running.trans h.running⟩

theorem upholds_setLedger (floor : Floor) {ledger : Ledger}
    (h : ledger.isRunning id = floor.ledger.isRunning id) :
    floor.Upholds id (floor.setLedger ledger) := by
  refine ⟨(floor.kept_setLedger ledger).keyed, (floor.kept_setLedger ledger).own, ?_⟩
  cases hown : floor.own with
  | none => simpa [setLedger, Floor.ledger, hown] using h
  | some own => simp [setLedger, hown]

end Floor

namespace Member

variable (id : String) (scope : Scope) (index : Nat) (floor : Floor) (member : Member Process)

theorem recordFailure_upholds (draft : Draft) (message : String) :
    floor.Upholds id (recordFailure scope floor draft message) := by
  have hstamp : floor.Upholds id floor.stamp.2 := ⟨rfl, rfl, rfl⟩
  simp only [recordFailure]
  split
  next hrecorded =>
    have hafter := Ledger.apply_snd_of_ok (.recordFailure _ draft message) rfl hrecorded
    refine hstamp.trans (Floor.upholds_setLedger _ (hafter ▸ Ledger.isRunning_apply ?_ ..))
    exact not_false
  next => exact hstamp.trans ⟨rfl, rfl, rfl⟩

theorem fail_upholds (draft : Option Draft) (events : List Event) (error : TaskError) :
    floor.Upholds id (fail scope floor member draft events error).1 := by
  have hnotice : floor.Upholds id (floor.notice (.subTaskFailed error.message)) := ⟨rfl, rfl, rfl⟩
  cases draft with
  | none => exact hnotice
  | some draft => exact hnotice.trans (recordFailure_upholds ..)

theorem succeed_upholds (draft : Option Draft) (events : List Event) :
    floor.Upholds id (succeed scope floor member draft events).1 := by
  have hstamp : floor.Upholds id floor.stamp.2 := ⟨rfl, rfl, rfl⟩
  unfold succeed
  cases draft with
  | none => exact .refl floor
  | some draft =>
    simp only
    split
    next ledger _ hcommitted =>
      have hafter := Ledger.apply_snd_of_ok (.commit _ draft (textOf events)) rfl hcommitted
      have hledger : floor.stamp.2.Upholds id (floor.stamp.2.setLedger ledger) := by
        refine floor.stamp.2.upholds_setLedger (hafter ▸ Ledger.isRunning_apply ?_ ..)
        exact not_false
      exact hstamp.trans (hledger.trans ⟨rfl, rfl, rfl⟩)
    next => exact hstamp.trans (fail_upholds ..)
    next => exact hstamp.trans (fail_upholds ..)

/-! ## Visits -/

/-- What a visit does to a record that is running in the shared ledger, and to the runs
in flight below the visited member. -/
structure Tracked (session : String) (floor : Floor) (member : Member Process)
    (after : Floor × Member Process) : Prop where
  keyed : after.1.keyed = floor.keyed
  own : after.1.own.isSome = floor.own.isSome
  orderly : after.2.process.Orderly id
  running : ∀ others, (floor.world.ledger.isRunning id).toNat =
      (member.inFlight session).count id + others →
    (after.1.world.ledger.isRunning id).toNat = (after.2.inFlight session).count id + others

variable {id scope index floor member}

theorem inFlight_of_settled {session : String} (h : member.phase.settlement?.isSome) :
    member.inFlight session = [] := by
  unfold inFlight
  split
  next hphase => simp [hphase, Phase.settlement?] at h
  next => rfl

theorem inFlight_of_unstarted {session : String} (h : member.phase.hasStarted = false) :
    member.inFlight session = [] := by
  unfold inFlight
  split
  next hphase => simp [hphase, Phase.hasStarted] at h
  next => rfl

/-- What is done before and after a visit is of no account. -/
theorem Tracked.upheld {session : String} {entered : Floor} {after : Floor × Member Process}
    {left : Floor} (h : Tracked id session entered member after)
    (hentered : floor.Upholds id entered) (hleft : after.1.Upholds id left) :
    Tracked id session floor member (left, after.2) where
  keyed := hleft.keyed.trans (h.keyed.trans hentered.keyed)
  own := hleft.own.trans (h.own.trans hentered.own)
  orderly := h.orderly
  running := by
    intro others hcount
    rw [← hentered.running] at hcount
    rw [hleft.running]
    exact h.running others hcount

/-- A member that settles has nothing in flight any more. -/
theorem Tracked.settled {session : String} {polled : Floor} {after : Floor × Member Process}
    (hupholds : polled.Upholds id after.1) (hkeyed : polled.keyed = floor.keyed)
    (hown : polled.own.isSome = floor.own.isSome) (horderly : after.2.process.Orderly id)
    (hsettled : after.2.phase.settlement?.isSome)
    (hrunning : ∀ others, (floor.world.ledger.isRunning id).toNat =
        (member.inFlight session).count id + others →
      (polled.world.ledger.isRunning id).toNat = others) :
    Tracked id session floor member after where
  keyed := hupholds.keyed.trans hkeyed
  own := hupholds.own.trans hown
  orderly := horderly
  running := by
    intro others hcount
    rw [inFlight_of_settled hsettled, hupholds.running, hrunning others hcount]
    simp

section Visits

variable (htracks : ∀ turn context world, member.process.Tracks id turn context world)
include htracks

/-- What is made of a stretch of the task, given in a session with the id that counts: the
member goes on, succeeds or fails. -/
theorem polled_tracked (floor : Floor) {access : Access}
    (hbefore : member.inFlight scope.context.session.id =
      member.process.inFlight (access.sessionId scope.context.session.id))
    {context : Context} (hsession : context.session.id = access.sessionId scope.context.session.id)
    (state : KeyMap String) :
    let advance := member.process.poll (scope.turn.below index) context floor.world
    let polled : Floor := { floor with state, world := advance.world }
    let later : Member Process := { member with process := advance.process }
    (∀ (access' : Access) events,
      access'.sessionId scope.context.session.id = access.sessionId scope.context.session.id →
      Tracked id scope.context.session.id floor member
        (polled, { later with phase := .running access' events })) ∧
    (advance.outcome ≠ .pending → ∀ draft events,
      Tracked id scope.context.session.id floor member (succeed scope polled later draft events) ∧
      ∀ error, Tracked id scope.context.session.id floor member
        (fail scope polled later draft events error)) := by
  intro advance polled later
  obtain ⟨horderly, hended, hrunning⟩ := htracks (scope.turn.below index) context floor.world
  rw [hsession] at hended hrunning
  rw [← hbefore] at hrunning
  refine ⟨fun access' events hsame => ⟨rfl, rfl, horderly, fun others hcount => ?_⟩,
    fun hdone draft events => ⟨?_, fun error => ?_⟩⟩
  · rw [show inFlight scope.context.session.id { later with phase := .running access' events } =
      advance.process.inFlight (access'.sessionId scope.context.session.id) from rfl, hsame]
    exact hrunning others hcount
  · refine .settled (succeed_upholds id scope polled later draft events) rfl rfl ?_
      (settled_succeed ..) fun others hcount => ?_
    · rw [process_succeed]
      exact horderly
    · simpa [hended hdone] using hrunning others hcount
  · refine .settled (fail_upholds id scope polled later draft events error) rfl rfl ?_
      (settled_fail ..) fun others hcount => ?_
    · rw [process_fail]
      exact horderly
    · simpa [hended hdone] using hrunning others hcount

/-- A stretch of a member that is under way, in a session of its own or not. -/
theorem proceed_tracked (access : Access) (events : List Event)
    (hbefore : member.inFlight scope.context.session.id =
      member.process.inFlight (access.sessionId scope.context.session.id)) :
    Tracked id scope.context.session.id floor member
      (proceed scope index member.process.poll floor member access events) := by
  cases access with
  | own draft context =>
    obtain ⟨hgoesOn, hends⟩ := polled_tracked htracks floor hbefore
      (show context.session.id = _ from rfl) floor.state
    simp only [proceed]
    split
    next => exact hgoesOn _ _ rfl
    next hended => exact (hends (by rw [hended]; simp) _ _).1
    next hfailed => exact (hends (by rw [hfailed]; simp) _ _).2 _
  | shared instruction =>
    let context := (scope.context.withState floor.state).withInstruction instruction
    obtain ⟨hgoesOn, hends⟩ := polled_tracked htracks floor hbefore
      (show context.session.id = _ from rfl)
      (member.process.poll (scope.turn.below index) context floor.world).state
    simp only [proceed]
    split
    next => exact hgoesOn _ _ rfl
    next hended => exact (hends (by rw [hended]; simp) _ _).1
    next hfailed => exact (hends (by rw [hfailed]; simp) _ _).2 _

/-- The start of a member with its first stretch. -/
theorem start_tracked (horderly : member.process.Orderly id)
    (hunopened : member.process.Unopened) (hunstarted : member.phase.hasStarted = false) :
    Tracked id scope.context.session.id floor member
      (start scope index member.process.poll floor member) := by
  have hnone : ∀ session, member.inFlight session = [] :=
    fun session => inFlight_of_unstarted hunstarted
  have hbefore : ∀ access : Access, member.inFlight scope.context.session.id =
      member.process.inFlight (access.sessionId scope.context.session.id) := by
    intro access
    rw [hnone, hunopened.inFlight_eq horderly]
  have hfails : ∀ (entered : Floor) draft error, floor.Upholds id entered →
      Tracked id scope.context.session.id floor member
        (fail scope entered member draft [] error) := by
    intro entered draft error hentered
    refine .settled (fail_upholds id scope entered member draft [] error) hentered.keyed
      hentered.own horderly (settled_fail ..) fun others hcount => ?_
    simpa [hentered.running, hnone] using hcount
  have hproceeds : ∀ (entered : Floor) access, floor.Upholds id entered →
      Tracked id scope.context.session.id floor member
        (proceed scope index member.process.poll entered member access []) :=
    fun entered access hentered =>
      (proceed_tracked htracks access [] (hbefore access)).upheld hentered (.refl _)
  have hstamp : floor.Upholds id floor.stamp.2 := ⟨rfl, rfl, rfl⟩
  unfold start
  split
  · simp only
    split
    · exact hfails _ _ _ hstamp
    · split
      · exact hfails _ _ _ hstamp
      · exact hproceeds _ _ hstamp
  · split
    · exact hfails _ _ _ (.refl floor)
    · exact hproceeds _ _ (.refl floor)

/-- A visit, in either order. -/
theorem visitBy_tracked (horderly : member.process.Orderly id)
    (hunopened : member.phase.hasStarted = false → member.process.Unopened) :
    Tracked id scope.context.session.id floor member
      (visitBy scope index member.process.poll floor member) := by
  have hfreed : ∀ {entered : Floor} {after : Floor × Member Process},
      Tracked id scope.context.session.id entered member after → floor.Upholds id entered →
      Tracked id scope.context.session.id floor member (freeSlot scope index after) := by
    intro entered after htracked hentered
    have hleft : after.1.Upholds id (freeSlot scope index after).1 := by
      unfold freeSlot
      split
      · exact ⟨rfl, rfl, rfl⟩
      · exact .refl _
    have := htracked.upheld hentered hleft
    rwa [← snd_freeSlot scope index after] at this
  have hstays : Tracked id scope.context.session.id floor member (floor, member) :=
    ⟨rfl, rfl, horderly, fun _ hcount => hcount⟩
  have hproceeds : ∀ access events, member.phase = .running access events →
      Tracked id scope.context.session.id floor member
        (proceed scope index member.process.poll floor member access events) :=
    fun access events hphase => proceed_tracked htracks access events (by rw [inFlight, hphase])
  unfold visitBy
  split
  · have hvisit := visit_atGate scope index member.process.poll floor member
    generalize visit scope index member.process.poll floor member = after at hvisit ⊢
    cases hvisit with
    | stays => exact hstays
    | waits gate measurements hphase =>
      refine ⟨rfl, rfl, horderly, fun others hcount => ?_⟩
      rw [inFlight_of_unstarted (by rw [hphase]; rfl)] at hcount
      exact hcount
    | starts gate measurements hphase hgate =>
      have hunstarted : member.phase.hasStarted = false := by
        rcases hphase with hphase | hphase <;> rw [hphase] <;> rfl
      exact hfreed (start_tracked htracks horderly (hunopened hunstarted) hunstarted)
        ⟨rfl, rfl, rfl⟩
    | proceeds access events hphase => exact hfreed (hproceeds access events hphase) (.refl floor)
  · have hstarts : ∀ notice, member.phase.hasStarted = false →
        Tracked id scope.context.session.id floor member
          (start scope index member.process.poll (floor.notice notice) member) := by
      intro notice hunstarted
      have hnotice : floor.Upholds id (floor.notice notice) := ⟨rfl, rfl, rfl⟩
      exact (start_tracked htracks horderly (hunopened hunstarted) hunstarted).upheld hnotice
        (.refl _)
    unfold visitInLine
    cases hphase : member.phase with
    | idle | waiting => exact hstarts _ (by rw [hphase]; rfl)
    | running access events => exact hproceeds access events hphase
    | settled settlement => exact hstays

end Visits

theorem mem_of_mem_visits {σ : Type} {behave : σ → Poll σ} {scope : Scope}
    {front : List (Member σ)} {floor : Floor} {rest : List (Member σ)} {visit : Visit σ}
    (h : visit ∈ visits behave scope front floor rest) : visit.member ∈ rest := by
  induction rest generalizing front floor with
  | nil => cases h
  | cons member rest ih =>
    rcases List.mem_cons.1 h with rfl | hrest
    · exact List.mem_cons_self
    · split at hrest
      · exact List.mem_cons_of_mem _ (ih hrest)
      · cases hrest

/-- Who has not started after a visit has not begun its task in it. -/
theorem Visited.unstarted {σ : Type} {scope : Scope} {index : Nat} {poll : Poll σ} {floor : Floor}
    {member : Member σ} {after : Floor × Member σ} (h : Visited scope index poll floor member after)
    (hunstarted : after.2.phase.hasStarted = false) :
    member.phase.hasStarted = false ∧ after.2.process = member.process := by
  cases h with
  | stays => exact ⟨hunstarted, rfl⟩
  | waits left hphase => exact ⟨by rw [hphase]; rfl, rfl⟩
  | starts => simp [(start_started ..).2] at hunstarted
  | proceeds => simp [(proceed_started ..).2] at hunstarted

/-- Who has succeeded is not visited any more. -/
theorem Visited.passes {σ : Type} {scope : Scope} {index : Nat} {poll : Poll σ} {floor : Floor}
    {member : Member σ} {after : Floor × Member σ} (h : Visited scope index poll floor member after)
    (hpasses : member.passes .sequential) : after.2.passes .sequential := by
  cases h with
  | stays => exact hpasses
  | waits left hphase => simp [Member.passes, hphase, Phase.settlement?] at hpasses
  | starts _ _ hphase =>
    rcases hphase with hphase | hphase <;>
      simp [Member.passes, hphase, Phase.settlement?] at hpasses
  | proceeds _ _ _ hphase => simp [Member.passes, hphase, Phase.settlement?] at hpasses

end Member

end Coordination
