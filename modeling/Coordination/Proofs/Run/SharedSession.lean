import Coordination.Proofs.Run.Expiry
import Coordination.Proofs.Run.Progress
import Coordination.Proofs.Run.Pursuit

/-!
# Members that share the session of their run

In a run without output keys all members work in the session of the run. The run itself
writes nothing there, and nothing into a ledger: from its opening to its end, what happens
to the values of the session and to the shared ledger is what the tasks of the members do,
one after another (`Run.History.inCommon`). A member starts when it has been let in, and its
template is filled in from the values that are there then (`Member.Enters`).

* `Member.Visited.shares`: what a visit does there;
* `Run.give_shared`: so the visits of a stretch are all that happens in it;
* `Run.shared_fan_out`: what such a run comes to side by side, at its end or at its deadline.
-/

namespace Coordination

variable {σ : Type}

/-- Steps that follow one another with nothing in between: the first finds `found`, each
further one what the one before has left, and the last one leaves `left`. -/
inductive Unbroken {α : Type} : α → List (α × α) → α → Prop
  | nil (value : α) : Unbroken value [] value
  | cons (found : α) {between left : α} {steps : List (α × α)}
      (h : Unbroken between steps left) : Unbroken found ((found, between) :: steps) left

namespace Unbroken

variable {α β : Type}

theorem append {found between left : α} {steps later : List (α × α)}
    (h : Unbroken found steps between) (hlater : Unbroken between later left) :
    Unbroken found (steps ++ later) left := by
  induction h with
  | nil => exact hlater
  | cons found _ ih => exact .cons found (ih hlater)

theorem single (found left : α) : Unbroken found [(found, left)] left := .cons found (.nil left)

/-- If each step leaves what `act` makes of what it finds, all of them together do. -/
theorem eq_foldl {found left : α} {items : List β} {ends : β → α × α}
    (h : Unbroken found (items.map ends) left) (act : α → β → α)
    (hact : ∀ item ∈ items, (ends item).2 = act (ends item).1 item) :
    left = items.foldl act found := by
  induction items generalizing found with
  | nil =>
    cases h
    rfl
  | cons item items ih =>
    rw [List.forall_mem_cons] at hact
    obtain ⟨hitem, hrest⟩ := hact
    rw [List.map_cons] at h
    generalize ends item = step at h hitem
    cases h with
    | cons _ h =>
      rw [List.foldl_cons, ← hitem]
      exact ih h hrest

end Unbroken

/-! ## What tasks write -/

/-- The values with these written over them, in their order. -/
def KeyMap.write (values : KeyMap String) (writes : List (String × String)) : KeyMap String :=
  writes.foldl (fun values write => values.insert write.1 write.2) values

/-- Whether these are all the writes of tasks into their sessions, in their order. -/
def WritesOnly (behave : σ → Poll σ)
    (writes : σ → Turn → Context → World → List (String × String)) : Prop :=
  ∀ task turn context world,
    (behave task turn context world).state = context.state.write (writes task turn context world)

/-- What a body writes up to where it waits or ends. -/
def Body.writes (context : Context) (world : World) : Body → List (String × String)
  | .finish => []
  | .fail _ _ => []
  | .emit _ rest => writes context world rest
  | .pause _ _ => []
  | .look next => writes context world (next context)
  | .write key value rest => (key, value) :: writes (context.set key value) world rest
  | .note task text rest => writes context (world.note context.session.id task text) rest
  | .operate op next => writes context (world.operate op).2 (next (world.operate op).1)

/-- What a body writes in a stretch. -/
def Leaf.writes (leaf : Leaf) (turn : Turn) (context : Context) (world : World) :
    List (String × String) :=
  match leaf.due with
  | none => leaf.body.writes context world
  | some due => if turn.resumes [] due then leaf.body.writes context world else []

theorem Body.state_advance (context : Context) (world : World) (events : List Event)
    (body : Body) : (body.advance context world events).state =
      context.state.write (body.writes context world) := by
  induction body generalizing context world events with
  | finish | fail | pause => rfl
  | emit event rest ih => exact ih context world _
  | look next ih => exact ih context context world events
  | write key value rest ih => exact ih (context.set key value) world events
  | note task text rest ih => exact ih context _ events
  | operate op next ih => exact ih _ context _ events

theorem Leaf.writesOnly : WritesOnly Leaf.poll Leaf.writes := by
  intro leaf turn context world
  obtain ⟨body, due⟩ := leaf
  cases due with
  | none => exact body.state_advance context world []
  | some due =>
    simp only [Leaf.poll, Leaf.writes]
    split
    · exact body.state_advance context world []
    · rfl

/-! ## Visits -/

theorem Floor.Around.shared {before after : Floor} (h : before.Around after)
    (hown : before.own = none) :
    after.own = none ∧ after.world.ledger = before.world.ledger := by
  have hnone : after.own = none := h.own_eq.trans hown
  have hledger := h.ledger
  rw [Floor.ledger, Floor.ledger, hnone, hown] at hledger
  exact ⟨hnone, hledger⟩

namespace Member

/-- What a visit does to the values of a session and to the shared ledger, if its member works
there: nothing, or the member's task is given a stretch that finds both as they are, and
both are left as the stretch has left them. -/
inductive Shares (behave : σ → Poll σ) (floor : Floor) (member : Member (Traced σ))
    (after : Floor × Member (Traced σ)) : List (Exchange σ) → Prop
  | rests (hown : after.1.own = none) (hprocess : after.2.process = member.process)
      (hstate : after.1.state = floor.state)
      (hledger : after.1.world.ledger = floor.world.ledger) :
    Shares behave floor member after []
  | works (exchange : Exchange σ) (hown : after.1.own = none)
      (hprocess : after.2.process = ⟨exchange.advance.process, member.process.past ++ [exchange]⟩)
      (hadvance : exchange.advance =
        behave member.process.task exchange.turn exchange.context exchange.world)
      (hfound : exchange.context.state = floor.state ∧
        exchange.world.ledger = floor.world.ledger)
      (hleft : after.1.state = exchange.advance.state ∧
        after.1.world.ledger = exchange.advance.world.ledger) :
    Shares behave floor member after [exchange]

/-- How a member starts that has been let in. Its template is filled in from the values that
are in the session then; if that is not possible it fails at once, and else its task is given
its first stretch, with the instruction. -/
inductive Enters (scope : Scope) (floor : Floor) (member : Member (Traced σ))
    (after : Floor × Member (Traced σ)) : List (Exchange σ) → Prop
  | barred (error : TaskError) (hexpand : expand member.definition floor.state = .error error)
      (hphase : after.2.phase =
        .settled (.of scope.plan.name member.definition [] (some error))) :
    Enters scope floor member after []
  | begun (instruction : Option String) (exchange : Exchange σ)
      (hexpand : expand member.definition floor.state = .ok instruction)
      (hcontext : exchange.context =
        (scope.context.withState floor.state).withInstruction instruction) :
    Enters scope floor member after [exchange]

section Shares

variable {behave : σ → Poll σ} {scope : Scope} {index : Nat} {floor : Floor}
  {member : Member (Traced σ)} {after : Floor × Member (Traced σ)} {exchanges : List (Exchange σ)}

theorem Shares.own_eq_none (h : Shares behave floor member after exchanges) :
    after.1.own = none := by
  cases h <;> assumption

theorem Shares.past (h : Shares behave floor member after exchanges) :
    after.2.process.past = member.process.past ++ exchanges := by
  cases h with
  | rests _ hprocess => rw [hprocess, List.append_nil]
  | works _ _ hprocess => rw [hprocess]

theorem Shares.around {entered left : Floor} (h : Shares behave entered member after exchanges)
    (hown : floor.own = none) (hentered : floor.Around entered) (hleft : after.1.Around left) :
    Shares behave floor member (left, after.2) exchanges := by
  obtain ⟨-, hfoundLedger⟩ := hentered.shared hown
  obtain ⟨hnone, hleftLedger⟩ := hleft.shared h.own_eq_none
  cases h with
  | rests _ hprocess hstate hledger =>
    exact .rests hnone hprocess (hleft.state.trans (hstate.trans hentered.state))
      (hleftLedger.trans (hledger.trans hfoundLedger))
  | works exchange _ hprocess hadvance hfound hstretch =>
    exact .works exchange hnone hprocess hadvance
      ⟨hfound.1.trans hentered.state, hfound.2.trans hfoundLedger⟩
      ⟨hleft.state.trans hstretch.1, hleftLedger.trans hstretch.2⟩

theorem Enters.around {entered left : Floor} (h : Enters scope entered member after exchanges)
    (hentered : floor.Around entered) : Enters scope floor member (left, after.2) exchanges := by
  cases h with
  | barred error hexpand hphase =>
    rw [hentered.state] at hexpand
    exact .barred error hexpand hphase
  | begun instruction exchange hexpand hcontext =>
    rw [hentered.state] at hexpand hcontext
    exact .begun instruction exchange hexpand hcontext

variable (behave scope index floor member)

theorem proceed_shares (hown : floor.own = none) (instruction : Option String)
    (events : List Event) :
    ∃ exchange : Exchange σ, exchange.context =
        (scope.context.withState floor.state).withInstruction instruction ∧
      Shares behave floor member (proceed scope index (Traced.poll behave member.process) floor
        member (.shared instruction) events) [exchange] := by
  let context := (scope.context.withState floor.state).withInstruction instruction
  refine ⟨⟨scope.turn.below index, context, floor.world,
    behave member.process.task (scope.turn.below index) context floor.world⟩, rfl, ?_⟩
  refine .works _ ?_ ?_ rfl ⟨rfl, rfl⟩ ?_
  · simp only [proceed]
    split <;> exact hown
  · rw [process_proceed]
    rfl
  · simp only [proceed]
    split <;> exact ⟨rfl, rfl⟩

theorem start_shares (hkeyed : floor.keyed = false) (hown : floor.own = none) :
    ∃ exchanges, Shares behave floor member
        (start scope index (Traced.poll behave member.process) floor member) exchanges ∧
      Enters scope floor member
        (start scope index (Traced.poll behave member.process) floor member) exchanges := by
  simp only [start, hkeyed, Bool.false_eq_true, if_false]
  split
  next error hexpand => exact ⟨[], .rests hown rfl rfl rfl, .barred error hexpand rfl⟩
  next instruction hexpand =>
    obtain ⟨exchange, hcontext, hshares⟩ :=
      proceed_shares behave scope index floor member hown instruction []
    exact ⟨[exchange], hshares, .begun instruction exchange hexpand hcontext⟩

variable {behave scope index floor member}

/-- A visit to a member that works in the session of its run does nothing there, or its task
does; and so does a member that starts. -/
theorem Visited.shares
    (h : Visited scope index (Traced.poll behave member.process) floor member after)
    (hkeyed : floor.keyed = false) (hown : floor.own = none)
    (hshared : ∀ access events, member.phase = .running access events →
      ∃ instruction, access = .shared instruction) :
    ∃ exchanges, Shares behave floor member after exchanges ∧
      (member.phase.hasStarted = false → after.2.phase.hasStarted →
        Enters scope floor member after exchanges) := by
  cases h with
  | stays =>
    exact ⟨[], .rests hown rfl rfl rfl, fun hfresh hstarted => by simp [hfresh] at hstarted⟩
  | waits left _ hleft =>
    obtain ⟨hnone, hledger⟩ := hleft.shared hown
    exact ⟨[], .rests hnone rfl hleft.state hledger, fun _ hstarted => by cases hstarted⟩
  | starts entered left _ hentered hleft =>
    obtain ⟨exchanges, hshares, henters⟩ := start_shares behave scope index entered member
      (hentered.keyed.trans hkeyed) (hentered.shared hown).1
    exact ⟨exchanges, hshares.around hown hentered hleft, fun _ _ => henters.around hentered⟩
  | proceeds access events left hphase hleft =>
    obtain ⟨instruction, rfl⟩ := hshared access events hphase
    obtain ⟨exchange, -, hshares⟩ :=
      proceed_shares behave scope index floor member hown instruction events
    exact ⟨[exchange], hshares.around hown (.refl floor) hleft,
      fun hfresh => by simp [hphase, Phase.hasStarted] at hfresh⟩

end Shares

end Member

namespace Visit

/-- The values of the run's session as a visit finds and leaves them. -/
def values (visit : Visit σ) : KeyMap String × KeyMap String :=
  (visit.floor.state, visit.after.1.state)

/-- The shared ledger as a visit finds and leaves it. -/
def ledgers (visit : Visit σ) : Ledger × Ledger :=
  (visit.floor.world.ledger, visit.after.1.world.ledger)

/-- What the visited member's task writes in a visit. -/
def writes (writes : σ → Turn → Context → World → List (String × String))
    (visit : Visit (Traced σ)) : List (String × String) :=
  visit.exchanges.flatMap fun exchange =>
    writes visit.member.process.task exchange.turn exchange.context exchange.world

theorem state_of_shares {behave : σ → Poll σ}
    {writes : σ → Turn → Context → World → List (String × String)} {visit : Visit (Traced σ)}
    (hwrites : WritesOnly behave writes)
    (h : Member.Shares behave visit.floor visit.member visit.after visit.exchanges) :
    visit.after.1.state = visit.floor.state.write (visit.writes writes) := by
  rw [Visit.writes]
  generalize visit.exchanges = exchanges at h
  cases h with
  | rests _ _ hstate => exact hstate
  | works exchange _ _ hadvance hfound hleft =>
    rw [hleft.1, hadvance, hwrites, hfound.1, List.flatMap_singleton]

end Visit

/-! ## Stretches -/

namespace Run

section Stretch

/-- Without output keys, opening a run leaves the values of its session and the ledgers as they
are, and it has no ledger of its own. -/
theorem open_unkeyed {run : Run σ} {context : Context} {world : World} {floor : Floor}
    (hkeyed : run.isKeyed = false) (h : run.open context world = .ok floor) :
    floor.keyed = false ∧ floor.own = none ∧ floor.state = context.state ∧
      floor.world.ledger = world.ledger := by
  obtain ⟨recorded, hrecorded, hopened⟩ := open_eq_ok h
  obtain ⟨hkept, hledger, -⟩ := putUpGate_eq_ok hopened
  obtain rfl : run.lobby context world = recorded := by
    simpa [createRecord, lobby, hkeyed] using hrecorded
  have hlobby : (run.lobby context world).own = none := by simp [lobby, hkeyed]
  obtain ⟨hown, hsame⟩ := Floor.Around.shared ⟨hkept, hledger⟩ hlobby
  exact ⟨hkept.keyed.trans hkeyed, hown, hkept.state, hsame⟩

variable {behave : σ → Poll σ} {run : Run (Traced σ)} (turn : Turn) {context : Context}
  {world : World} {entered : Floor}

/-- Without output keys, the visits of a stretch are all that happens in it to the values of
the session and to the shared ledger. -/
theorem give_shared (hentry : run.entry context world = some entered)
    (hkeyed : entered.keyed = false) (hown : entered.own = none)
    (hvisits : ∀ visit ∈ run.visits (Traced.poll behave) turn context world,
      visit.after.1.keyed = false ∧ visit.after.1.own = none) :
    let step := run.give (Traced.poll behave) turn context world
    let visits := run.visits (Traced.poll behave) turn context world
    Unbroken entered.state (visits.map Visit.values) step.state ∧
      Unbroken entered.world.ledger (visits.map Visit.ledgers) step.world.ledger := by
  intro step visits
  obtain ⟨-, harrives⟩ := give_account
    (P := fun before _ floor _ => floor.keyed = false ∧ floor.own = none ∧
      Unbroken entered.state (before.map Visit.values) floor.state ∧
      Unbroken entered.world.ledger (before.map Visit.ledgers) floor.world.ledger) [] hentry
    (fun visit hmem before hP => by
      obtain ⟨-, -, hvalues, hledgers⟩ := hP
      obtain ⟨hshared, hnone⟩ := hvisits visit hmem
      rw [List.map_append, List.map_append]
      exact ⟨hshared, hnone, hvalues.append (.single _ _), hledgers.append (.single _ _)⟩)
    ⟨hkeyed, hown, .nil _, .nil _⟩
  rcases harrives with ⟨floor, members, ⟨-, hnone, hvalues, hledgers⟩, -, hstep⟩ |
    ⟨floor, after, members, result, ⟨hshared, hnone, hvalues, hledgers⟩, hconclude, hstep⟩
  · rw [show step = _ from hstep]
    exact ⟨hvalues, hledgers⟩
  · have haround := around_conclude_shared hshared hconclude
    rw [show step = _ from hstep, haround.state, (haround.shared hnone).2]
    exact ⟨hvalues, hledgers⟩

end Stretch

/-! ## Histories -/

section Histories

variable {behave : σ → Poll σ} {workflow : Workflow σ} {context : Context}
  {history : List (Stretch (Traced σ))}

/-- In a run without output keys, a visit does in the session and to the shared ledger what
the task of its member does, and so does a member that starts. -/
theorem Standing.shares {maxValueBytes : Nat} {V : Nat → KeyMap String → Prop}
    {visit : Visit (Traced σ)} {stretch : Stretch (Traced σ)}
    (h : Standing behave False (workflow.terms maxValueBytes context) workflow V visit.members)
    (hof : visit.Of (Traced.poll behave) workflow.plan context stretch)
    (hshared : workflow.isKeyed = false) (hkeyed : visit.floor.keyed = false)
    (hown : visit.floor.own = none) :
    Member.Shares behave visit.floor visit.member visit.after visit.exchanges ∧
      (visit.starts →
        Member.Enters visit.scope visit.floor visit.member visit.after visit.exchanges) := by
  obtain ⟨task, -, hstands⟩ := h visit.index visit.member visit.getElem?_members
  obtain ⟨exchanges, hshares, henters⟩ := hof.visited.shares hkeyed hown
    fun access events hphase => hstands.shared_of hshared hphase
  obtain rfl : visit.exchanges = exchanges := by
    rw [Visit.exchanges, hshares.past, List.drop_left]
  refine ⟨hshares, fun hstarts => ?_⟩
  rw [Visit.starts, Bool.and_eq_true, Bool.not_eq_true'] at hstarts
  exact henters hstarts.1 hstarts.2

/-- All members of a run without output keys stand as their tasks do, and the run has no
ledger of its own. -/
theorem History.standing_shared (hcheck : workflow.check = .ok ())
    (hshared : workflow.isKeyed = false)
    (h : History (Traced.poll behave) context (ofWorkflow workflow.traced) history) :
    let terms := workflow.terms workflow.plan.maxValueBytes context
    let V := Found terms (log (Traced.poll behave) context (ofWorkflow workflow.traced) history)
    (∀ visit ∈ log (Traced.poll behave) context (ofWorkflow workflow.traced) history,
      Serving behave workflow workflow.plan.maxValueBytes context visit.floor visit.members ∧
        Standing behave False terms workflow V visit.members ∧ visit.floor.own = none) ∧
      ∀ stretch ∈ history, Comes (fun floor members =>
        Serving behave workflow workflow.plan.maxValueBytes context floor members ∧
          Standing behave False terms workflow V members ∧ floor.own = none)
        (ofWorkflow workflow.traced) context stretch := by
  refine h.standing (P := fun _ floor _ => floor.own = none) (S := fun _ => True)
    (R := fun _ _ => True) False hcheck (guarded_of_shared behave hshared _ _) (fun _ _ => trivial)
    (List.pairwise_of_forall fun _ _ => trivial).isChain (fun _ _ _ halone => halone.elim) ?_ ?_ ?_
  · intro state world floor _ hopened
    have hunkeyed := (isKeyed_ofWorkflow workflow.traced).trans (isKeyed_traced workflow)
    exact (open_unkeyed (hunkeyed.trans hshared) hopened).2.1
  · intro visit hmem hserving hstanding hown
    obtain ⟨stretch, -, hof⟩ := h.of_mem_log hmem
    exact (hstanding.shares hof hshared (hserving.keyed.trans hshared) hown).1.own_eq_none
  · exact fun _ _ _ _ _ hown _ => hown

/-- What the members of a run without output keys have in common, from its start to wherever
it has come. -/
structure InCommon (behave : σ → Poll σ) (workflow : Workflow σ) (context : Context)
    (last : Stretch (Traced σ)) (past : List (Stretch (Traced σ))) : Prop where
  /-- What a visit does to the values of the session and to the shared ledger, the task of its
  member does. -/
  visits : ∀ visit ∈ log (Traced.poll behave) context (ofWorkflow workflow.traced) (last :: past),
    Member.Shares behave visit.floor visit.member visit.after visit.exchanges
  /-- Whoever starts has been let in; then its template is filled in from the session. -/
  starts : ∀ visit ∈ log (Traced.poll behave) context (ofWorkflow workflow.traced) (last :: past),
    visit.starts → visit.floor.gate.Admits visit.index visit.gateWithin ∧
      Member.Enters visit.scope visit.floor visit.member visit.after visit.exchanges
  /-- Before, between and behind its visits, the latest stretch does nothing to them. -/
  stretch :
    let visits := (latest (ofWorkflow workflow.traced) past).visits (Traced.poll behave) last.turn
      (context.withState last.state) last.world
    Unbroken last.state (visits.map Visit.values) last.step.state ∧
      Unbroken last.world.ledger (visits.map Visit.ledgers) last.step.world.ledger
  /-- There is no other ledger. -/
  own : ∀ gate own, last.step.run.stage = .open gate own → own = none
  /-- If nobody else writes into the session, the visits are all that happens to its values,
  and these are what the tasks have written, in the order in which they have. -/
  session : ∀ initial, Untouched initial (last :: past) →
    let log := log (Traced.poll behave) context (ofWorkflow workflow.traced) (last :: past)
    Unbroken initial (log.map Visit.values) last.step.state ∧
      ∀ writes, WritesOnly behave writes →
        last.step.state = initial.write (log.flatMap (Visit.writes writes))
  /-- No member settles twice. -/
  once : ∀ index, (log (Traced.poll behave) context (ofWorkflow workflow.traced)
    (last :: past)).countP (Visit.bringsAt Phase.isSettled index) ≤ 1
  /-- Whoever has settled has done so as its task has, begun when it started. -/
  settled : ∀ (index : Nat) (member : Member (Traced σ)) (settlement : Settlement),
    last.step.run.members[index]? = some member → member.phase.settlement? = some settlement →
    ∃ task, workflow.members[index]? = some (member.definition, task) ∧
      ∃ visit ∈ log (Traced.poll behave) context (ofWorkflow workflow.traced) (last :: past),
        visit.startsAt index ∧
          Settles behave False (workflow.terms workflow.plan.maxValueBytes context) index
            member.definition task visit.floor.state settlement member.process

section Latest

variable {last : Stretch (Traced σ)} {past : List (Stretch (Traced σ))}
  (hcheck : workflow.check = .ok ()) (hshared : workflow.isKeyed = false)
  (h : History (Traced.poll behave) context (ofWorkflow workflow.traced) (last :: past))
include hcheck hshared h

theorem History.own_eq_none {gate : Gate Nat} {own : Option Ledger}
    (hstage : last.step.run.stage = .open gate own) : own = none := by
  rcases (h.standing_shared hcheck hshared).2 last List.mem_cons_self with ⟨_, _, -, hstep⟩ |
    ⟨⟨floor, members, ⟨-, -, hown⟩, -, hstep⟩ | ⟨_, _, _, _, -, -, hstep⟩⟩
  · rw [hstep] at hstage
    cases hstage
  · rw [hstep] at hstage
    cases hstage
    exact hown
  · rw [hstep] at hstage
    cases hstage

/-- Between the values that a stretch finds and those that it leaves there are its visits, and
so there are between the ledgers. -/
theorem History.stretch_shared :
    let visits := (latest (ofWorkflow workflow.traced) past).visits (Traced.poll behave) last.turn
      (context.withState last.state) last.world
    Unbroken last.state (visits.map Visit.values) last.step.state ∧
      Unbroken last.world.ledger (visits.map Visit.ledgers) last.step.world.ledger := by
  have hafter : ∀ visit ∈ (latest (ofWorkflow workflow.traced) past).visits (Traced.poll behave)
      last.turn (context.withState last.state) last.world,
      visit.after.1.keyed = false ∧ visit.after.1.own = none := by
    intro visit hmem
    replace hmem : visit ∈ log (Traced.poll behave) context (ofWorkflow workflow.traced)
      (last :: past) := List.mem_append_right _ hmem
    obtain ⟨hserving, hstanding, hown⟩ := (h.standing_shared hcheck hshared).1 visit hmem
    obtain ⟨stretch, -, hof⟩ := h.of_mem_log hmem
    have hkeyed := hserving.keyed.trans hshared
    have habides : Floor.Abides False visit.floor visit.after.1 :=
      hof.visited.abides visit.floor fun hfalse => hfalse.elim
    exact ⟨habides.keyed.trans hkeyed,
      (hstanding.shares hof hshared hkeyed hown).1.own_eq_none⟩
  cases h with
  | first turn state world =>
    obtain ⟨floor, hopen⟩ := open_traced_of_own hcheck (fun hkeyed => by simp [hshared] at hkeyed)
      (context.withState state) world
    have hunkeyed := (isKeyed_ofWorkflow workflow.traced).trans (isKeyed_traced workflow)
    obtain ⟨hkeyed, hown, hstate, hledger⟩ := open_unkeyed (hunkeyed.trans hshared) hopen
    have hgive := give_shared turn (entry_of_open rfl hopen) hkeyed hown hafter
    rw [hstate, hledger] at hgive
    exact hgive
  | @next earlier before hbefore hnone turn state world =>
    obtain ⟨gate, own, hstage⟩ := hbefore.stage_of_none rfl hnone
    have hown := hbefore.own_eq_none hcheck hshared hstage
    have hkeyed : earlier.step.run.isKeyed = false := hbefore.carries.isKeyed.trans hshared
    have hentry : earlier.step.run.entry (context.withState state) world =
        some ⟨state, earlier.step.run.isKeyed, own, gate, world⟩ := by
      rw [entry, hstage]
      rfl
    exact give_shared turn hentry hkeyed hown hafter

end Latest

/-- If nobody else writes into the session of a run without output keys, its visits are all
that happens to the values there. -/
theorem History.session_shared {initial : KeyMap String} (hcheck : workflow.check = .ok ())
    (hshared : workflow.isKeyed = false) {last : Stretch (Traced σ)}
    {past : List (Stretch (Traced σ))}
    (h : History (Traced.poll behave) context (ofWorkflow workflow.traced) (last :: past))
    (huntouched : Untouched initial (last :: past)) :
    Unbroken initial ((log (Traced.poll behave) context (ofWorkflow workflow.traced)
      (last :: past)).map Visit.values) last.step.state := by
  induction past generalizing last with
  | nil =>
    rw [← huntouched.first last rfl]
    exact (h.stretch_shared hcheck hshared).1
  | cons earlier before ih =>
    have hbefore : History (Traced.poll behave) context (ofWorkflow workflow.traced)
        (earlier :: before) := by
      cases h
      assumption
    have hsame := (List.isChain_cons_cons.1 huntouched.between).1
    have hpast := ih hbefore ⟨huntouched.first, huntouched.between.tail⟩
    have hstretch := (h.stretch_shared hcheck hshared).1
    rw [hsame] at hstretch
    rw [log, List.map_append, hsame]
    exact hpast.append hstretch

theorem History.inCommon {last : Stretch (Traced σ)} {past : List (Stretch (Traced σ))}
    {workers : Nat} (horder : workflow.plan.order = .parallel workers)
    (hcheck : workflow.check = .ok ()) (hshared : workflow.isKeyed = false)
    (h : History (Traced.poll behave) context (ofWorkflow workflow.traced) (last :: past)) :
    InCommon behave workflow context last past := by
  obtain ⟨hstanding, hcomes⟩ := h.standing_shared hcheck hshared
  have hvisit : ∀ visit ∈ log (Traced.poll behave) context (ofWorkflow workflow.traced)
      (last :: past), Member.Shares behave visit.floor visit.member visit.after visit.exchanges ∧
        (visit.starts → visit.floor.gate.Admits visit.index visit.gateWithin ∧
          Member.Enters visit.scope visit.floor visit.member visit.after visit.exchanges) := by
    intro visit hmem
    obtain ⟨hserving, hstands, hown⟩ := hstanding visit hmem
    obtain ⟨stretch, -, hof⟩ := h.of_mem_log hmem
    obtain ⟨hshares, henters⟩ :=
      hstands.shares hof hshared (hserving.keyed.trans hshared) hown
    refine ⟨hshares, fun hstarts => ⟨?_, henters hstarts⟩⟩
    exact (((h.regulated horder).1 visit hmem).admits (hof.queues horder) hstarts).1
  exact {
    visits := fun visit hmem => (hvisit visit hmem).1
    starts := fun visit hmem => (hvisit visit hmem).2
    stretch := h.stretch_shared hcheck hshared
    own := fun gate own hstage => h.own_eq_none hcheck hshared hstage
    session := by
      intro initial huntouched log
      have hunbroken := h.session_shared hcheck hshared huntouched
      refine ⟨hunbroken, fun writes hwrites => ?_⟩
      have hfold := hunbroken.eq_foldl
        (fun (values : KeyMap String) (visit : Visit (Traced σ)) =>
          values.write (visit.writes writes))
        fun visit hmem => visit.state_of_shares hwrites (hvisit visit hmem).1
      rw [hfold, KeyMap.write, List.foldl_flatMap]
      rfl
    once := fun index => (h.countP_bringsAt lasting_isSettled index).trans_le (Bool.toNat_le _)
    settled := by
      intro index member settlement hget hsettled
      rcases (hcomes last List.mem_cons_self).members with hstart | ⟨floor, -, hstands, -⟩
      · rw [hstart] at hget
        obtain ⟨_, _, -, rfl⟩ := getElem?_members_ofWorkflow hget
        cases hsettled
      · obtain ⟨task, htask, hmember⟩ := hstands index member hget
        obtain ⟨values, ⟨visit, hmem, rfl, hstarts, hvalues⟩, hsettles⟩ := hmember.settles hsettled
        rw [Floor.values_of_shared hshared] at hvalues
        subst hvalues
        refine ⟨task, htask, visit, hmem, ?_, hsettles⟩
        simp [Visit.startsAt, hstarts] }

/-! ## Reports -/

/-- What the report of a run without output keys tells of its members: whoever has settled is
counted and tells its events, in the order of the members. -/
structure Sums (plan : Plan) (members : List (Member (Traced σ))) (report : Report) : Prop where
  succeeded : report.succeeded = succeeded members
  failed : report.failed = failed members
  total : report.succeeded + report.failed = (settlements members).length
  events : report.events = members.flatMap (·.tells plan.name)
  record : report.record = none

/-- What a run without output keys comes to at its end: every member has settled, once. -/
structure Gathered (behave : σ → Poll σ) (workflow : Workflow σ) (context : Context)
    (last : Stretch (Traced σ)) (past : List (Stretch (Traced σ))) (report : Report) : Prop
    extends Sums workflow.plan last.step.run.members report where
  settled : ∀ index < workflow.members.length,
    (log (Traced.poll behave) context (ofWorkflow workflow.traced)
      (last :: past)).countP (Visit.bringsAt Phase.isSettled index) = 1 ∧
    ∃ member settlement, last.step.run.members[index]? = some member ∧
      member.phase.settlement? = some settlement
  complete : report.succeeded + report.failed = workflow.members.length
  /-- It has failed if there are members and all have failed. -/
  verdict : (report.status, report.error) =
    if 0 < workflow.members.length ∧ ∀ member ∈ last.step.run.members,
        member.phase.settlement?.any (!·.isSuccess) then
      (.failed, some Report.allFailedMessage)
    else (.completed, none)

/-- What it comes to at its deadline: whoever has not settled is told of with nothing. -/
structure CutOff (plan : Plan) (members : List (Member (Traced σ))) (report : Report) : Prop
    extends Sums plan members report where
  status : report.status = .cancelled
  error : report.error = none

/-- A run side by side whose members have all settled fails if there are members and all have
failed. -/
theorem verdict_parallel {members : List (Member σ)} (workers : Nat)
    (hall : ∀ member ∈ members, member.phase.settlement?.isSome) :
    verdict (.parallel workers) members =
      if 0 < members.length ∧ ∀ member ∈ members,
          member.phase.settlement?.any (!·.isSuccess) then
        .failed Report.allFailedMessage
      else .completed := by
  have hlength := length_settlements_of_all hall
  have hzero : Run.succeeded members = 0 ↔ ∀ member ∈ members,
      member.phase.settlement?.any (!·.isSuccess) := by
    rw [Run.succeeded, List.countP_eq_zero, settlements]
    simp only [List.mem_filterMap, forall_exists_index, and_imp]
    constructor
    · intro h member hmem
      obtain ⟨settlement, hsettled⟩ := Option.isSome_iff_exists.1 (hall member hmem)
      simpa [hsettled] using h settlement member hmem hsettled
    · intro h settlement member hmem hsettled
      simpa [hsettled] using h member hmem
  have hfailed : Run.succeeded members = 0 → Run.failed members = members.length := by
    intro h
    rw [Run.failed, h, hlength, Nat.sub_zero]
  rw [verdict]
  refine if_congr ((and_congr_left fun hnone => ?_).trans (and_congr_right' hzero)) rfl rfl
  rw [hfailed hnone]

section Reports

variable {last : Stretch (Traced σ)} {past : List (Stretch (Traced σ))}
  (h : History (Traced.poll behave) context (ofWorkflow workflow.traced) (last :: past))
include h

variable (hshared : workflow.isKeyed = false)
include hshared

theorem History.gathered {workers : Nat} (horder : workflow.plan.order = .parallel workers)
    (hcheck : workflow.check = .ok ()) {result : Except RunError Report}
    (hresult : last.step.result = some result) :
    ∃ report, result = .ok report ∧ Gathered behave workflow context last past report := by
  obtain ⟨floor, report, rfl, hserving, -, -, -, hclosing⟩ :=
    h.closing hcheck (fun hkeyed => by simp [hshared] at hkeyed) hresult
  have hlength : last.step.run.members.length = workflow.members.length :=
    hserving.carries.length
  rw [horder] at hclosing
  have hall := hclosing.isOver.settled
  have htotal := succeeded_add_failed last.step.run.members
  rw [← hclosing.succeeded, ← hclosing.failed] at htotal
  refine ⟨report, rfl, ⟨hclosing.succeeded, hclosing.failed, htotal,
    hclosing.events.trans h.events_eq_flatMap, ?_⟩, fun index hlt => ?_, ?_, ?_⟩
  · obtain ⟨now, hrecord⟩ := hclosing.record
    rw [hrecord, hserving.keyed, hshared]
    rfl
  · have hget := List.getElem?_eq_getElem (hlength ▸ hlt : index < last.step.run.members.length)
    have hsettled := hall _ (List.getElem_mem (hlength ▸ hlt))
    refine ⟨(h.countP_bringsAt lasting_isSettled index).trans ?_, ?_⟩
    · rw [latest, reached, hget, Option.any_some, Phase.isSettled, hsettled]
      rfl
    · obtain ⟨settlement, hsettlement⟩ := Option.isSome_iff_exists.1 hsettled
      exact ⟨_, settlement, hget, hsettlement⟩
  · rw [htotal, length_settlements_of_all hall, hlength]
  · rw [hclosing.status, hclosing.error, verdict_parallel workers hall, hlength]
    split <;> rfl

theorem History.cutOff (hopen : last.step.result = none) (abandons : List Abandon)
    (deadline : Nat) (state : KeyMap String) (world : World) :
    ∃ report after, last.step.run.cancel abandons deadline (context.withState state) world =
        (.ok report, after) ∧
      CutOff workflow.plan last.step.run.members report ∧
      after.ledger = (last.step.run.abandon abandons world).ledger := by
  have hunkeyed : last.step.run.isKeyed = false := h.carries.isKeyed.trans hshared
  have hevents := h.events_eq_flatMap
  obtain ⟨gate, own, hstage⟩ := h.stage_of_none rfl hopen
  simp only [cancel, hstage, settleRecord, hunkeyed, Bool.false_eq_true, if_false]
  exact ⟨_, _, rfl, ⟨⟨rfl, rfl, succeeded_add_failed _, hevents, rfl⟩, rfl, rfl⟩, rfl⟩

end Reports

end Histories

/-- Fan-out in one session. Take a run side by side without output keys, whatever its tasks do,
whatever happens between its stretches, and whether or not it may use the shared ledger.
Wherever it has come, its members have worked in the session of the run one stretch after
another, and the run itself has changed nothing there and nothing in the ledger. If it has
ended, then with a report of all members, of which each has settled once; if it is cancelled
at its deadline, then with a report of those that have settled, and what the others have written
stays in the session. If whoever is let in comes to an end, the run is over at last. -/
theorem shared_fan_out (behave : σ → Poll σ) (context : Context) (workflow : Workflow σ)
    {workers : Nat} (horder : workflow.plan.order = .parallel workers)
    (hcheck : workflow.check = .ok ()) (hshared : workflow.isKeyed = false) :
    let start := ofWorkflow workflow.traced
    (∀ last past, History (Traced.poll behave) context start (last :: past) →
      InCommon behave workflow context last past ∧
      (∀ result, last.step.result = some result →
        ∃ report, result = .ok report ∧
          Gathered behave workflow context last past report) ∧
      (last.step.result = none → ∀ abandons deadline state world, ∃ report after,
        last.step.run.cancel abandons deadline (context.withState state) world =
          (.ok report, after) ∧
        CutOff workflow.plan last.step.run.members report ∧
        ((∀ abandon ∈ abandons, ∀ world : World, (abandon world).ledger = world.ledger) →
          after.ledger = world.ledger)) ∧
      ∀ finish, Ending context last finish → finish.state = last.step.state) ∧
    ∀ driver, Fair (Traced.poll behave) context start driver →
      ∃ count, isOver (drive (Traced.poll behave) context start driver (count + 1)) ∧
        History (Traced.poll behave) context start
          (drive (Traced.poll behave) context start driver (count + 1)) := by
  intro start
  refine ⟨fun last past h => ⟨h.inCommon horder hcheck hshared,
    fun result hresult => h.gathered hshared horder hcheck hresult,
    fun hopen abandons deadline state world => ?_, fun finish hending => ?_⟩,
    fun driver hfair => ?_⟩
  · obtain ⟨report, after, hcancel, hcut, hledger⟩ :=
      h.cutOff hshared hopen abandons deadline state world
    exact ⟨report, after, hcancel, hcut, fun hspare => by rw [hledger, ledger_abandon _ hspare]⟩
  · cases hending <;> rfl
  · obtain ⟨count, hover⟩ := hfair.exists_isOver horder
    cases count with
    | zero => cases hover
    | succ count => exact ⟨count, hover, history_drive ..⟩

/-- A workbench for two, in a shared session: the saw writes, waits and is the last to be done;
the forge leaves a nail and fails; the hammer comes when the forge is free, and asks for the
nail. -/
def bench : Workflow Leaf where
  plan := ⟨"bench", "default", .parallel 2, 100, true⟩
  members :=
    [(⟨"saw", none, none, none⟩, .ofBody
        (.write "wood" "oak" (.pause 10 (.emit (.text "saw" "cut") .finish)))),
      (⟨"forge", none, none, none⟩, .ofBody
        (.pause 5 (.write "nail" "iron" (.fail (.ofMessage "cold") .finish)))),
      (⟨"hammer", none, none, some "\x7bnail\x7d!"⟩, .ofBody
        (.look fun context => .emit (.text "hammer" (context.instruction.getD "")) .finish))]

/-- The session of a bench. -/
def benchContext : Context := ⟨⟨"s", "u", "a", .empty⟩, 0, none⟩

/-- Every five milliseconds there is a stretch, and nothing else happens. -/
def benchDriver : Driver (Traced Leaf) := fun past =>
  ⟨.at (5 * past.length), (past.head?.map (·.step.state)).getD .empty,
    { (past.head?.map (·.step.world)).getD (.start 100) with clock := 5 * past.length }⟩

/-- The bench after so many stretches. -/
abbrev benchAfter (count : Nat) : List (Stretch (Traced Leaf)) :=
  drive (Traced.poll Leaf.poll) benchContext (ofWorkflow bench.traced) benchDriver count

/-- The stretch of a bench that comes next. -/
abbrev benchNext (past : List (Stretch (Traced Leaf))) : Stretch (Traced Leaf) :=
  prompted (Traced.poll Leaf.poll) benchContext (ofWorkflow bench.traced) benchDriver past

/-- The first stretch of a bench: the saw and the forge wait. -/
def benchFirst : Stretch (Traced Leaf) := benchNext []

/-- The second, with the forge and the hammer. -/
def benchSecond : Stretch (Traced Leaf) := benchNext [benchFirst]

/-- The third, in which the saw is done. -/
def benchLast : Stretch (Traced Leaf) := benchNext [benchSecond, benchFirst]

theorem fair_bench : Fair (Traced.poll Leaf.poll) benchContext (ofWorkflow bench.traced)
    benchDriver :=
  fair_of_isOver 3 (by decide +kernel)
    (show ∀ index < 3, reached Phase.isSettled
      (latest (ofWorkflow bench.traced) (benchAfter 3)).members index by decide +kernel)
    fun _ _ => rfl

theorem shared_fan_out_bench :
    bench.plan.order = .parallel 2 ∧ bench.check = .ok () ∧ bench.isKeyed = false ∧
    (∃ report, benchLast.step.result = some (.ok report) ∧
      Gathered Leaf.poll bench benchContext benchLast [benchSecond, benchFirst] report ∧
      report.status = .completed ∧ report.events = [.text "saw" "cut",
        .failure "bench" "forge" "cold", .text "hammer" "iron!"]) ∧
    InCommon Leaf.poll bench benchContext benchSecond [benchFirst] ∧
    (∃ report after, benchSecond.step.run.cancel [id, id, id] 7
        (benchContext.withState benchSecond.step.state) benchSecond.step.world =
          (.ok report, after) ∧
      CutOff bench.plan benchSecond.step.run.members report ∧
      after.ledger = benchSecond.step.world.ledger ∧
      report.events = [.failure "bench" "forge" "cold", .text "hammer" "iron!"]) ∧
    benchSecond.step.state = KeyMap.empty.write [("wood", "oak"), ("nail", "iron")] ∧
    Fair (Traced.poll Leaf.poll) benchContext (ofWorkflow bench.traced) benchDriver ∧
    ∃ count, isOver (benchAfter (count + 1)) := by
  obtain ⟨hruns, hends⟩ := shared_fan_out Leaf.poll benchContext bench rfl rfl rfl
  have hfirst : History (Traced.poll Leaf.poll) benchContext (ofWorkflow bench.traced)
      [benchFirst] := .first _ _ _
  have hopen : benchFirst.step.result = none := Option.isNone_iff_eq_none.1 (by decide +kernel)
  have hsecond : History (Traced.poll Leaf.poll) benchContext (ofWorkflow bench.traced)
      [benchSecond, benchFirst] := .next hfirst hopen _ _ _
  have hcut : benchSecond.step.result = none := Option.isNone_iff_eq_none.1 (by decide +kernel)
  have hlast : History (Traced.poll Leaf.poll) benchContext (ofWorkflow bench.traced)
      [benchLast, benchSecond, benchFirst] := .next hsecond hcut _ _ _
  obtain ⟨hcommon, -, hcancelled, -⟩ := hruns _ _ hsecond
  obtain ⟨report', after, hcancel, hcutOff, hledger⟩ :=
    hcancelled hcut [id, id, id] 7 benchSecond.step.state benchSecond.step.world
  have hreports : benchLast.step.result.map (·.toOption.map fun report =>
      (report.status, report.events)) = some (some (.completed, [.text "saw" "cut",
        .failure "bench" "forge" "cold", .text "hammer" "iron!"])) := by decide +kernel
  obtain ⟨result, hresult, hreport⟩ := Option.map_eq_some_iff.1 hreports
  obtain ⟨report, rfl, hgathered⟩ := (hruns _ _ hlast).2.1 result hresult
  obtain ⟨hstatus, hevents⟩ := Prod.mk.inj (Option.some.inj hreport)
  obtain ⟨count, hover, -⟩ := hends benchDriver fair_bench
  refine ⟨rfl, rfl, rfl, ⟨report, hresult, hgathered, hstatus, hevents⟩, hcommon,
    ⟨report', after, hcancel, hcutOff, hledger (by simp), ?_⟩, ?_, fair_bench, count, hover⟩
  · rw [hcutOff.events]
    decide +kernel
  · have hstate := (hcommon.session .empty ⟨?_, ?_⟩).2 Leaf.writes Leaf.writesOnly
    · rw [hstate]
      decide +kernel
    · rintro _ ⟨⟩
      rfl
    · exact List.isChain_pair.2 rfl

end Run

end Coordination
