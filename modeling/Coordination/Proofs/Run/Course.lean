import Coordination.Proofs.Run.Places

/-!
# The course of a task

A task is begun in a context and given stretches, one after another, until it
comes to an end (`Course`). What its member makes of that is told from the
course alone: the events are those that the task has yielded, and it fails if
its instruction cannot be filled in, if the task has failed, or if the ledger
refuses its output (`Settlement.of`, `Outcome.failure?`, `Settles`). `Member.Stands`
says so of a member at every moment, in a run with output keys or without.

* `Member.start_of_error`, `Member.start_own`, `Member.start_shared`: how a member starts;
* `Member.proceed_own`, `Member.proceed_shared`: what a stretch makes of it;
* `Member.Stands.visited`: what a visit does.
-/

namespace Coordination

variable {σ : Type}

/-! ## Courses -/

/-- The course of a task that was begun in the context `start`: the task with
its trace, and its latest stretch. Later stretches find the same context, but
for the values of its session. If the task is `alone` there, they find the
values that the stretch before them has left. -/
inductive Course (behave : σ → Poll σ) (alone : Prop) (task : σ) (start : Context) :
    Traced σ → Exchange σ → Prop
  | first (turn : Turn) (world : World) :
    Course behave alone task start ((Traced.fresh task).poll behave turn start world).process
      ⟨turn, start, world, behave task turn start world⟩
  | next {traced : Traced σ} {last : Exchange σ} (h : Course behave alone task start traced last)
      (hpending : last.advance.outcome = .pending) (turn : Turn) (state : KeyMap String)
      (world : World) (halone : alone → state = last.advance.state) :
    Course behave alone task start (traced.poll behave turn (start.withState state) world).process
      ⟨turn, start.withState state, world, behave traced.task turn (start.withState state) world⟩

theorem Course.getLast? {behave : σ → Poll σ} {alone : Prop} {task : σ} {start : Context}
    {traced : Traced σ} {last : Exchange σ} (h : Course behave alone task start traced last) :
    traced.past.getLast? = some last := by
  cases h <;> exact List.getLast?_concat

/-! ## Settlements -/

/-- How a sub-task settles that has yielded these events, and fails with the
error if there is one. -/
def Settlement.of (author : String) (definition : Definition) (events : List Event) :
    Option TaskError → Settlement
  | none => ⟨events, none⟩
  | some error =>
    ⟨events ++ [.failure author definition.name error.message], some error.message⟩

@[simp] theorem Settlement.isSuccess_of (author : String) (definition : Definition)
    (events : List Event) (error? : Option TaskError) :
    (Settlement.of author definition events error?).isSuccess = error?.isNone := by
  cases error? <;> rfl

/-- Why the output of a sub-task that has yielded these events is refused, if
it is: it is longer than the bound. -/
def Definition.refusal? (definition : Definition) (maxValueBytes : Nat) (events : List Event) :
    Option TaskError :=
  definition.outputKey.bind fun key =>
    if maxValueBytes < (textOf events).utf8ByteSize then
      some (.commit (.valueTooLarge key (textOf events).utf8ByteSize maxValueBytes))
    else none

theorem Definition.refusal?_eq_none_iff {definition : Definition} {maxValueBytes : Nat}
    {events : List Event} : definition.refusal? maxValueBytes events = none ↔
      (definition.outputKey.isSome → (textOf events).utf8ByteSize ≤ maxValueBytes) := by
  cases hkey : definition.outputKey <;> simp [refusal?, hkey]

/-- Why a sub-task fails that has yielded these events and come to this end, if it does. -/
def Outcome.failure? (definition : Definition) (maxValueBytes : Nat) (events : List Event) :
    Outcome → Option TaskError
  | .failed error => some error
  | _ => definition.refusal? maxValueBytes events

/-- A task leaves the bound of the shared ledger alone. -/
def Poll.KeepsBound (poll : Poll σ) : Prop :=
  ∀ turn context world,
    (poll turn context world).world.ledger.maxValueBytes = world.ledger.maxValueBytes

/-! ## Terms -/

/-- The terms on which the members of a run work. -/
structure Terms where
  plan : Plan
  /-- Whether sub-tasks publish outputs. -/
  keyed : Bool
  /-- The greatest length of an output in bytes. -/
  maxValueBytes : Nat
  /-- The context of the run; the values of its session may change. -/
  context : Context

namespace Terms

/-- What is fixed in a stretch. -/
def scope (terms : Terms) (state : KeyMap String) (turn : Turn) : Scope :=
  ⟨terms.plan, terms.context.withState state, turn⟩

/-- The context in which the member of a place starts from these values: with a
session of its own if the run has output keys, else with that of the run. -/
def session (terms : Terms) (index : Nat) (values : KeyMap String)
    (instruction : Option String) : Context :=
  (if terms.keyed then
      terms.context.child (Context.childId terms.context.session.id index) values
    else terms.context.withState values).withInstruction instruction

theorem session_shared {terms : Terms} (hkeyed : terms.keyed = false) (index : Nat)
    (values : KeyMap String) (instruction : Option String) :
    terms.session index values instruction =
      (terms.context.withState values).withInstruction instruction := by
  rw [session, hkeyed, if_neg Bool.false_ne_true]

end Terms

/-- Whether a run with output keys finds its record and the bound on its outputs. -/
structure Floor.Serves (terms : Terms) (floor : Floor) : Prop where
  keyed : floor.keyed = terms.keyed
  record : terms.keyed → ∃ record, floor.ledger.get? terms.context.session.id = some record
  bound : terms.keyed → floor.ledger.maxValueBytes = terms.maxValueBytes

namespace Floor

/-- The values from which a member starts: those of the run's session and, over
them, the outputs in its record if it has one. -/
def values (terms : Terms) (floor : Floor) : KeyMap String :=
  match floor.ledger.get? terms.context.session.id with
  | some record => if terms.keyed then floor.state.overlay record.outputs else floor.state
  | none => floor.state

variable {terms : Terms} {floor : Floor}

theorem values_of_get? (hkeyed : terms.keyed = true) {record : Record}
    (h : floor.ledger.get? terms.context.session.id = some record) :
    floor.values terms = floor.state.overlay record.outputs := by
  simp [values, h, hkeyed]

theorem values_of_shared (hkeyed : terms.keyed = false) : floor.values terms = floor.state := by
  unfold values
  split <;> simp [hkeyed]

theorem Serves.around (h : floor.Serves terms) {after : Floor} (haround : floor.Around after) :
    after.Serves terms ∧ after.values terms = floor.values terms := by
  refine ⟨⟨haround.keyed.trans h.keyed, ?_, ?_⟩, ?_⟩
  · rw [haround.ledger]
    exact h.record
  · rw [haround.ledger]
    exact h.bound
  · rw [values, values, haround.ledger, haround.state]

/-- Whether surroundings keep what a run reads of the shared ledger, if it uses that. -/
def Spares (id : String) (floor : Floor) (world : World) : Prop :=
  floor.own = none → world.ledger.get? id = floor.world.ledger.get? id ∧
    world.ledger.maxValueBytes = floor.world.ledger.maxValueBytes

theorem around_stamp (floor : Floor) : floor.Around floor.stamp.2 := ⟨floor.kept_stamp, rfl⟩

theorem Serves.withWorld (h : floor.Serves terms) {world : World}
    (hspares : floor.Spares terms.context.session.id world) :
    ({ floor with world } : Floor).Serves terms where
  keyed := h.keyed
  record := by
    rw [floor.get?_ledger_withWorld fun hown => (hspares hown).1]
    exact h.record
  bound := by
    intro hkeyed
    rw [← h.bound hkeyed]
    cases hown : floor.own with
    | none => simpa [Floor.ledger, hown] using (hspares hown).2
    | some ledger => simp [Floor.ledger, hown]

/-- A commit is refused only for the length of the output. -/
theorem Serves.commit_cases (h : floor.Serves terms) (hkeyed : terms.keyed = true)
    {record : Record} (hrecord : floor.ledger.get? terms.context.session.id = some record)
    {definition : Definition} {draft : Draft} (hkey : draft.outputKey = definition.outputKey)
    (now : Timestamp) (events : List Event) :
    (definition.refusal? terms.maxValueBytes events = none ∧
      floor.ledger.commit now terms.context.session.id draft (textOf events) =
        .ok (Ledger.succeed record now draft (textOf events), floor.ledger.put
          terms.context.session.id (record.commit now draft (textOf events)))) ∨
    ∃ error, definition.refusal? terms.maxValueBytes events = some (.commit error) ∧
      floor.ledger.commit now terms.context.session.id draft (textOf events) = .error error := by
  by_cases hfits : Ledger.Fits floor.ledger.maxValueBytes draft (textOf events)
  · refine .inl ⟨?_, Ledger.commit_of_fits hrecord hfits⟩
    rw [Definition.refusal?_eq_none_iff, ← h.bound hkeyed, ← hkey]
    exact hfits
  · obtain ⟨key, hsome, hcommit⟩ := Ledger.commit_of_not_fits now hrecord hfits
    refine .inr ⟨_, ?_, hcommit⟩
    have hlong : terms.maxValueBytes < (textOf events).utf8ByteSize := by
      rw [Ledger.Fits, h.bound hkeyed] at hfits
      simpa [hsome] using hfits
    simp [Definition.refusal?, ← hkey, hsome, hlong, h.bound hkeyed]

end Floor

/-! ## Stretches -/

namespace Member

/-- A member after a stretch of its task: it goes on, or settles as the task has ended. -/
def after (terms : Terms) (member : Member σ) (access : Access) (events : List Event)
    (advance : Advance σ) : Member σ where
  definition := member.definition
  phase :=
    match advance.outcome with
    | .pending => .running access events
    | outcome => .settled (.of terms.plan.name member.definition events
        (outcome.failure? member.definition terms.maxValueBytes events))
  process := advance.process

section Stretch

variable {terms : Terms} (state : KeyMap String) (turn : Turn) (index : Nat) (poll : Poll σ)
  {floor : Floor} {member : Member σ}

/-- A success is committed, or refused for its length. -/
theorem snd_succeed_own (hserves : floor.Serves terms) (hkeyed : terms.keyed = true)
    {draft : Draft} (hkey : draft.outputKey = member.definition.outputKey) (events : List Event) :
    (succeed (terms.scope state turn) floor member (some draft) events).2 =
      { member with phase := .settled (.of terms.plan.name member.definition events
          (member.definition.refusal? terms.maxValueBytes events)) } := by
  obtain ⟨hstamped, -⟩ := hserves.around floor.around_stamp
  obtain ⟨record, hrecord⟩ := hstamped.record hkeyed
  have hid : (terms.scope state turn).context.session.id = terms.context.session.id := rfl
  rcases hstamped.commit_cases hkeyed hrecord hkey floor.stamp.1 events with
    ⟨hnone, hcommit⟩ | ⟨error, hrefused, hcommit⟩
  · simp only [succeed, hid, Ledger.find_of_get? hrecord, hcommit, hnone]
    rfl
  · simp only [succeed, hid, Ledger.find_of_get? hrecord, hcommit, hrefused]
    rfl

/-- A stretch in a session of its own. -/
theorem proceed_own (hserves : floor.Serves terms) (hkeyed : terms.keyed = true)
    {draft : Draft} (hkey : draft.outputKey = member.definition.outputKey) (context : Context)
    (events : List Event)
    (hspares : floor.Spares terms.context.session.id
      (poll (turn.below index) context floor.world).world) :
    (proceed (terms.scope state turn) index poll floor member (.own draft context) events).2 =
      let advance := poll (turn.below index) context floor.world
      member.after terms (.own draft (context.withState advance.state)) (events ++ advance.events)
        advance := by
  have hturn : (terms.scope state turn).turn = turn := rfl
  simp only [proceed, hturn]
  generalize poll (turn.below index) context floor.world = advance at hspares ⊢
  have hserves' := hserves.withWorld hspares
  cases houtcome : advance.outcome with
  | pending => simp [after, houtcome]
  | ended =>
    simp only
    rw [snd_succeed_own state turn hserves' hkeyed (by exact hkey)]
    simp [after, houtcome, Outcome.failure?]
  | failed error => simp only [after, houtcome, Outcome.failure?]; rfl

/-- A stretch in the session of the run. -/
theorem proceed_shared (hkey : member.definition.outputKey = none) (instruction : Option String)
    (events : List Event) :
    (proceed (terms.scope state turn) index poll floor member (.shared instruction) events).2 =
      let advance := poll (turn.below index)
        ((terms.context.withState floor.state).withInstruction instruction) floor.world
      member.after terms (.shared instruction) (events ++ advance.events) advance := by
  have hcontext : (terms.scope state turn).context.withState floor.state =
    terms.context.withState floor.state := rfl
  have hturn : (terms.scope state turn).turn = turn := rfl
  simp only [proceed, hturn, hcontext]
  generalize poll (turn.below index) _ floor.world = advance
  have hnone : ∀ events, member.definition.refusal? terms.maxValueBytes events = none := by
    simp [Definition.refusal?, hkey]
  cases houtcome : advance.outcome with
  | pending => simp [after, houtcome]
  | ended => simp [after, houtcome, Outcome.failure?, hnone, succeed, Settlement.of]
  | failed error => simp only [after, houtcome, Outcome.failure?]; rfl

/-- A member whose instruction cannot be filled in fails at its start. -/
theorem start_of_error (hserves : floor.Serves terms) {error : TaskError}
    (hexpand : expand member.definition (floor.values terms) = .error error) :
    (start (terms.scope state turn) index poll floor member).2 =
      { member with
        phase := .settled (.of terms.plan.name member.definition [] (some error)) } := by
  cases hkeyed : terms.keyed with
  | false =>
    rw [Floor.values_of_shared hkeyed] at hexpand
    simp only [start, hserves.keyed, hkeyed, hexpand]
    rfl
  | true =>
    obtain ⟨record, hrecord⟩ := hserves.record hkeyed
    have houtputs : floor.stamp.2.ledger.outputsOf (terms.scope state turn).context.session.id =
      .ok record.outputs := Ledger.outputsOf_of_get? hrecord
    rw [Floor.values_of_get? hkeyed hrecord] at hexpand
    have hexpand' : expand member.definition (floor.stamp.2.state.overlay record.outputs) =
      .error error := hexpand
    simp only [start, hserves.keyed, hkeyed, if_true, houtputs, hexpand']
    rfl

/-- Else it is given its first stretch: in a session of its own that starts from the values, -/
theorem start_own (hserves : floor.Serves terms) (hkeyed : terms.keyed = true)
    {instruction : Option String}
    (hexpand : expand member.definition (floor.values terms) = .ok instruction) :
    start (terms.scope state turn) index poll floor member =
      proceed (terms.scope state turn) index poll floor.stamp.2 member
        (.own (draft (terms.scope state turn) index member.definition floor.stamp.1)
          (terms.session index (floor.values terms) instruction)) [] := by
  obtain ⟨record, hrecord⟩ := hserves.record hkeyed
  have houtputs : floor.stamp.2.ledger.outputsOf (terms.scope state turn).context.session.id =
    .ok record.outputs := Ledger.outputsOf_of_get? hrecord
  have hvalues := Floor.values_of_get? hkeyed hrecord
  have hexpand' : expand member.definition (floor.stamp.2.state.overlay record.outputs) =
    .ok instruction := hvalues ▸ hexpand
  simp only [start, hserves.keyed, hkeyed, if_true, houtputs, hexpand', hvalues, Terms.session]
  rfl

/-- or in that of the run, which holds them. -/
theorem start_shared (hserves : floor.Serves terms) (hkeyed : terms.keyed = false)
    {instruction : Option String}
    (hexpand : expand member.definition (floor.values terms) = .ok instruction) :
    start (terms.scope state turn) index poll floor member =
      proceed (terms.scope state turn) index poll floor member (.shared instruction) [] := by
  rw [Floor.values_of_shared hkeyed] at hexpand
  simp [start, hserves.keyed, hkeyed, hexpand]

end Stretch

/-! ## Where a member stands -/

/-- What a member goes on with, which started in this context and of which this
was the latest stretch. -/
def Resumes (terms : Terms) (definition : Definition) (start : Context) (last : Exchange σ) :
    Access → Prop
  | .own draft context => terms.keyed = true ∧ draft.outputKey = definition.outputKey ∧
    context = start.withState last.advance.state
  | .shared instruction => terms.keyed = false ∧ instruction = start.instruction

/-- Where the member of a place stands, told from the course of its task. It has
not started; or it has started from values of which `V` holds, and has failed
for its instruction, is under way, or has settled as its task has ended. -/
inductive Stands (behave : σ → Poll σ) (alone : Prop) (terms : Terms) (index : Nat)
    (V : KeyMap String → Prop) (task : σ) (member : Member (Traced σ)) : Prop
  | unstarted (hphase : member.phase.hasStarted = false) (hprocess : member.process = .fresh task)
  | unfilled (values : KeyMap String) (error : TaskError) (hvalues : V values)
      (hexpand : expand member.definition values = .error error)
      (hprocess : member.process = .fresh task)
      (hphase : member.phase =
        .settled (.of terms.plan.name member.definition [] (some error)))
  | underway (values : KeyMap String) (instruction : Option String) (last : Exchange σ)
      (access : Access) (hvalues : V values)
      (hexpand : expand member.definition values = .ok instruction)
      (hcourse : Course behave alone task (terms.session index values instruction)
        member.process last)
      (hpending : last.advance.outcome = .pending)
      (hresumes : Resumes terms member.definition (terms.session index values instruction) last
        access)
      (hphase : member.phase = .running access member.process.events)
  | settled (values : KeyMap String) (instruction : Option String) (last : Exchange σ)
      (hvalues : V values) (hexpand : expand member.definition values = .ok instruction)
      (hcourse : Course behave alone task (terms.session index values instruction)
        member.process last)
      (hended : last.advance.outcome ≠ .pending)
      (hphase : member.phase = .settled (.of terms.plan.name member.definition
        member.process.events (last.advance.outcome.failure? member.definition terms.maxValueBytes
          member.process.events)))

end Member

/-- How the sub-task of a place settles that has started from these values, and
what has become of its task: it fails at once if its instruction cannot be filled
in, and else settles as the course of its task has ended. -/
inductive Settles (behave : σ → Poll σ) (alone : Prop) (terms : Terms) (index : Nat)
    (definition : Definition) (task : σ) (values : KeyMap String) : Settlement → Traced σ → Prop
  | unfilled (error : TaskError) (hexpand : Member.expand definition values = .error error) :
    Settles behave alone terms index definition task values
      (.of terms.plan.name definition [] (some error)) (.fresh task)
  | ended (instruction : Option String) (traced : Traced σ) (last : Exchange σ)
      (hexpand : Member.expand definition values = .ok instruction)
      (hcourse : Course behave alone task (terms.session index values instruction) traced last)
      (hended : last.advance.outcome ≠ .pending) :
    Settles behave alone terms index definition task values
      (.of terms.plan.name definition traced.events
        (last.advance.outcome.failure? definition terms.maxValueBytes traced.events)) traced

namespace Member.Stands

variable {behave : σ → Poll σ} {alone : Prop} {terms : Terms} {index : Nat}
  {V : KeyMap String → Prop} {task : σ} {member : Member (Traced σ)}

/-- After a further stretch a member stands as the task does. -/
theorem of_after {values : KeyMap String} {instruction : Option String} {current : Context}
    {events : List Event} {access : Access} {world : World} {turn : Turn}
    (hvalues : V values) (hexpand : expand member.definition values = .ok instruction)
    (hcourse : Course behave alone task (terms.session index values instruction)
      (member.process.poll behave turn current world).process
      ⟨turn, current, world, behave member.process.task turn current world⟩)
    (hresumes : Resumes terms member.definition (terms.session index values instruction)
      ⟨turn, current, world, behave member.process.task turn current world⟩ access)
    (hevents : events = member.process.events) :
    (member.after terms access
      (events ++ (member.process.poll behave turn current world).events)
      (member.process.poll behave turn current world)).Stands behave alone terms index V task := by
  rw [hevents, ← Traced.events_poll]
  cases houtcome : (behave member.process.task turn current world).outcome with
  | pending =>
    refine .underway values instruction _ access hvalues hexpand hcourse houtcome hresumes ?_
    simp [after, Traced.poll, houtcome]
  | ended =>
    refine .settled values instruction _ hvalues hexpand hcourse (by simp [houtcome]) ?_
    simp [after, Traced.poll, houtcome]
  | failed error =>
    refine .settled values instruction _ hvalues hexpand hcourse (by simp [houtcome]) ?_
    simp [after, Traced.poll, houtcome]

/-- What is known of the values may be said in another way, once a member has started. -/
theorem imp {V' : KeyMap String → Prop} (h : member.Stands behave alone terms index V task)
    (hvalues : member.phase.hasStarted → ∀ values, V values → V' values) :
    member.Stands behave alone terms index V' task := by
  cases h with
  | unstarted hphase hprocess => exact .unstarted hphase hprocess
  | unfilled values error hV _ _ hphase =>
    exact .unfilled values error (hvalues (by rw [hphase]; rfl) values hV) ‹_› ‹_› hphase
  | underway values instruction last access hV _ _ _ _ hphase =>
    exact .underway values instruction last access (hvalues (by rw [hphase]; rfl) values hV)
      ‹_› ‹_› ‹_› ‹_› hphase
  | settled values instruction last hV _ _ _ hphase =>
    exact .settled values instruction last (hvalues (by rw [hphase]; rfl) values hV) ‹_› ‹_› ‹_›
      hphase

theorem unstarted_of (h : member.Stands behave alone terms index V task)
    (hphase : member.phase.hasStarted = false) : member.process = .fresh task := by
  cases h with
  | unstarted _ hprocess => exact hprocess
  | unfilled _ _ _ _ _ hsettled => simp [hsettled, Phase.hasStarted] at hphase
  | underway _ _ _ _ _ _ _ _ _ hrunning => simp [hrunning, Phase.hasStarted] at hphase
  | settled _ _ _ _ _ _ _ hsettled => simp [hsettled, Phase.hasStarted] at hphase

theorem shared_of (h : member.Stands behave alone terms index V task)
    (hkeyed : terms.keyed = false) {access : Access} {events : List Event}
    (hphase : member.phase = .running access events) :
    ∃ instruction, access = .shared instruction := by
  cases h with
  | unstarted hfresh => simp [hphase, Phase.hasStarted] at hfresh
  | unfilled _ _ _ _ _ hsettled => simp [hphase] at hsettled
  | settled _ _ _ _ _ _ _ hsettled => simp [hphase] at hsettled
  | underway values instruction last access' _ _ _ _ hresumes hrunning =>
    obtain ⟨rfl, -⟩ : access = access' ∧ events = member.process.events := by
      simpa [hphase] using hrunning
    cases access with
    | own => simp [Member.Resumes, hkeyed] at hresumes
    | shared instruction' => exact ⟨instruction', rfl⟩

section Visited

variable {state : KeyMap String} {turn : Turn} {floor : Floor}
  {after : Floor × Member (Traced σ)}

/-- A start makes a member stand as its task does in its first stretch. -/
theorem start (hprocess : member.process = .fresh task) (hserves : floor.Serves terms)
    (hkey : terms.keyed = false → member.definition.outputKey = none)
    (hspares : terms.keyed → floor.own = none →
      (Member.start (terms.scope state turn) index (Traced.poll behave member.process) floor
        member).2.process.Spares terms.context.session.id)
    (hbound : terms.keyed → floor.own = none → ∀ task, (behave task).KeepsBound)
    (hvalues : V (floor.values terms)) :
    (Member.start (terms.scope state turn) index (Traced.poll behave member.process) floor
      member).2.Stands behave alone terms index V task := by
  cases hexpand : expand member.definition (floor.values terms) with
  | error error =>
    rw [start_of_error state turn index _ hserves hexpand]
    exact .unfilled _ error hvalues hexpand hprocess rfl
  | ok instruction =>
    cases hkeyed : terms.keyed with
    | true =>
      have hstamped := (hserves.around floor.around_stamp).1
      rw [start_own state turn index _ hserves hkeyed hexpand] at hspares ⊢
      rw [(proceed_works ..).process] at hspares
      rw [proceed_own state turn index _ hstamped hkeyed (by rfl)]
      · refine of_after hvalues hexpand ?_ ⟨hkeyed, rfl, rfl⟩ ?_
        · rw [hprocess]
          exact .first ..
        · rw [hprocess]
          rfl
      · exact fun hown => ⟨Traced.spares_poll _ _ _ _ _ _ (hspares hkeyed hown),
          hbound hkeyed hown _ _ _ _⟩
    | false =>
      have hcontext : (terms.context.withState floor.state).withInstruction instruction =
          terms.session index (floor.values terms) instruction := by
        simp [Terms.session, hkeyed, Floor.values_of_shared hkeyed]
      rw [start_shared state turn index _ hserves hkeyed hexpand,
        proceed_shared state turn index _ (hkey hkeyed), hcontext]
      refine of_after hvalues hexpand ?_ ⟨hkeyed, rfl⟩ ?_
      · rw [hprocess]
        exact .first ..
      · rw [hprocess]
        rfl

/-- So does a further stretch. If the task is alone in the session of the run, it
finds there what its stretch before has left. -/
theorem proceed (h : member.Stands behave alone terms index V task) {access : Access}
    {events : List Event} (hphase : member.phase = .running access events)
    (hserves : floor.Serves terms)
    (hkey : terms.keyed = false → member.definition.outputKey = none)
    (hspares : terms.keyed → floor.own = none →
      (Member.proceed (terms.scope state turn) index (Traced.poll behave member.process) floor
        member access events).2.process.Spares terms.context.session.id)
    (hbound : terms.keyed → floor.own = none → ∀ task, (behave task).KeepsBound)
    (halone : alone → terms.keyed = false → ∀ last, member.process.past.getLast? = some last →
      floor.state = last.advance.state) :
    (Member.proceed (terms.scope state turn) index (Traced.poll behave member.process) floor
      member access events).2.Stands behave alone terms index V task := by
  cases h with
  | unstarted hfresh => simp [hphase, Phase.hasStarted] at hfresh
  | unfilled _ _ _ _ _ hsettled => simp [hphase] at hsettled
  | settled _ _ _ _ _ _ _ hsettled => simp [hphase] at hsettled
  | underway values instruction last access' hvalues hexpand hcourse hpending hresumes hrunning =>
    obtain ⟨rfl, rfl⟩ : access = access' ∧ events = member.process.events := by
      simpa [hphase] using hrunning
    cases access with
    | own draft context =>
      obtain ⟨hkeyed, hdraft, rfl⟩ := hresumes
      rw [(proceed_works ..).process] at hspares
      rw [proceed_own state turn index _ hserves hkeyed hdraft]
      · exact of_after hvalues hexpand (hcourse.next hpending _ _ _ fun _ => rfl)
          ⟨hkeyed, hdraft, rfl⟩ rfl
      · exact fun hown => ⟨Traced.spares_poll _ _ _ _ _ _ (hspares hkeyed hown),
          hbound hkeyed hown _ _ _ _⟩
    | shared instruction' =>
      obtain ⟨hkeyed, rfl⟩ := hresumes
      have hcontext : (terms.context.withState floor.state).withInstruction instruction' =
          (terms.session index values instruction').withState floor.state := by
        simp [Terms.session, hkeyed, Context.withState, Context.withInstruction]
      rw [proceed_shared state turn index _ (hkey hkeyed), hcontext]
      exact of_after hvalues hexpand
        (hcourse.next hpending _ _ _ fun h => halone h hkeyed last hcourse.getLast?)
        ⟨hkeyed, rfl⟩ rfl

/-- After a visit a member stands as its task does. -/
theorem visited (h : member.Stands behave alone terms index V task)
    (hvisited : Member.Visited (terms.scope state turn) index
      (Traced.poll behave member.process) floor member after)
    (hserves : floor.Serves terms)
    (hkey : terms.keyed = false → member.definition.outputKey = none)
    (hspares : terms.keyed → floor.own = none →
      after.2.process.Spares terms.context.session.id)
    (hbound : terms.keyed → floor.own = none → ∀ task, (behave task).KeepsBound)
    (hvalues : member.phase.hasStarted = false → after.2.phase.hasStarted = true →
      V (floor.values terms))
    (halone : alone → terms.keyed = false → member.phase.isRunning →
      ∀ last, member.process.past.getLast? = some last → floor.state = last.advance.state) :
    after.2.Stands behave alone terms index V task := by
  cases hvisited with
  | stays => exact h
  | waits left hphase =>
    exact .unstarted rfl (h.unstarted_of (by rw [hphase]; rfl))
  | starts entered left hphase hentered =>
    have hfresh : member.phase.hasStarted = false := by
      rcases hphase with hphase | hphase <;> rw [hphase] <;> rfl
    obtain ⟨hserves', hsame⟩ := hserves.around hentered
    refine start (h.unstarted_of hfresh) hserves' hkey (fun hkeyed hown => ?_)
      (fun hkeyed hown => ?_) ?_
    · exact hspares hkeyed (hentered.own_eq_none hown)
    · exact hbound hkeyed (hentered.own_eq_none hown)
    · rw [hsame]
      exact hvalues hfresh (start_started ..).2
  | proceeds access events left hphase =>
    refine h.proceed hphase hserves hkey hspares hbound fun hisAlone hkeyed => ?_
    exact halone hisAlone hkeyed (by rw [hphase]; rfl)

end Visited

/-- A member that has settled has done so from one of these values. -/
theorem settles (h : member.Stands behave alone terms index V task) {settlement : Settlement}
    (hsettled : member.phase.settlement? = some settlement) : ∃ values, V values ∧
      Settles behave alone terms index member.definition task values settlement member.process := by
  cases h with
  | unstarted hphase =>
    rw [hasStarted_of_settled (by rw [hsettled]; rfl)] at hphase
    cases hphase
  | underway _ _ _ _ _ _ _ _ _ hphase =>
    rw [hphase] at hsettled
    cases hsettled
  | unfilled values error hvalues hexpand hprocess hphase =>
    obtain rfl : _ = settlement := by simpa [hphase, Phase.settlement?] using hsettled
    exact ⟨values, hvalues, hprocess ▸ .unfilled error hexpand⟩
  | settled values instruction last hvalues hexpand hcourse hended hphase =>
    obtain rfl : _ = settlement := by simpa [hphase, Phase.settlement?] using hsettled
    exact ⟨values, hvalues, .ended instruction _ last hexpand hcourse hended⟩

end Member.Stands

end Coordination
