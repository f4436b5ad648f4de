import Coordination.Proofs.Run.Closing

/-!
# The life of a sub-task

A member of a run is visited time and again, each time on whatever floor there is
then (`Member.Life`): others may have changed the values of the session, the ledger
and the gate since, if only the run still finds its record. How it settles is told
from its template, from what its task yields and from the bound on outputs alone
(`Member.Concludes`, `Member.settles_as_streamed`).

* `Member.Unsettled.visited`: what a visit makes of a member that has not settled;
* `Member.Life.unsettled`: how it stands until it settles;
* `Run.History.life`: the members of a run live such lives.
-/

namespace Coordination

variable {σ : Type}

/-! ## Visits -/

namespace Floor

theorem Around.own_eq {before after : Floor} (h : before.Around after) :
    after.own = before.own := by
  have hsome := h.toKept.own
  have hledger := h.ledger
  cases hbefore : before.own with
  | none => simpa [hbefore] using hsome
  | some ledger =>
    obtain ⟨ledger', hafter⟩ := Option.isSome_iff_exists.1 (hsome.trans (by rw [hbefore]; rfl))
    simpa [Floor.ledger, hbefore, hafter] using hledger

theorem Around.withWorld {before after : Floor} (h : before.Around after) (world : World) :
    ({ before with world } : Floor).Around { after with world } where
  state := h.state
  keyed := h.keyed
  own := h.toKept.own
  ledger := by simp [Floor.ledger, h.own_eq]

/-- Whether a run finds what it reads of its ledger throughout a visit: when it begins, and
after the stretch that it gives to the task, if it gives one. -/
structure ServesVisit (terms : Terms) (floor : Floor) (before after : Traced σ) : Prop where
  found : floor.Serves terms
  left : ∀ exchange, after.past = before.past ++ [exchange] →
    ({ floor with world := exchange.advance.world } : Floor).Serves terms

theorem ServesVisit.around {terms : Terms} {floor entered : Floor} {before after : Traced σ}
    (h : floor.ServesVisit terms before after) (haround : floor.Around entered) :
    entered.ServesVisit terms before after where
  found := (h.found.around haround).1
  left exchange hpast := ((h.left exchange hpast).around (haround.withWorld _)).1

/-- The floor as the latest stretch of a task has left it. -/
def leftBy (floor : Floor) (traced : Traced σ) : Floor :=
  match traced.past.getLast? with
  | none => floor
  | some last => { floor with world := last.advance.world }

end Floor

namespace Member

variable {behave : σ → Poll σ} {terms : Terms} {index : Nat} {definition : Definition} {task : σ}
  {values : KeyMap String}

/-- Where a member stands that has not settled, and the values that it has started from if it
has started. -/
inductive Unsettled (behave : σ → Poll σ) (terms : Terms) (index : Nat) (definition : Definition)
    (task : σ) : Option (KeyMap String) → Member (Traced σ) → Prop
  | unstarted (phase : Phase) (hphase : phase.hasStarted = false) :
    Unsettled behave terms index definition task none ⟨definition, phase, .fresh task⟩
  | underway (values : KeyMap String) (instruction : Option String) (access : Access)
      (traced : Traced σ) (hexpand : expand definition values = .ok instruction)
      (hfollows : Traced.Follows behave task traced) (hpast : traced.past ≠ [])
      (hpending : ∀ exchange ∈ traced.past, exchange.advance.outcome = .pending)
      (hdraft : terms.Drafts index definition access.draft?) :
    Unsettled behave terms index definition task (some values)
      ⟨definition, .running access traced.events, traced⟩

/-- A member under way has been given stretches, all of which have left more to come. -/
theorem Unsettled.running {values? : Option (KeyMap String)} {member : Member (Traced σ)}
    (h : Unsettled behave terms index definition task values? member) {access : Access}
    {events : List Event} (hphase : member.phase = .running access events) :
    member.process.past ≠ [] ∧
      ∀ exchange ∈ member.process.past, exchange.advance.outcome = .pending := by
  cases h with
  | unstarted phase hfresh =>
    rw [show phase = _ from hphase] at hfresh
    cases hfresh
  | underway _ _ _ _ _ _ hpast hpending => exact ⟨hpast, hpending⟩

theorem Unsettled.phase_ne {values? : Option (KeyMap String)} {member : Member (Traced σ)}
    (h : Unsettled behave terms index definition task values? member) (settlement : Settlement) :
    member.phase ≠ .settled settlement := by
  intro hphase
  cases h with
  | unstarted phase hfresh =>
    rw [show phase = _ from hphase] at hfresh
    cases hfresh
  | underway => cases hphase

/-- How a member settles in a visit on a floor, that has started from these values: at once,
without its task, or when its task has come to an end. -/
inductive SettlesIn (behave : σ → Poll σ) (terms : Terms) (index : Nat) (definition : Definition)
    (task : σ) (values : KeyMap String) (floor : Floor) (after : Floor × Member (Traced σ)) : Prop
  | unfilled (error : TaskError) (hexpand : expand definition values = .error error)
      (hprocess : after.2.process = .fresh task)
      (hcloses : Closes terms index floor definition [] (some error) after)
  | ended (instruction : Option String) (last : Exchange σ)
      (hexpand : expand definition values = .ok instruction)
      (hfollows : Traced.Follows behave task after.2.process)
      (hlast : after.2.process.past.getLast? = some last)
      (hended : last.advance.outcome ≠ .pending)
      (hpending : ∀ exchange ∈ after.2.process.past.dropLast, exchange.advance.outcome = .pending)
      (hcloses : Closes terms index (floor.leftBy after.2.process) definition
        after.2.process.events
        (terms.failure? definition after.2.process.events last.advance.outcome) after)

theorem SettlesIn.around {floor entered left : Floor} {after : Floor × Member (Traced σ)}
    (h : SettlesIn behave terms index definition task values entered after)
    (hentered : floor.Around entered) (hleft : after.1.Around left) :
    SettlesIn behave terms index definition task values floor (left, after.2) := by
  cases h with
  | unfilled error hexpand hprocess hcloses =>
    exact .unfilled error hexpand hprocess ((hcloses.around hleft).of_ledger hentered.ledger)
  | ended instruction last hexpand hfollows hlast hended hpending hcloses =>
    refine .ended instruction last hexpand hfollows hlast hended hpending
      ((hcloses.around hleft).of_ledger ?_)
    rw [Floor.leftBy, Floor.leftBy, hlast]
    exact (hentered.withWorld _).ledger

/-- After one more stretch a member is under way, or settles. -/
theorem Driven.unsettled_or {floor : Floor} {traced : Traced σ} {turn : Turn} {context : Context}
    {world : World} {after : Floor × Member (Traced σ)} {instruction : Option String}
    (h : Driven terms index floor definition traced.events
      (traced.poll behave turn context world) after)
    (hexpand : expand definition values = .ok instruction)
    (hfollows : Traced.Follows behave task traced)
    (hpending : ∀ exchange ∈ traced.past, exchange.advance.outcome = .pending) :
    Unsettled behave terms index definition task (some values) after.2 ∨
      SettlesIn behave terms index definition task values floor after := by
  have hfollows' := hfollows.poll turn context world
  have hevents := traced.events_poll behave turn context world
  cases h with
  | onward access left hpending' hdraft =>
    left
    rw [← hevents]
    refine .underway values instruction access _ hexpand hfollows' (by simp [Traced.poll]) ?_ hdraft
    intro exchange hmem
    rcases List.mem_append.1 hmem with hmem | hmem
    · exact hpending exchange hmem
    · rw [List.mem_singleton.1 hmem]
      exact hpending'
  | closed hended hdefinition hprocess hcloses =>
    right
    rw [← hevents] at hcloses
    have hlast : (traced.poll behave turn context world).process.past.getLast? =
        some ⟨turn, context, world, behave traced.task turn context world⟩ := List.getLast?_concat
    refine .ended instruction _ hexpand ?_ (hprocess ▸ hlast) hended ?_ ?_
    · rw [hprocess]
      exact hfollows'
    · rw [hprocess]
      simpa [Traced.poll] using hpending
    · rw [hprocess, Floor.leftBy, hlast]
      exact hcloses

/-- The values that a member has started from, after a visit on a floor. -/
def origin (terms : Terms) (values? : Option (KeyMap String)) (floor : Floor)
    (before after : Member σ) : Option (KeyMap String) :=
  if before.phase.hasStarted then values?
  else if after.phase.hasStarted then some (floor.values terms)
  else none

section Visited

variable {state : KeyMap String} {turn : Turn} {floor : Floor} {member : Member (Traced σ)}
  {after : Floor × Member (Traced σ)} {values? : Option (KeyMap String)}

/-- One more stretch on a floor that serves the run. -/
theorem proceed_unsettled_or {instruction : Option String} (access : Access)
    (hexpand : expand member.definition values = .ok instruction)
    (hfollows : Traced.Follows behave task member.process)
    (hpending : ∀ exchange ∈ member.process.past, exchange.advance.outcome = .pending)
    (hdraft : terms.Drafts index member.definition access.draft?)
    (hserved : floor.ServesVisit terms member.process
      (proceed (terms.scope state turn) index (Traced.poll behave member.process) floor member
        access member.process.events).2.process) :
    let after := proceed (terms.scope state turn) index (Traced.poll behave member.process) floor
      member access member.process.events
    Unsettled behave terms index member.definition task (some values) after.2 ∨
      SettlesIn behave terms index member.definition task values floor after := by
  rw [process_proceed] at hserved
  exact (proceed_driven state turn _ access member.process.events hdraft
    (hserved.left ⟨_, _, _, _⟩ rfl)).unsettled_or hexpand hfollows hpending

/-- A start, with the first stretch if there is one. -/
theorem start_unsettled_or (hprocess : member.process = .fresh task)
    (hserved : floor.ServesVisit terms member.process
      (start (terms.scope state turn) index (Traced.poll behave member.process) floor
        member).2.process) :
    let after := start (terms.scope state turn) index (Traced.poll behave member.process) floor
      member
    Unsettled behave terms index member.definition task (some (floor.values terms)) after.2 ∨
      SettlesIn behave terms index member.definition task (floor.values terms) floor after := by
  intro after
  have hfollows : Traced.Follows behave task member.process := hprocess ▸ .fresh
  have hevents : [] = member.process.events := by rw [hprocess]; rfl
  have hpending : ∀ exchange ∈ member.process.past, exchange.advance.outcome = .pending := by
    rw [hprocess]
    exact fun _ h => absurd h List.not_mem_nil
  have hafter : after = start (terms.scope state turn) index (Traced.poll behave member.process)
    floor member := rfl
  cases hexpand : expand member.definition (floor.values terms) with
  | error error =>
    obtain ⟨hcloses, hunchanged⟩ := start_closes state turn index
      (Traced.poll behave member.process) hserved.found hexpand
    exact .inr (.unfilled error hexpand (hunchanged.trans hprocess) hcloses)
  | ok instruction =>
    rw [← hafter] at hserved
    cases hkeyed : terms.keyed with
    | true =>
      rw [start_own state turn index _ hserved.found hkeyed hexpand, hevents] at hafter
      have hserved' := hserved.around floor.around_stamp
      rw [hafter] at hserved' ⊢
      have hdraft : terms.Drafts index member.definition
          (some (draft (terms.scope state turn) index member.definition floor.stamp.1)) :=
        ⟨hkeyed, draft_of (terms.scope state turn) index member.definition floor.stamp.1⟩
      exact (proceed_unsettled_or (.own _ _) hexpand hfollows hpending hdraft hserved').imp_right
        fun h => h.around floor.around_stamp (.refl _)
    | false =>
      rw [start_shared state turn index _ hserved.found hkeyed hexpand, hevents] at hafter
      rw [hafter] at hserved ⊢
      exact proceed_unsettled_or _ hexpand hfollows hpending hkeyed hserved

/-- What a visit makes of a member that has not settled. -/
theorem Unsettled.visited (h : Unsettled behave terms index definition task values? member)
    (hvisited : Member.Visited (terms.scope state turn) index
      (Traced.poll behave member.process) floor member after)
    (hserved : floor.ServesVisit terms member.process after.2.process) :
    Unsettled behave terms index definition task (origin terms values? floor member after.2)
        after.2 ∨
      ∃ values, origin terms values? floor member after.2 = some values ∧
        SettlesIn behave terms index definition task values floor after := by
  cases h with
  | unstarted phase hfresh =>
    cases hvisited with
    | stays =>
      left
      rw [origin, hfresh]
      exact .unstarted phase hfresh
    | waits left _ _ =>
      left
      rw [origin, hfresh]
      exact .unstarted .waiting rfl
    | starts entered left _ hentered hleft =>
      have hstarted := (start_started (terms.scope state turn) index
        (Traced.poll behave (.fresh task)) entered ⟨definition, phase, .fresh task⟩).2
      have horigin : origin terms none floor ⟨definition, phase, .fresh task⟩ (start
          (terms.scope state turn) index (Traced.poll behave (.fresh task)) entered
          ⟨definition, phase, .fresh task⟩).2 = some (entered.values terms) := by
        rw [origin, hfresh, hstarted, (hserved.found.around hentered).2]
        rfl
      rw [horigin]
      exact (start_unsettled_or rfl (hserved.around hentered)).imp_right
        fun h => ⟨_, rfl, h.around hentered hleft⟩
    | proceeds access events _ hphase =>
      rw [show phase = _ from hphase] at hfresh
      cases hfresh
  | underway values instruction access traced hexpand hfollows hpast hpending hdraft =>
    have horigin : ∀ after, origin terms (some values) floor
      ⟨definition, .running access traced.events, traced⟩ after = some values := fun _ => rfl
    rw [horigin]
    cases hvisited with
    | stays hphase => exact absurd rfl (hphase access traced.events)
    | waits _ hphase => cases hphase
    | starts _ _ hphase => rcases hphase with hphase | hphase <;> cases hphase
    | proceeds access' events left hphase hleft =>
      cases hphase
      exact (proceed_unsettled_or access hexpand hfollows hpending hdraft hserved).imp_right
        fun h => ⟨values, rfl, h.around (.refl _) hleft⟩

end Visited

/-! ## Lives -/

/-- The lives of a member of a place, from before its start: the values that it has started
from, if it has started, and where it stands. It is visited time and again, each time on
whatever floor there is then, if only that serves the run. -/
inductive Life (behave : σ → Poll σ) (terms : Terms) (index : Nat) (definition : Definition)
    (task : σ) : Option (KeyMap String) → Member (Traced σ) → Prop
  | idle : Life behave terms index definition task none ⟨definition, .idle, .fresh task⟩
  | visited {values? : Option (KeyMap String)} {member : Member (Traced σ)}
      (h : Life behave terms index definition task values? member) (state : KeyMap String)
      (turn : Turn) (floor : Floor) {after : Floor × Member (Traced σ)}
      (hafter : after = visitBy (terms.scope state turn) index
        (Traced.poll behave member.process) floor member)
      (hserved : floor.ServesVisit terms member.process after.2.process) :
    Life behave terms index definition task (origin terms values? floor member after.2) after.2

/-- As long as a member has not settled, it stands as its task does. -/
theorem Life.unsettled {values? : Option (KeyMap String)} {member : Member (Traced σ)}
    (h : Life behave terms index definition task values? member)
    (hopen : member.phase.settlement? = none) :
    Unsettled behave terms index definition task values? member := by
  induction h with
  | idle => exact .unstarted .idle rfl
  | @visited _ member _ state turn floor after hafter hserved ih =>
    have hvisited := hafter ▸ visitBy_visited (terms.scope state turn) index
      (Traced.poll behave member.process) floor member
    have hbefore : member.phase.settlement? = none := by
      cases hvisited with
      | stays => exact hopen
      | waits _ hphase => rw [hphase]; rfl
      | starts _ _ hphase => rcases hphase with hphase | hphase <;> rw [hphase] <;> rfl
      | proceeds _ _ _ hphase => rw [hphase]; rfl
    rcases (ih hbefore).visited hvisited hserved with h | ⟨values, -, hsettles⟩
    · exact h
    · have hclosed : after.2.phase.settlement?.isSome := by
        cases hsettles with
        | unfilled _ _ _ hcloses => rw [hcloses.phase]; rfl
        | ended _ _ _ _ _ _ _ hcloses => rw [hcloses.phase]; rfl
      rw [hopen] at hclosed
      cases hclosed

/-- How a member of a place has settled in a visit on a floor, that has started from these
values. -/
structure Concludes (behave : σ → Poll σ) (terms : Terms) (index : Nat) (definition : Definition)
    (task : σ) (values : KeyMap String) (floor : Floor) (after : Floor × Member (Traced σ))
    (settlement : Settlement) : Prop where
  /-- It succeeds if its template names no key that the values lack, its task comes to a good end,
  and its output, if it has one, is no longer than the bound. Else it fails. -/
  success : settlement.isSuccess ↔ ¬ definition.Misses values ∧ after.2.process.Ended ∧
    (terms.keyed = true → definition.outputKey.isSome →
      (textOf after.2.process.events).utf8ByteSize ≤ terms.maxValueBytes)
  /-- Its events are all that its task has yielded, and one that reports the failure if it has
  failed. -/
  events : settlement.events = after.2.process.events ++
    (settlement.error.map (Event.failure terms.plan.name definition.name)).toList
  /-- The message is that of the error: of its template, of its task, or of the ledger if its task
  has come to a good end. -/
  cause : ∀ message ∈ settlement.error, ∃ error : TaskError, error.message = message ∧
    (expand definition values = .error error ∨
      (∃ last, after.2.process.past.getLast? = some last ∧ last.advance.outcome = .failed error) ∨
      terms.keyed = true ∧ after.2.process.Ended ∧
        definition.refusal? terms.maxValueBytes after.2.process.events = some error)
  /-- What it has yielded is what its task has, from its beginning on; -/
  follows : Traced.Follows behave task after.2.process
  /-- a task is not begun without its instruction, -/
  unbegun : definition.Misses values → after.2.process = .fresh task
  /-- and once it has come to an end it is not asked again. -/
  pending : ∀ exchange ∈ after.2.process.past.dropLast, exchange.advance.outcome = .pending
  /-- With output keys the record has one more execution, with the same message, and the output if
  the sub-task has succeeded and has a key for it. -/
  recorded : terms.keyed = true → ∃ record record' execution,
    (floor.leftBy after.2.process).ledger.get? terms.context.session.id = some record ∧
    after.1.ledger.get? terms.context.session.id = some record' ∧
    execution.toDraft.Of terms.plan terms.context.session.id index definition ∧
    execution.isSuccess = settlement.isSuccess ∧ execution.error = settlement.error ∧
    record'.executions = record.executions ++ [execution] ∧
    record'.outputs = (match definition.outputKey, settlement.error with
      | some key, none => record.outputs.insert key (textOf after.2.process.events)
      | _, _ => record.outputs) ∧
    record'.status = record.status

theorem SettlesIn.concludes {floor : Floor} {after : Floor × Member (Traced σ)}
    (h : SettlesIn behave terms index definition task values floor after) {settlement : Settlement}
    (hsettled : after.2.phase = .settled settlement) :
    Concludes behave terms index definition task values floor after settlement := by
  cases h with
  | unfilled error hexpand hprocess hcloses =>
    obtain rfl := Phase.settled.inj (hcloses.phase.symm.trans hsettled)
    have hpast : after.2.process.past = [] := by rw [hprocess]; rfl
    have hevents : after.2.process.events = [] := by rw [hprocess]; rfl
    have hmisses := misses_of_expand hexpand
    refine ⟨?_, ?_, ?_, hprocess ▸ .fresh, fun _ => hprocess, ?_, ?_⟩
    · simp [Settlement.isSuccess_of, hmisses]
    · rw [hevents]
      exact Settlement.events_of ..
    · rintro message ⟨⟩
      exact ⟨error, rfl, .inl hexpand⟩
    · simp [hpast]
    · rw [Floor.leftBy, hpast, hevents]
      exact hcloses.recorded_of
  | ended instruction last hexpand hfollows hlast hended hpending hcloses =>
    obtain rfl := Phase.settled.inj (hcloses.phase.symm.trans hsettled)
    have hfilled := not_misses_of_expand hexpand
    have hgood : after.2.process.Ended ↔ last.advance.outcome = .ended := by
      simp [Traced.Ended, hlast]
    refine ⟨?_, Settlement.events_of .., ?_, hfollows, fun h => absurd h hfilled, hpending,
      hcloses.recorded_of⟩
    · rw [Settlement.isSuccess_of, Option.isNone_iff_eq_none, Terms.failure?_eq_none_iff hended,
        hgood]
      simp [hfilled]
    · intro message hmessage
      rw [Settlement.error_of, Option.mem_def, Option.map_eq_some_iff] at hmessage
      obtain ⟨error, herror, rfl⟩ := hmessage
      refine ⟨error, rfl, .inr ?_⟩
      cases houtcome : last.advance.outcome with
      | pending => exact absurd houtcome hended
      | failed error' =>
        rw [houtcome] at herror
        cases herror
        exact .inl ⟨last, hlast, houtcome⟩
      | ended =>
        rw [houtcome, Terms.failure?, show Outcome.ended.error? = none from rfl,
          Option.none_or] at herror
        obtain ⟨hkeyed, hrefused⟩ := Option.ite_none_right_eq_some.1 herror
        exact .inr ⟨hkeyed, hgood.2 houtcome, hrefused⟩

/-- A member that is visited on a floor that serves the run goes on only as long as its task has
more to come. How it settles, at its start or in a later visit, is told from its template, from
what its task has yielded, and with output keys from the bound on outputs, whatever others have
done to the floor between its visits. -/
theorem settles_as_streamed {values? : Option (KeyMap String)} {member : Member (Traced σ)}
    (h : Life behave terms index definition task values? member)
    (hopen : member.phase.settlement? = none) (state : KeyMap String) (turn : Turn) {floor : Floor}
    {after : Floor × Member (Traced σ)}
    (hafter : after = visitBy (terms.scope state turn) index
      (Traced.poll behave member.process) floor member)
    (hserved : floor.ServesVisit terms member.process after.2.process) :
    (∀ access events, after.2.phase = .running access events → after.2.process.past ≠ [] ∧
      ∀ exchange ∈ after.2.process.past, exchange.advance.outcome = .pending) ∧
    ∀ settlement, after.2.phase = .settled settlement → ∃ values,
      origin terms values? floor member after.2 = some values ∧
      Concludes behave terms index definition task values floor after settlement := by
  have hvisited := hafter ▸ visitBy_visited (terms.scope state turn) index
    (Traced.poll behave member.process) floor member
  rcases (h.unsettled hopen).visited hvisited hserved with hgoes | ⟨values, horigin, hsettles⟩
  · exact ⟨fun _ _ hrunning => hgoes.running hrunning,
      fun _ hsettled => absurd hsettled (hgoes.phase_ne _)⟩
  · refine ⟨fun access events hrunning => ?_,
      fun settlement hsettled => ⟨values, horigin, hsettles.concludes hsettled⟩⟩
    cases hsettles with
    | unfilled _ _ _ hcloses => cases hcloses.phase.symm.trans hrunning
    | ended _ _ _ _ _ _ _ hcloses => cases hcloses.phase.symm.trans hrunning

/-! ### One that says too much -/

/-- The terms of a sounding: outputs of three bytes at most. -/
def soundingTerms : Terms :=
  ⟨⟨"sounding", "default", .parallel 1, 3, false⟩, true, 3, ⟨⟨"s", "u", "a", .empty⟩, 0, none⟩⟩

/-- A sub-task that needs a topic, -/
def soundingPart : Definition := ⟨"probe", none, some "found", some "at \x7btopic\x7d"⟩

/-- waits, and then says more than fits. -/
def soundingTask : Leaf := .ofBody (.pause 5 (.emit (.text "probe" "deep") .finish))

/-- A floor at a time. -/
def soundingFloor (clock : Nat) : Floor where
  state := .ofList [("topic", "reef")]
  keyed := true
  own := some ((Ledger.empty 3).put "s" (.start ⟨0, 0⟩ "s" "u" "sounding" "default"))
  gate := .ofCapacity 1
  world := { World.start 100 with clock }

/-- The member before its start, -/
def soundingIdle : Member (Traced Leaf) := ⟨soundingPart, .idle, .fresh soundingTask⟩

/-- after the visit in which it starts, -/
def soundingFirst : Floor × Member (Traced Leaf) :=
  visitBy (soundingTerms.scope .empty (.at 0)) 0 (Traced.poll Leaf.poll soundingIdle.process)
    (soundingFloor 0) soundingIdle

/-- and after the visit in which its task ends. -/
def soundingSecond : Floor × Member (Traced Leaf) :=
  visitBy (soundingTerms.scope .empty (.at 5)) 0 (Traced.poll Leaf.poll soundingFirst.2.process)
    (soundingFloor 5) soundingFirst.2

theorem serves_soundingFloor (clock : Nat) (before after : Traced Leaf) :
    (soundingFloor clock).ServesVisit soundingTerms before after :=
  ⟨⟨rfl, fun _ => ⟨_, rfl⟩, fun _ => rfl⟩, fun _ _ => ⟨rfl, fun _ => ⟨_, rfl⟩, fun _ => rfl⟩⟩

theorem settles_as_streamed_sounding :
    (∃ values, Life Leaf.poll soundingTerms 0 soundingPart soundingTask (some values)
      soundingFirst.2) ∧ soundingFirst.2.phase.settlement? = none ∧
    (soundingFloor 5).ServesVisit soundingTerms soundingFirst.2.process soundingSecond.2.process ∧
    soundingSecond.2.phase = .settled ⟨[.text "probe" "deep", .failure "sounding" "probe"
        "Commit rejected: Output value for key 'found' exceeds maximum size (4 > 3 bytes)"],
      some "Commit rejected: Output value for key 'found' exceeds maximum size (4 > 3 bytes)"⟩ ∧
    ∃ values settlement, Concludes Leaf.poll soundingTerms 0 soundingPart soundingTask values
      (soundingFloor 5) soundingSecond settlement := by
  have hfirst : Life Leaf.poll soundingTerms 0 soundingPart soundingTask
      (origin soundingTerms none (soundingFloor 0) soundingIdle soundingFirst.2) soundingFirst.2 :=
    .visited .idle .empty (.at 0) (soundingFloor 0) rfl (serves_soundingFloor ..)
  have hopen : soundingFirst.2.phase.settlement? = none := by decide +kernel
  have hsettled : soundingSecond.2.phase = .settled ⟨[.text "probe" "deep",
      .failure "sounding" "probe"
        "Commit rejected: Output value for key 'found' exceeds maximum size (4 > 3 bytes)"],
      some "Commit rejected: Output value for key 'found' exceeds maximum size (4 > 3 bytes)"⟩ := by
    decide +kernel
  obtain ⟨-, hsettles⟩ := settles_as_streamed hfirst hopen .empty (.at 5)
    (rfl : soundingSecond = _) (serves_soundingFloor 5 _ _)
  obtain ⟨values, -, hconcludes⟩ := hsettles _ hsettled
  exact ⟨⟨_, hfirst⟩, hopen, serves_soundingFloor .., hsettled, values, _, hconcludes⟩

end Member

namespace Run

variable {behave : σ → Poll σ} {terms : Terms} {workflow : Workflow σ}
  {history : List (Stretch (Traced σ))}

/-- Whether every member lives such a life at its place. -/
def Living (behave : σ → Poll σ) (terms : Terms) (workflow : Workflow σ)
    (members : List (Member (Traced σ))) : Prop :=
  ∀ index member, members[index]? = some member → ∃ definition task values?,
    workflow.members[index]? = some (definition, task) ∧
      Member.Life behave terms index definition task values? member

theorem living_ofWorkflow : Living behave terms workflow (ofWorkflow workflow.traced).members := by
  intro index member hget
  simp only [ofWorkflow, Workflow.traced, List.map_map, List.getElem?_map,
    Option.map_eq_some_iff] at hget
  obtain ⟨⟨definition, task⟩, hmember, rfl⟩ := hget
  exact ⟨definition, task, none, hmember, .idle⟩

/-- A visit that is served is one more in the life of its member. -/
theorem Living.visited {stretch : Stretch (Traced σ)} {visit : Visit (Traced σ)}
    (h : Living behave terms workflow visit.members)
    (hof : visit.Of (Traced.poll behave) terms.plan terms.context stretch)
    (hserved : visit.floor.ServesVisit terms visit.member.process visit.after.2.process) :
    Living behave terms workflow visit.left := by
  intro index member hget
  rw [Visit.left_eq_set] at hget
  by_cases hindex : visit.index = index
  · obtain ⟨definition, task, values?, hmember, hlife⟩ := h _ _ visit.getElem?_members
    have hlt := (List.getElem?_eq_some_iff.1 visit.getElem?_members).1
    rw [← hindex, List.getElem?_set_self hlt] at hget
    cases hget
    have hscope : visit.scope = terms.scope stretch.state stretch.turn := hof.scope
    have hlife' := hlife.visited stretch.state stretch.turn visit.floor (hscope ▸ hof.after) hserved
    exact ⟨definition, task, _, hindex ▸ hmember, hindex ▸ hlife'⟩
  · rw [List.getElem?_set_ne hindex] at hget
    exact h index member hget

/-- The members of a run live such lives, each at its place, if every visit is served. -/
theorem History.life (hplan : terms.plan = workflow.plan)
    (h : History (Traced.poll behave) terms.context (ofWorkflow workflow.traced) history)
    (hserved : ∀ visit ∈ log (Traced.poll behave) terms.context (ofWorkflow workflow.traced)
      history, visit.floor.ServesVisit terms visit.member.process visit.after.2.process) :
    ∀ visit ∈ log (Traced.poll behave) terms.context (ofWorkflow workflow.traced) history,
      ∃ definition task values?, workflow.members[visit.index]? = some (definition, task) ∧
        Member.Life behave terms visit.index definition task values? visit.member := by
  intro visit hmem
  refine h.consecutive_log.relates
    (R := fun before after => Living behave terms workflow before →
      Living behave terms workflow after)
    (fun _ => id) (fun _ _ _ hab hbc ha => hbc (hab ha)) (fun visit hmem hliving => ?_) visit hmem
    living_ofWorkflow _ _ visit.getElem?_members
  obtain ⟨stretch, -, hof⟩ := h.of_mem_log hmem
  rw [show (ofWorkflow workflow.traced).plan = terms.plan from hplan.symm] at hof
  exact hliving.visited hof (hserved visit hmem)

end Run

end Coordination
