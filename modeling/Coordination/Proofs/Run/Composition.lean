import Coordination.Proofs.Run.Pipeline
import Coordination.Proofs.Template
import Mathlib.Data.List.Forall2

/-!
# What a run reports, told from its sub-tasks

A sub-task closes with what its task has come to, or fails without it: before its
start, if its instruction cannot be filled in, or at its end, if its output is
refused (`Yield.Closes`). What a run reports is composed of how its sub-tasks have closed
(`Run.Composes`), with output keys or without, in any order and under any schedule
(`Run.History.composes`).

* `Yield`: what a task comes to, whatever the task is;
* `Run.ComesTo`: what a run comes to whose sub-tasks have closed so;
* `Run.Composes.imp`: what the tasks come to may be told in other words.
-/

namespace Coordination

variable {σ : Type}

/-! ## What tasks come to -/

/-- What a task comes to: whether, begun in a context, it yields these events, and
then fails with this error, if there is one. -/
abbrev Yield := Context → List Event → Option TaskError → Prop

/-- The error with which the events of a task end, if it fails. -/
def Outcome.error? : Outcome → Option TaskError
  | .failed error => some error
  | _ => none

/-- Whether a sub-task comes to nothing that the other one may not come to. -/
def Yield.Implies (stage stage' : Definition × Yield) : Prop :=
  stage.1 = stage'.1 ∧
    ∀ context events error?, stage.2 context events error? → stage'.2 context events error?

theorem Yield.getElem?_of_forall₂ {yields yields' : List (Definition × Yield)} {index : Nat}
    {definition : Definition} {yield : Yield} (h : List.Forall₂ Implies yields yields')
    (hget : yields[index]? = some (definition, yield)) : ∃ yield',
      yields'[index]? = some (definition, yield') ∧
        ∀ context events error?, yield context events error? → yield' context events error? := by
  induction h generalizing index with
  | nil => cases hget
  | @cons _ stage' _ _ himplies _ ih =>
    cases index with
    | zero =>
      cases hget
      obtain ⟨rfl, himplies⟩ := himplies
      exact ⟨stage'.2, rfl, himplies⟩
    | succ index => exact ih hget

/-- A sub-task fails if its task does, and else if its output is refused. -/
theorem Outcome.failure?_eq_or (outcome : Outcome) (definition : Definition)
    (maxValueBytes : Nat) (events : List Event) :
    outcome.failure? definition maxValueBytes events =
      outcome.error?.or (definition.refusal? maxValueBytes events) := by
  cases outcome <;> rfl

/-- What a task comes to that does as `behave` says. -/
def Yield.ofTask (behave : σ → Poll σ) (task : σ) : Yield := fun context events error? =>
  ∃ traced last, Course behave False task context traced last ∧
    last.advance.outcome ≠ .pending ∧ traced.events = events ∧
      last.advance.outcome.error? = error?

/-- Whether the template of a sub-task names a key that the values do not hold. -/
def Definition.Misses (definition : Definition) (values : KeyMap String) : Prop :=
  ∃ template, definition.instruction = some template ∧
    ∃ name ∈ Template.placeholders template, values.contains name = false

/-- Only then its instruction cannot be filled in. -/
theorem Member.expand_eq_error_iff {definition : Definition} {values : KeyMap String} :
    (∃ error, expand definition values = .error error) ↔ definition.Misses values := by
  unfold expand Definition.Misses
  cases definition.instruction with
  | none => simp
  | some template =>
    simp only [Option.some.injEq, exists_eq_left', ← Template.exists_substitute_error_iff]
    cases Template.substitute template values with
    | ok text => simp
    | error error => simp

theorem Member.misses_of_expand {definition : Definition} {values : KeyMap String}
    {error : TaskError} (h : expand definition values = .error error) :
    definition.Misses values := expand_eq_error_iff.1 ⟨error, h⟩

theorem Member.not_misses_of_expand {definition : Definition} {values : KeyMap String}
    {instruction : Option String} (h : expand definition values = .ok instruction) :
    ¬ definition.Misses values := by
  intro hmisses
  obtain ⟨error, herror⟩ := expand_eq_error_iff.2 hmisses
  rw [h] at herror
  cases herror

/-- How a sub-task closes that starts from these values, and whose task comes to what
`yield` says: its events, and why it fails if it does. -/
inductive Yield.Closes (yield : Yield) (terms : Terms) (index : Nat) (definition : Definition)
    (values : KeyMap String) : List Event → Option TaskError → Prop
  /-- Its template misses a key. -/
  | unfilled (error : TaskError) (hmisses : definition.Misses values)
      (hexpand : Member.expand definition values = .error error) :
    yield.Closes terms index definition values [] (some error)
  /-- Its template misses none. It fails if its task does, and else if its output is
  refused. -/
  | begun (instruction : Option String) (events : List Event) (failure? : Option TaskError)
      (hfilled : ¬ definition.Misses values)
      (hexpand : Member.expand definition values = .ok instruction)
      (hyield : yield (terms.session index values instruction) events failure?) :
    yield.Closes terms index definition values events
      (failure?.or (definition.refusal? terms.maxValueBytes events))

theorem Yield.Closes.imp {yield yield' : Yield} {terms : Terms} {index : Nat}
    {definition : Definition} {values : KeyMap String} {events : List Event}
    {error? : Option TaskError} (h : yield.Closes terms index definition values events error?)
    (hyield : ∀ context events error?, yield context events error? →
      yield' context events error?) :
    yield'.Closes terms index definition values events error? := by
  cases h with
  | unfilled error hmisses hexpand => exact .unfilled error hmisses hexpand
  | begun instruction _ failure? hfilled hexpand hyields =>
    exact .begun instruction events failure? hfilled hexpand (hyield _ _ _ hyields)

/-- A sub-task settles as it closes. -/
theorem Settles.closes {behave : σ → Poll σ} {terms : Terms} {index : Nat}
    {definition : Definition} {task : σ} {values : KeyMap String} {settlement : Settlement}
    {traced : Traced σ}
    (h : Settles behave False terms index definition task values settlement traced) :
    ∃ events error?, settlement = .of terms.plan.name definition events error? ∧
      (Yield.ofTask behave task).Closes terms index definition values events error? := by
  cases h with
  | unfilled error hexpand =>
    exact ⟨[], some error, rfl, .unfilled error (Member.misses_of_expand hexpand) hexpand⟩
  | ended instruction _ last hexpand hcourse hended =>
    refine ⟨traced.events, _, rfl, ?_⟩
    rw [Outcome.failure?_eq_or]
    exact .begun instruction _ _ (Member.not_misses_of_expand hexpand) hexpand ⟨traced, last, hcourse, hended, rfl, rfl⟩

/-- A sub-task that has closed: its events, and why it failed if it did. -/
structure Close where
  definition : Definition
  events : List Event
  error? : Option TaskError

/-- What a run has to say of a sub-task that has closed: its events, and then the
event of its failure if it failed. -/
def Close.told (author : String) (close : Close) : List Event :=
  close.events ++
    (close.error?.map fun error => Event.failure author close.definition.name error.message).toList

/-- How a sub-task has settled that has closed so. -/
def Close.stage (author : String) (close : Close) : Definition × Settlement :=
  (close.definition, .of author close.definition close.events close.error?)

theorem Close.events_stage (author : String) (close : Close) :
    (close.stage author).2.events = close.told author := by
  unfold stage told
  cases close.error? with
  | none => exact (List.append_nil _).symm
  | some error => rfl

@[simp] theorem Close.isSuccess_stage (author : String) (close : Close) :
    (close.stage author).2.isSuccess = close.error?.isNone :=
  Settlement.isSuccess_of author close.definition close.events close.error?

/-- If every entry of a list comes from something, the whole list does. -/
theorem exists_map_eq {α β : Type} {f : β → α} {P : Nat → β → Prop} {entries : List α}
    (h : ∀ (index : Nat) (entry : α), entries[index]? = some entry →
      ∃ origin, f origin = entry ∧ P index origin) :
    ∃ origins : List β, origins.map f = entries ∧
      ∀ (index : Nat) (origin : β), origins[index]? = some origin → P index origin := by
  induction entries generalizing P with
  | nil => exact ⟨[], rfl, fun _ _ hget => by cases hget⟩
  | cons entry rest ih =>
    obtain ⟨first, rfl, hfirst⟩ := h 0 entry rfl
    obtain ⟨origins, rfl, horigins⟩ := ih fun index entry hget => h (index + 1) entry hget
    refine ⟨first :: origins, rfl, fun index origin hget => ?_⟩
    cases index with
    | zero => exact Option.some.inj hget ▸ hfirst
    | succ index => exact horigins index origin hget

/-! ## What runs come to -/

namespace Run

/-- What a run of so many sub-tasks comes to if these have closed so: its status, and
its message. -/
inductive ComesTo (total : Nat) : Order → List Close → RunStatus → Option String → Prop
  /-- One after another, all have succeeded. -/
  | completed (closes : List Close) (htotal : closes.length = total)
      (hsuccess : ∀ close ∈ closes, close.error? = none) :
    ComesTo total .sequential closes .completed none
  /-- One after another, all have succeeded up to the last, and no further one was begun. -/
  | stopped (done : List Close) (close : Close) (error : TaskError)
      (hsuccess : ∀ close ∈ done, close.error? = none) (hfails : close.error? = some error) :
    ComesTo total .sequential (done ++ [close]) .failed
      (some (stoppedMessage close.definition error.message))
  /-- Side by side, there are some and all have failed. -/
  | allFailed (workers : Nat) (closes : List Close) (htotal : closes.length = total)
      (hsome : closes ≠ []) (hfail : ∀ close ∈ closes, close.error?.isSome) :
    ComesTo total (.parallel workers) closes .failed (some Report.allFailedMessage)
  /-- Side by side, there are none or one has succeeded. -/
  | fannedOut (workers : Nat) (closes : List Close) (htotal : closes.length = total)
      (hsuccess : closes = [] ∨ ∃ close ∈ closes, close.error? = none) :
    ComesTo total (.parallel workers) closes .completed none

/-- A report is composed of how sub-tasks have closed whose tasks come to what
`yields` says, each begun from values of which `V` holds. -/
structure Composes (terms : Terms) (yields : List (Definition × Yield))
    (V : Nat → KeyMap String → Prop) (closes : List Close) (report : Report) : Prop where
  closed : ∀ (index : Nat) (close : Close), closes[index]? = some close → ∃ yield values,
    yields[index]? = some (close.definition, yield) ∧ V index values ∧
      yield.Closes terms index close.definition values close.events close.error?
  events : report.events = closes.flatMap (·.told terms.plan.name)
  succeeded : report.succeeded = closes.countP (·.error?.isNone)
  failed : report.failed = closes.countP (·.error?.isSome)
  comesTo : ComesTo yields.length terms.plan.order closes report.status report.error

/-- What the tasks come to may be told in other words. -/
theorem Composes.imp {terms : Terms} {yields yields' : List (Definition × Yield)}
    {V : Nat → KeyMap String → Prop} {closes : List Close} {report : Report}
    (h : Composes terms yields V closes report)
    (hyields : List.Forall₂ Yield.Implies yields yields') :
    Composes terms yields' V closes report where
  closed := by
    intro index close hget
    obtain ⟨yield, values, hyield, hvalues, hcloses⟩ := h.closed index close hget
    obtain ⟨yield', hyield', himp⟩ := Yield.getElem?_of_forall₂ hyields hyield
    exact ⟨yield', values, hyield', hvalues, hcloses.imp himp⟩
  events := h.events
  succeeded := h.succeeded
  failed := h.failed
  comesTo := hyields.length_eq ▸ h.comesTo

section Ends

variable {order : Order} {id author : String} {floor : Floor} {members : List (Member σ)}
  {report : Report} {state : KeyMap String} {closes : List Close}

theorem succeeded_eq_countP_closes (h : finished members = closes.map (·.stage author)) :
    succeeded members = closes.countP (·.error?.isNone) := by
  rw [succeeded_eq_countP_finished, h, List.countP_map]
  simp [Function.comp_def]

theorem failed_eq_countP_closes (h : finished members = closes.map (·.stage author)) :
    failed members = closes.countP (·.error?.isSome) := by
  rw [failed_eq_countP_finished, h, List.countP_map]
  simp [Function.comp_def]

/-- A sub-task that has settled with this error has closed with a failure so worded. -/
theorem exists_failure_of_stage {close : Close} {definition : Definition} {events : List Event}
    {error : String} (h : close.stage author = (definition, ⟨events, some error⟩)) :
    close.definition = definition ∧
      ∃ failure, close.error? = some failure ∧ failure.message = error := by
  obtain ⟨rfl, hsettlement⟩ := Prod.mk.inj h
  refine ⟨rfl, ?_⟩
  cases hfails : close.error? with
  | none => simp [hfails, Settlement.of] at hsettlement
  | some failure =>
    rw [hfails] at hsettlement
    exact ⟨failure, rfl, by simpa [Settlement.of] using congrArg Settlement.error hsettlement⟩

/-- Members that have settled side by side come to what the sub-tasks do that have closed so. -/
theorem comesTo_parallel {workers : Nat} (hover : Over (.parallel workers) members)
    (h : finished members = closes.map (·.stage author)) :
    ComesTo members.length (.parallel workers) closes
      (verdict (.parallel workers) members).status
      (verdict (.parallel workers) members).message := by
  have htotal : closes.length = members.length := by
    rw [← length_finished_of_all hover.settled, h, List.length_map]
  rw [verdict, succeeded_eq_countP_closes h, failed_eq_countP_closes h]
  split
  next hfail =>
    refine .allFailed workers closes htotal ?_ fun close hmem => ?_
    · rintro rfl
      simp at hfail
    · have hnone := List.countP_eq_zero.1 hfail.2 close hmem
      simpa [Option.isSome_iff_ne_none] using hnone
  next hnot =>
    refine .fannedOut workers closes htotal ?_
    by_contra hfail
    simp only [not_or, not_exists, not_and] at hfail
    obtain ⟨hsome, hfail⟩ := hfail
    obtain ⟨close, hmem⟩ := List.exists_mem_of_ne_nil _ hsome
    refine hnot ⟨List.countP_pos_iff.2 ⟨close, hmem, ?_⟩,
      List.countP_eq_zero.2 fun close hmem => ?_⟩
    · exact Option.isSome_iff_ne_none.2 (hfail close hmem)
    · simpa using hfail close hmem

/-- So do those that have settled one after another. -/
theorem comesTo_sequential (hturn : InTurn (·.isSuccess) members)
    (hover : Over .sequential members) (h : finished members = closes.map (·.stage author)) :
    ComesTo members.length .sequential closes (verdict .sequential members).status
      (verdict .sequential members).message := by
  rcases hturn.verdict_cases hover with ⟨hverdict, htotal, hall⟩ |
    ⟨done, definition, events, error, hverdict, hdone, hbefore⟩
  · rw [hverdict]
    refine .completed closes (by rw [← htotal, h, List.length_map]) fun close hmem => ?_
    have hsuccess := hall _ (h ▸ List.mem_map_of_mem hmem)
    simpa using hsuccess
  · obtain ⟨earlier, latest, rfl, hearlier, hlatest⟩ :=
      List.map_eq_append_iff.1 (h.symm.trans hdone)
    obtain ⟨close, rfl, hclose⟩ := List.map_eq_singleton_iff.1 hlatest
    obtain ⟨rfl, failure, hfails, rfl⟩ := exists_failure_of_stage hclose
    rw [hverdict]
    refine .stopped earlier close failure (fun close hmem => ?_) hfails
    have hsuccess := hbefore _ (hearlier ▸ List.mem_map_of_mem hmem)
    simpa using hsuccess

/-- The report of a run is composed of how the sub-tasks have closed that have settled. -/
theorem Closing.composes {terms : Terms} {yields : List (Definition × Yield)}
    {V : Nat → KeyMap String → Prop}
    (h : Closing terms.plan.order id floor members report state)
    (hturn : terms.plan.order = .sequential → InTurn (·.isSuccess) members)
    (hcloses : finished members = closes.map (·.stage terms.plan.name))
    (hlength : yields.length = members.length)
    (hclosed : ∀ (index : Nat) (close : Close), closes[index]? = some close → ∃ yield values,
      yields[index]? = some (close.definition, yield) ∧ V index values ∧
        yield.Closes terms index close.definition values close.events close.error?) :
    Composes terms yields V closes report where
  closed := hclosed
  events := by
    rw [h.events, events_eq_flatMap_finished, hcloses, List.flatMap_map]
    simp only [Close.events_stage]
  succeeded := h.succeeded.trans (succeeded_eq_countP_closes hcloses)
  failed := h.failed.trans (failed_eq_countP_closes hcloses)
  comesTo := by
    rw [h.status, h.error, hlength]
    have hover := h.isOver
    cases horder : terms.plan.order with
    | parallel workers => exact comesTo_parallel (horder ▸ hover) hcloses
    | sequential => exact comesTo_sequential (hturn horder) (horder ▸ hover) hcloses

end Ends

section Histories

variable {behave : σ → Poll σ} {workflow : Workflow σ} {context : Context}
  {last : Stretch (Traced σ)} {past : List (Stretch (Traced σ))} {result : Except RunError Report}

/-- Every member that has settled has closed so, having started from such values. -/
theorem exists_closes {terms : Terms} {V : Nat → KeyMap String → Prop}
    {members : List (Member (Traced σ))} {passes : Settlement → Bool} (h : InTurn passes members)
    (hstanding : Standing behave False terms workflow V members) :
    ∃ closes : List Close, closes.map (·.stage terms.plan.name) = finished members ∧
      ∀ (index : Nat) (close : Close), closes[index]? = some close → ∃ yield values,
        (workflow.members.map fun member => (member.1, Yield.ofTask behave member.2))[index]? =
            some (close.definition, yield) ∧ V index values ∧
          yield.Closes terms index close.definition values close.events close.error? := by
  refine exists_map_eq ?_
  rintro index ⟨definition, settlement⟩ hstage
  obtain ⟨member, hget, rfl, hsettled⟩ := settledAt_iff.1 (h.settledAt_iff_getElem?.2 hstage)
  obtain ⟨task, htask, hstands⟩ := hstanding index member hget
  obtain ⟨values, hvalues, hsettles⟩ := hstands.settles hsettled
  obtain ⟨events, error?, rfl, hcloses⟩ := hsettles.closes
  exact ⟨⟨member.definition, events, error?⟩, rfl, .ofTask behave task, values,
    by rw [List.getElem?_map, htask, Option.map_some], hvalues, hcloses⟩

/-- A run with a ledger of its own, or without output keys, ends with a report, if it
ends, as its members have settled, each of which has started from the values that it
found. -/
theorem History.closing (hcheck : workflow.check = .ok ())
    (hown : workflow.isKeyed → workflow.plan.sharesLedger = false)
    (h : History (Traced.poll behave) context (ofWorkflow workflow.traced) (last :: past))
    (hresult : last.step.result = some result) :
    let terms := workflow.terms workflow.plan.maxValueBytes context
    ∃ floor report, result = .ok report ∧
      Serving behave workflow workflow.plan.maxValueBytes context floor last.step.run.members ∧
      Standing behave False terms workflow
        (Found terms (log (Traced.poll behave) context (ofWorkflow workflow.traced) (last :: past)))
        last.step.run.members ∧
      (workflow.plan.order = .sequential → InTurn (·.isSuccess) last.step.run.members) ∧
      (workflow.isKeyed → floor.state = last.state) ∧
      Closing workflow.plan.order context.session.id floor last.step.run.members report
        last.step.state := by
  intro terms
  obtain ⟨-, hstretches⟩ := h.standing
    (P := fun current floor members =>
      (workflow.plan.order = .sequential → InTurn (·.isSuccess) members) ∧
        (workflow.isKeyed → floor.state = current.state))
    (S := fun _ => True) (R := fun _ _ => True) False hcheck
    (fun hkeyed => guarded_of_own behave (hown hkeyed) context.session.id (last :: past))
    (fun _ _ => trivial) (List.pairwise_of_forall fun _ _ => trivial).isChain
    (fun _ _ _ halone => halone.elim)
    (fun _ _ _ _ hopened => ⟨fun _ => inTurn_ofWorkflow _ workflow.traced,
      fun _ => state_open hopened⟩)
    (fun visit hmem hserving _ hP => by
      obtain ⟨stretch, -, hof⟩ := h.of_mem_log hmem
      refine ⟨fun horder => (hP.1 horder).visited hof.visited.onward
        fun _ => h.front_sequential horder visit hmem, fun hkeyed => ?_⟩
      exact ((hserving.underway hkeyed).toApart.visited hof).2.state.trans (hP.2 hkeyed))
    (fun _ _ _ _ _ hP _ => ⟨hP.1, fun _ => rfl⟩)
  obtain ⟨floor, report, ⟨hserving, hstanding, hturn, hstate⟩, rfl, hclosing⟩ :=
    (hstretches last List.mem_cons_self).closing (fun _ _ hP => hP.1)
      (fun _ _ hP horder => (hP.2.2.1 horder).failed_le_one) hresult (.inl ⟨hcheck, hown⟩)
  exact ⟨floor, report, rfl, hserving, hstanding, hturn, hstate, hclosing⟩

/-- A run with a ledger of its own ends with a report, if it ends, and this is composed
of how its sub-tasks have closed. Each has started from the values that it found. -/
theorem History.composes (hcheck : workflow.check = .ok ())
    (hown : workflow.plan.sharesLedger = false)
    (h : History (Traced.poll behave) context (ofWorkflow workflow.traced) (last :: past))
    (hresult : last.step.result = some result) :
    let terms := workflow.terms workflow.plan.maxValueBytes context
    ∃ report closes, result = .ok report ∧
      Composes terms (workflow.members.map fun member => (member.1, .ofTask behave member.2))
        (Found terms (log (Traced.poll behave) context (ofWorkflow workflow.traced) (last :: past)))
        closes report := by
  intro terms
  obtain ⟨floor, report, rfl, hserving, hstanding, hturn, -, hclosing⟩ :=
    h.closing hcheck (fun _ => hown) hresult
  generalize last.step.run.members = members at hserving hstanding hturn hclosing
  obtain ⟨passes, hin⟩ : ∃ passes, InTurn passes members := by
    rcases hclosing.isOver with hall | ⟨hsequential, -⟩
    · exact ⟨_, inTurn_of_all hall⟩
    · exact ⟨_, hturn hsequential⟩
  obtain ⟨closes, hcloses, hclosed⟩ := exists_closes hin hstanding
  exact ⟨report, closes, rfl, hclosing.composes hturn hcloses.symm
    (by rw [List.length_map, hserving.carries.length]) hclosed⟩

end Histories

end Run

end Coordination
