import Coordination.Proofs.Run.Places

/-!
# What sub-tasks start from

A sub-task of a parallel run with output keys starts from a snapshot: the values
of the run's session, overlaid with the outputs that were published before
(`Published`). It is told nothing of the outputs that are published later. What
is published stays as it is, so later snapshots hold all that earlier ones do
(`starting_snapshots`).

* `Member.Onward`: what a visit keeps of a member;
* `Run.Onward.published`: published outputs stay;
* `Run.Apart.startsFrom`: a start, from the values in its snapshot;
* `Run.Onward.worksIn`: the session of a member after its start.
-/

namespace Coordination

variable {σ : Type}

/-! ## What stays -/

/-- What may become of a member later on: its task goes on, and if it has
settled, it stays so. -/
structure Member.Onward (before after : Member (Traced σ)) : Prop where
  definition : after.definition = before.definition
  past : before.process.past <+: after.process.past
  settled : ∀ settlement, before.phase.settlement? = some settlement →
    after.phase.settlement? = some settlement

theorem Member.Onward.refl (member : Member (Traced σ)) : member.Onward member :=
  ⟨rfl, List.prefix_rfl, fun _ h => h⟩

theorem Member.Onward.trans {a b c : Member (Traced σ)} (h : a.Onward b) (h' : b.Onward c) :
    a.Onward c :=
  ⟨h'.definition.trans h.definition, h.past.trans h'.past,
    fun settlement hs => h'.settled settlement (h.settled settlement hs)⟩

theorem Member.Visited.onward {scope : Scope} {index : Nat} {floor : Floor}
    {member : Member (Traced σ)} {behave : σ → Poll σ} {after : Floor × Member (Traced σ)}
    (h : Visited scope index (Traced.poll behave member.process) floor member after) :
    member.Onward after.2 where
  definition := h.polled.1
  past := by
    rcases h.polled.2 with hsame | ⟨turn, context, world, hpolled⟩
    · exact hsame ▸ List.prefix_rfl
    · rw [hpolled]
      exact List.prefix_append _ _
  settled := by
    intro settlement hsettled
    cases h with
    | stays => exact hsettled
    | waits _ hphase => rw [hphase] at hsettled; cases hsettled
    | starts _ _ hphase =>
      rcases hphase with hphase | hphase <;> rw [hphase] at hsettled <;> cases hsettled
    | proceeds _ _ _ hphase => rw [hphase] at hsettled; cases hsettled

namespace Run

/-- What may become of members later on. -/
def Onward (before after : List (Member (Traced σ))) : Prop :=
  ∀ (index : Nat) (member : Member (Traced σ)), before[index]? = some member →
    ∃ later, after[index]? = some later ∧ member.Onward later

theorem Onward.refl (members : List (Member (Traced σ))) : Onward members members :=
  fun _ member hget => ⟨member, hget, .refl member⟩

theorem Onward.trans {a b c : List (Member (Traced σ))} (h : Onward a b) (h' : Onward b c) :
    Onward a c := by
  intro index member hget
  obtain ⟨middle, hmiddle, hfirst⟩ := h index member hget
  obtain ⟨later, hlater, hsecond⟩ := h' index middle hmiddle
  exact ⟨later, hlater, hfirst.trans hsecond⟩

theorem Onward.settledAt {before after : List (Member (Traced σ))} (h : Onward before after)
    {index : Nat} {definition : Definition} {settlement : Settlement}
    (hsettled : SettledAt before index definition settlement) :
    SettledAt after index definition settlement := by
  obtain ⟨member, hget, rfl, hs⟩ := settledAt_iff.1 hsettled
  obtain ⟨later, hlater, honward⟩ := h index member hget
  exact settledAt_iff.2 ⟨later, hlater, honward.definition, honward.settled settlement hs⟩

end Run

theorem Visit.Of.onward {behave : σ → Poll σ} {plan : Plan} {context : Context}
    {stretch : Stretch (Traced σ)} {visit : Visit (Traced σ)}
    (h : visit.Of (Traced.poll behave) plan context stretch) :
    Run.Onward visit.members visit.left := by
  intro index member hget
  rw [visit.left_eq_set, List.getElem?_set]
  split
  next heq =>
    subst heq
    obtain rfl : visit.member = member := Option.some.inj (visit.getElem?_members.symm.trans hget)
    have hlt := (List.getElem?_eq_some_iff.1 hget).1
    exact ⟨visit.after.2, if_pos hlt, h.visited.onward⟩
  next => exact ⟨member, hget, .refl member⟩

/-! ## Outputs -/

/-- Whether these are the outputs of the members that have succeeded with an
output key, and no others. -/
def Published (members : List (Member σ)) (outputs : KeyMap String) : Prop :=
  ∀ key value, outputs.get? key = some value ↔
    ∃ index definition settlement, SettledAt members index definition settlement ∧
      settlement.isSuccess ∧ definition.outputKey = some key ∧ textOf settlement.events = value

/-- Published outputs stay as they are. -/
theorem Run.Onward.published {before after : List (Member (Traced σ))} (h : Run.Onward before after)
    {outputs further : KeyMap String} (houtputs : Published before outputs)
    (hfurther : Published after further) {key value : String}
    (hget : outputs.get? key = some value) : further.get? key = some value := by
  obtain ⟨index, definition, settlement, hsettled, htext⟩ := (houtputs key value).1 hget
  exact (hfurther key value).2 ⟨index, definition, settlement, h.settledAt hsettled, htext⟩

/-- A run under way finds the outputs of its members in its ledger. -/
theorem Run.Underway.published {behave : σ → Poll σ} {workflow : Workflow σ} {id : String}
    {floor : Floor} {members : List (Member (Traced σ))}
    (h : Run.Underway behave workflow id floor members) :
    ∃ outputs, floor.ledger.outputsOf id = .ok outputs ∧ Published members outputs := by
  obtain ⟨record, hrecord, haccord⟩ := h.accord
  exact ⟨record.outputs, Ledger.outputsOf_of_get? hrecord, haccord.outputs⟩

/-! ## Starts -/

/-- The session in which the visited member starts, if it holds these values. -/
def Visit.session (visit : Visit σ) (values : KeyMap String) (instruction : Option String) :
    Context :=
  (visit.scope.context.child (Context.childId visit.scope.context.session.id visit.index)
    values).withInstruction instruction

/-- Whether the visited member starts from these values: its instruction is
filled in from them, and its first stretch is in a session that holds them. It
fails at once if its instruction cannot be filled in. -/
def Visit.StartsFrom (visit : Visit (Traced σ)) (values : KeyMap String) : Prop :=
  match Member.expand visit.member.definition values with
  | .ok instruction => ∃ first, visit.after.2.process.past = [first] ∧
      first.context = visit.session values instruction
  | .error error => visit.after.2.process.past = [] ∧ visit.after.2.phase = .settled
      ⟨[.failure visit.scope.plan.name visit.member.definition.name error.message],
        some error.message⟩

/-- Whether a member, if it is under way, works in a session that was `start` at
first and in which nobody but its task has written. -/
def Member.WorksIn (start : Context) (member : Member (Traced σ)) : Prop :=
  ∀ access events, member.phase = .running access events →
    ∃ draft current, access = .own draft current ∧ Confined start member.process.past current

namespace Run

variable {behave : σ → Poll σ} {workflow : Workflow σ} {context : Context}

/-- A member that starts does so from the values of the run's session and the
outputs that were published. -/
theorem Apart.startsFrom {visit : Visit (Traced σ)} {stretch : Stretch (Traced σ)}
    (h : Apart behave workflow visit.floor visit.members)
    (hof : visit.Of (Traced.poll behave) workflow.plan context stretch) (hstarts : visit.starts)
    {outputs : KeyMap String}
    (houtputs : visit.floor.ledger.outputsOf visit.scope.context.session.id = .ok outputs) :
    visit.StartsFrom (visit.floor.state.overlay outputs) := by
  have hvisited := hof.visited
  have hsecluded := h.secluded _ (List.mem_of_getElem? visit.getElem?_members)
  have hkeyed := h.keyed
  rw [Visit.starts, Bool.and_eq_true, Bool.not_eq_true'] at hstarts
  clear h hof
  obtain ⟨scope, front, member, rest, floor, after⟩ := visit
  dsimp only [Visit.index] at *
  -- Of all that a visit can be, only a start lets a member start.
  cases hvisited with
  | stays => rw [hstarts.1] at hstarts; cases hstarts.2
  | waits => cases hstarts.2
  | proceeds access events _ hphase => rw [hphase] at hstarts; cases hstarts.1
  | starts entered left hphase hentered hleft =>
    have hfresh := hsecluded.fresh hphase
    rw [← hentered.ledger] at houtputs
    have hbegins := Member.start_begins scope front.length (Traced.poll behave member.process)
      entered member (hentered.keyed.trans hkeyed)
    unfold Visit.StartsFrom
    simp only [← hentered.state]
    cases hbegins with
    | refused error hreason _ hafter =>
      rcases hreason with ⟨refusal, hrefused, -⟩ | ⟨outputs', hread, hexpand⟩
      · rw [houtputs] at hrefused
        cases hrefused
      · obtain rfl : outputs = outputs' := by simpa [houtputs] using hread
        rw [hexpand, hafter]
        exact ⟨hfresh, rfl⟩
    | given outputs' instruction draft current world hread hexpand hcontext hworks =>
      obtain rfl : outputs = outputs' := by simpa [houtputs] using hread
      rw [hexpand, hworks.process]
      have hpast : (Traced.poll behave member.process (scope.turn.below front.length) current
          world).process.past = [⟨_, current, world, _⟩] := congrArg (· ++ [_]) hfresh
      exact ⟨_, hpast, hcontext⟩

/-- Nobody but its task writes into the session of a member, later on. -/
theorem Onward.worksIn {before after : List (Member (Traced σ))} (h : Onward before after)
    {index : Nat} {member later : Member (Traced σ)} (hget : before[index]? = some member)
    (hlater : after[index]? = some later) (hsecluded : later.Secluded)
    {first : Exchange σ} (hfirst : member.process.past = [first]) :
    later.WorksIn first.context := by
  intro access events hphase
  obtain ⟨found, hfound, honward⟩ := h index member hget
  obtain rfl : later = found := Option.some.inj (hlater.symm.trans hfound)
  obtain ⟨draft, start, current, rfl, hconfined⟩ := hsecluded.confined hphase
  have hhead : later.process.past.head? = some first := by
    obtain ⟨rest, hrest⟩ := honward.past
    rw [← hrest, hfirst]
    rfl
  obtain rfl := hconfined.context_of_head?.2 first hhead
  exact ⟨draft, current, rfl, hconfined⟩

/-- What a visit leaves goes on at the later visits. -/
theorem History.onward {history : List (Stretch (Traced σ))}
    {before later : List (Visit (Traced σ))} {visit : Visit (Traced σ)}
    (h : History (Traced.poll behave) context (ofWorkflow workflow.traced) history)
    (hlog : log (Traced.poll behave) context (ofWorkflow workflow.traced) history =
      before ++ visit :: later) :
    ∀ next ∈ later, Onward visit.left next.members := by
  have hconsecutive := h.consecutive_log
  rw [hlog] at hconsecutive
  refine hconsecutive.of_append.2.2.relates Onward.refl (fun _ _ _ => Onward.trans) ?_
  intro next hmem
  obtain ⟨stretch, -, hof⟩ := h.of_mem_log (show next ∈ log _ _ _ _ by simp [hlog, hmem])
  exact hof.onward

/-- So it does up to where the history has come. -/
theorem History.onward_latest {history : List (Stretch (Traced σ))} {visit : Visit (Traced σ)}
    (h : History (Traced.poll behave) context (ofWorkflow workflow.traced) history)
    (hmem : visit ∈ log (Traced.poll behave) context (ofWorkflow workflow.traced) history) :
    Onward visit.left (latest (ofWorkflow workflow.traced) history).members := by
  obtain ⟨before, later, hlog⟩ := List.append_of_mem hmem
  have hconsecutive := h.consecutive_log
  rw [hlog] at hconsecutive
  rw [h.members_latest, hlog, Visit.membersLeft_append, Visit.membersLeft_cons]
  refine hconsecutive.of_append.2.2.relates_left Onward.refl (fun _ _ _ => Onward.trans) ?_
  intro next hmem
  obtain ⟨stretch, -, hof⟩ := h.of_mem_log (show next ∈ log _ _ _ _ by simp [hlog, hmem])
  exact hof.onward

/-- Sub-tasks of a parallel run start from exact snapshots. The session of one
that starts holds the values of the run's session and, over them, the outputs
that were published before, and its instruction is filled in from the same.
From then on nobody but the sub-task writes there. Whatever was published is
found unchanged later on. All but `workers - 1` of those that started before
have settled. -/
theorem starting_snapshots {workers : Nat} {history : List (Stretch (Traced σ))}
    {before later : List (Visit (Traced σ))} {visit : Visit (Traced σ)}
    (horder : workflow.plan.order = .parallel workers) (hcheck : workflow.check = .ok ())
    (hkeyed : workflow.isKeyed = true)
    (h : History (Traced.poll behave) context (ofWorkflow workflow.traced) history)
    (hundisturbed : workflow.plan.sharesLedger → Undisturbed context.session.id history)
    (hlog : log (Traced.poll behave) context (ofWorkflow workflow.traced) history =
      before ++ visit :: later) (hstarts : visit.starts) :
    ∃ outputs, visit.floor.ledger.outputsOf context.session.id = .ok outputs ∧
      Published visit.members outputs ∧
      visit.StartsFrom (visit.floor.state.overlay outputs) ∧
      (∀ first, visit.after.2.process.past = [first] → ∀ next ∈ later,
        next.index = visit.index → next.member.WorksIn first.context) ∧
      (∀ next ∈ later, ∃ further, next.floor.ledger.outputsOf context.session.id = .ok further ∧
        ∀ key value, outputs.get? key = some value → further.get? key = some value ∧
          (next.floor.state.overlay further).get? key = some value) ∧
      before.countP Visit.starts + 1 ≤ (settlements visit.members).length + workers := by
  have hunderway := (h.underway hcheck hkeyed hundisturbed).1
  have hsettled := h.settled_of_starts horder hkeyed hlog hstarts
  have hlater := h.onward hlog
  obtain ⟨stretch, -, hof⟩ := h.of_mem_log (show visit ∈ log _ _ _ _ by simp [hlog])
  rw [hlog] at hunderway
  have hunder := hunderway visit (by simp)
  obtain ⟨outputs, houtputs, hpublished⟩ := hunder.published
  refine ⟨outputs, houtputs, hpublished, ?_, ?_, ?_, hsettled⟩
  · have hid : visit.scope.context.session.id = context.session.id := by rw [hof.scope]; rfl
    exact hunder.startsFrom hof hstarts (hid.symm ▸ houtputs)
  · intro first hfirst next hmem hindex
    have hget : visit.left[visit.index]? = some visit.after.2 := by
      simp [Visit.left, Visit.index]
    have hsecluded := (hunderway next (by simp [hmem])).secluded _
      (List.mem_of_getElem? next.getElem?_members)
    exact (hlater next hmem).worksIn hget (hindex ▸ next.getElem?_members) hsecluded hfirst
  · intro next hmem
    obtain ⟨further, hfurther, hpublished'⟩ := (hunderway next (by simp [hmem])).published
    have honward := hof.onward.trans (hlater next hmem)
    refine ⟨further, hfurther, fun key value hget => ?_⟩
    have hstays := honward.published hpublished hpublished' hget
    exact ⟨hstays, by rw [KeyMap.get?_overlay, hstays, Option.some_or]⟩

/-- Two sub-tasks and one slot. The output of the first goes into the
instruction of the second, which waits before it ends. -/
def dispatch : Workflow Leaf where
  plan := ⟨"dispatch", "default", .parallel 1, 100, true⟩
  members :=
    [(⟨"one", none, some "a", none⟩, .ofBody (.emit (.text "one" "sun") .finish)),
      (⟨"two", none, some "b", some "after \x7ba\x7d"⟩,
        .ofBody (.pause 5 (.emit (.text "two" "ice") .finish)))]

/-- The session of a dispatch. -/
def dispatchContext : Context := ⟨⟨"s", "u", "a", .empty⟩, 0, none⟩

/-- The first stretch of a dispatch: both start. -/
def dispatchFirst : Stretch (Traced Leaf) :=
  ⟨.at 0, .empty, .start 100, (ofWorkflow dispatch.traced).give (Traced.poll Leaf.poll) (.at 0)
    (dispatchContext.withState .empty) (.start 100)⟩

/-- The second, when the second sub-task has waited long enough. -/
def dispatchSecond : Stretch (Traced Leaf) :=
  let world := { dispatchFirst.step.world with clock := 5 }
  ⟨.at 5, .empty, world, dispatchFirst.step.run.give (Traced.poll Leaf.poll) (.at 5)
    (dispatchContext.withState .empty) world⟩

/-- The visits of a dispatch, two in each stretch. -/
def dispatchLog : List (Visit (Traced Leaf)) :=
  log (Traced.poll Leaf.poll) dispatchContext (ofWorkflow dispatch.traced)
    [dispatchSecond, dispatchFirst]

theorem dispatch_undisturbed : Undisturbed "s" [dispatchSecond, dispatchFirst] where
  between := List.isChain_cons_cons.2 ⟨rfl, List.isChain_singleton _⟩
  within := by decide +kernel

theorem starting_snapshots_dispatch : ∃ before visit later outputs,
    dispatchLog = before ++ visit :: later ∧ visit.index = 1 ∧ before.countP Visit.starts = 1 ∧
      Published visit.members outputs ∧ outputs.get? "a" = some "sun" ∧
      visit.StartsFrom (visit.floor.state.overlay outputs) ∧
      2 ≤ (settlements visit.members).length + 1 := by
  have h : History (Traced.poll Leaf.poll) dispatchContext (ofWorkflow dispatch.traced)
      [dispatchSecond, dispatchFirst] := .next (.first _ _ _) rfl _ _ _
  obtain ⟨visit, hvisit⟩ : ∃ visit, dispatchLog[1]? = some visit := ⟨_, rfl⟩
  obtain ⟨hlt, hget⟩ := List.getElem?_eq_some_iff.1 hvisit
  have hlog : dispatchLog = dispatchLog.take 1 ++ visit :: dispatchLog.drop 2 := by
    rw [← hget, ← List.drop_eq_getElem_cons hlt, List.take_append_drop]
  have hseen : dispatchLog[1]?.map (fun visit => (visit.starts, visit.index,
      (visit.floor.ledger.outputsOf "s").toOption.bind (·.get? "a"))) =
      some (true, 1, some "sun") := by decide +kernel
  simp only [hvisit, Option.map_some, Option.some.injEq, Prod.mk.injEq] at hseen
  obtain ⟨hstarts, hindex, hsun⟩ := hseen
  have hcount : (dispatchLog.take 1).countP Visit.starts = 1 := by decide +kernel
  obtain ⟨outputs, houtputs, hpublished, hfrom, -, -, hsettled⟩ :=
    starting_snapshots rfl rfl rfl h (fun _ => dispatch_undisturbed) hlog hstarts
  rw [show dispatchContext.session.id = "s" from rfl] at houtputs
  rw [houtputs] at hsun
  rw [hcount] at hsettled
  exact ⟨_, visit, _, outputs, hlog, hindex, hcount, hpublished, hsun, hfrom, hsettled⟩

end Run

end Coordination
