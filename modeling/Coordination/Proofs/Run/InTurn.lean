import Coordination.Proofs.Run.Publication
import Coordination.Proofs.Run.Serving
import Coordination.Proofs.Run.Snapshots

/-!
# Members in turn

The members of a run work in turn if each starts only when all before it have
settled, one after another with success (`Run.InTurn`). Then each starts from
what those before it have left: their outputs over the values of the run's
session, or the values of the session that they share (`Run.valuesAfter`). What
is found there, what is recorded and what the tasks do can all be told from the
members alone (`Run.Turns`).

* `outputsOf`, `Run.Accord.outputs_eq_outputsOf`: the outputs of those that have settled;
* `Traced.leaves`, `Run.stateAfter`: the values that tasks leave in a session that they share;
* `Run.InTurn.visited`, `Run.Turns.visited`: a visit keeps members in turn;
* `Run.History.turns`: so they are in every run in which none starts out of turn.
-/

namespace Coordination

variable {σ : Type}

/-! ## Outputs -/

/-- The output of a sub-task that has settled so, with its key, if it has one:
it has succeeded and has a key. -/
def Settlement.output? (settlement : Settlement) (definition : Definition) :
    Option (String × String) :=
  if settlement.isSuccess then
    definition.outputKey.map fun key => (key, textOf settlement.events)
  else none

theorem Settlement.output?_eq_some_iff {settlement : Settlement} {definition : Definition}
    {key value : String} : settlement.output? definition = some (key, value) ↔
      settlement.isSuccess ∧ definition.outputKey = some key ∧
        textOf settlement.events = value := by
  simp [output?]

/-- The outputs of sub-tasks that have settled so. -/
def outputsOf (settled : List (Definition × Settlement)) : KeyMap String :=
  .ofList (settled.filterMap fun (definition, settlement) => settlement.output? definition)

namespace Run

/-- The members that have settled, and how they did. -/
def finished (members : List (Member σ)) : List (Definition × Settlement) :=
  members.filterMap fun member =>
    member.phase.settlement?.map fun settlement => (member.definition, settlement)

theorem finished_append (members rest : List (Member σ)) :
    finished (members ++ rest) = finished members ++ finished rest := by
  simp [finished]

theorem finished_eq_nil {members : List (Member σ)}
    (h : ∀ member ∈ members, member.phase.settlement? = none) : finished members = [] := by
  rw [finished, List.filterMap_eq_nil_iff]
  intro member hmem
  rw [h member hmem, Option.map_none]

theorem mem_finished {members : List (Member σ)} {definition : Definition}
    {settlement : Settlement} : (definition, settlement) ∈ finished members ↔
      ∃ index, SettledAt members index definition settlement := by
  simp only [finished, List.mem_filterMap, Option.map_eq_some_iff, Prod.mk.injEq, settledAt_iff]
  constructor
  · rintro ⟨member, hmem, s, hs, rfl, rfl⟩
    obtain ⟨index, hget⟩ := List.mem_iff_getElem?.1 hmem
    exact ⟨index, member, hget, rfl, hs⟩
  · rintro ⟨index, member, hget, rfl, hs⟩
    exact ⟨member, List.mem_of_getElem? hget, settlement, hs, rfl, rfl⟩

/-- No two members that have settled publish under the same key. -/
theorem nodup_outputs {members : List (Member σ)}
    (h : DistinctKeys (members.map (·.definition))) :
    (((finished members).filterMap fun (definition, settlement) =>
      settlement.output? definition).map (·.1)).Nodup := by
  rw [List.Nodup, List.pairwise_map, List.pairwise_filterMap, finished, List.pairwise_filterMap,
    List.pairwise_iff_getElem]
  intro i j hi hj hlt
  simp only [Option.map_eq_some_iff]
  rintro _ ⟨s, -, rfl⟩ _ ⟨s', -, rfl⟩ ⟨key, _⟩ hkey ⟨key', _⟩ hkey' rfl
  rw [Settlement.output?_eq_some_iff] at hkey hkey'
  refine absurd (h i j _ _ key ?_ ?_ hkey.2.1 hkey'.2.1) (by omega)
  · rw [List.getElem?_map, List.getElem?_eq_getElem hi, Option.map_some]
  · rw [List.getElem?_map, List.getElem?_eq_getElem hj, Option.map_some]

/-- A record in accord with its members holds their outputs. -/
theorem Accord.outputs_eq_outputsOf {plan : Plan} {id : String}
    {members : List (Member (Traced σ))} {record : Record} (h : Accord plan id members record) :
    record.outputs = outputsOf (finished members) := by
  refine KeyMap.ext_get? fun key => Option.ext fun value => ?_
  rw [h.outputs, outputsOf, KeyMap.get?_ofList (nodup_outputs h.distinct)]
  simp only [List.mem_filterMap, Prod.exists, mem_finished, Settlement.output?_eq_some_iff]
  constructor
  · rintro ⟨index, d, s, hs, houtput⟩
    exact ⟨d, s, ⟨index, hs⟩, houtput⟩
  · rintro ⟨d, s, ⟨index, hs⟩, houtput⟩
    exact ⟨index, d, s, hs, houtput⟩

end Run

/-! ## Values -/

/-- The values that a task leaves in its session, if it found these there when it
was begun. -/
def Traced.leaves (traced : Traced σ) (state : KeyMap String) : KeyMap String :=
  (traced.past.getLast?.map (·.advance.state)).getD state

theorem Traced.leaves_of_getLast? {traced : Traced σ} {last : Exchange σ}
    (h : traced.past.getLast? = some last) (state : KeyMap String) :
    traced.leaves state = last.advance.state := by
  rw [leaves, h]
  rfl

theorem Traced.leaves_of_fresh {traced : Traced σ} {task : σ} (h : traced = .fresh task)
    (state : KeyMap String) : traced.leaves state = state := by
  rw [h]
  rfl

namespace Run

/-- The values of a session in which these members have worked, one after another. -/
def stateAfter (state : KeyMap String) (members : List (Member (Traced σ))) : KeyMap String :=
  members.foldl (fun state member => member.process.leaves state) state

theorem stateAfter_append (state : KeyMap String) (members rest : List (Member (Traced σ))) :
    stateAfter state (members ++ rest) = stateAfter (stateAfter state members) rest :=
  List.foldl_append

theorem stateAfter_of_fresh {members : List (Member (Traced σ))}
    (h : ∀ member ∈ members, ∃ task, member.process = .fresh task) (state : KeyMap String) :
    stateAfter state members = state := by
  induction members generalizing state with
  | nil => rfl
  | cons member rest ih =>
    rw [List.forall_mem_cons] at h
    obtain ⟨⟨task, htask⟩, hrest⟩ := h
    rw [stateAfter, List.foldl_cons, Traced.leaves_of_fresh htask]
    exact ih hrest state

/-- The values from which a sub-task starts if these members have worked before
it: their outputs over the values of the run's session, or without output keys
what they have left there. -/
def valuesAfter (keyed : Bool) (initial : KeyMap String) (members : List (Member (Traced σ))) :
    KeyMap String :=
  if keyed then initial.overlay (outputsOf (finished members)) else stateAfter initial members

end Run

/-! ## Visits without output keys -/

namespace Member

section Leaves

/-- What a visit does in a session that its member shares with others: nothing, or its
task is given a stretch there. -/
inductive Gives (floor : Floor) (member : Member (Traced σ)) (after : Floor × Member (Traced σ)) :
    Prop
  | nothing (hstate : after.1.state = floor.state) (hprocess : after.2.process = member.process)
  | stretch (exchange : Exchange σ) (hlast : after.2.process.past.getLast? = some exchange)
      (hfound : exchange.context.state = floor.state)
      (hleft : after.1.state = exchange.advance.state)

theorem Gives.around {floor left : Floor} {member : Member (Traced σ)}
    {after : Floor × Member (Traced σ)} (h : Gives floor member after)
    (hleft : after.1.Around left) : Gives floor member (left, after.2) := by
  cases h with
  | nothing hstate hprocess => exact .nothing (hleft.state.trans hstate) hprocess
  | stretch exchange hlast hfound hstate =>
    exact .stretch exchange hlast hfound (hleft.state.trans hstate)

variable (scope : Scope) (index : Nat) (behave : σ → Poll σ) (floor : Floor)
  (member : Member (Traced σ))

theorem proceed_gives (instruction : Option String) (events : List Event) :
    Gives floor member (proceed scope index (Traced.poll behave member.process) floor member
      (.shared instruction) events) := by
  let context := (scope.context.withState floor.state).withInstruction instruction
  let exchange : Exchange σ := ⟨scope.turn.below index, context, floor.world,
    behave member.process.task (scope.turn.below index) context floor.world⟩
  refine .stretch exchange ?_ rfl ?_
  · have hlast : (Traced.poll behave member.process (scope.turn.below index) context
        floor.world).process.past.getLast? = some exchange := List.getLast?_concat
    rw [← hlast]
    simp only [proceed]
    split <;> rfl
  · simp only [proceed]
    split <;> rfl

theorem start_gives (hkeyed : floor.keyed = false) :
    Gives floor member
      (start scope index (Traced.poll behave member.process) floor member) := by
  simp only [start, hkeyed, Bool.false_eq_true, if_false]
  split
  · exact .nothing rfl rfl
  · exact proceed_gives ..

variable {scope index behave floor member} {after : Floor × Member (Traced σ)}

theorem Visited.gives
    (h : Visited scope index (Traced.poll behave member.process) floor member after)
    (hkeyed : floor.keyed = false)
    (hshared : ∀ access events, member.phase = .running access events →
      ∃ instruction, access = .shared instruction) : Gives floor member after := by
  cases h with
  | stays => exact .nothing rfl rfl
  | waits left _ hleft => exact .nothing hleft.state rfl
  | starts entered left _ hentered hleft =>
    have hstart :=
      (start_gives scope index behave entered member (hentered.keyed.trans hkeyed)).around hleft
    cases hstart with
    | nothing hstate hprocess => exact .nothing (hstate.trans hentered.state) hprocess
    | stretch exchange hlast hfound hstate =>
      exact .stretch exchange hlast (hfound.trans hentered.state) hstate
  | proceeds access events left hphase hleft =>
    obtain ⟨instruction, rfl⟩ := hshared access events hphase
    exact (proceed_gives ..).around hleft

/-- It leaves there what its task does, whatever values the session held before the
member started. -/
theorem Gives.leaves (h : Gives floor member after) {state : KeyMap String}
    (hstate : floor.state = member.process.leaves state) :
    after.1.state = after.2.process.leaves state := by
  cases h with
  | nothing hsame hprocess => rw [hsame, hprocess, hstate]
  | stretch exchange hlast _ hleft => rw [hleft, Traced.leaves_of_getLast? hlast]

/-- A visit to a member that has settled does nothing. -/
theorem Visited.of_settled (h : Visited scope index (Traced.poll behave member.process) floor member
    after) (hsettled : member.phase.settlement?.isSome) : after = (floor, member) := by
  cases h with
  | stays => rfl
  | waits _ hphase => simp [hphase, Phase.settlement?] at hsettled
  | starts _ _ hphase =>
    rcases hphase with hphase | hphase <;> simp [hphase, Phase.settlement?] at hsettled
  | proceeds _ _ _ hphase => simp [hphase, Phase.settlement?] at hsettled

end Leaves

end Member

/-! ## Turns -/

namespace Run

/-- A member has started only when all before it have settled as `passes` says. -/
def InTurn (passes : Settlement → Bool) (members : List (Member σ)) : Prop :=
  members.Pairwise fun a b => b.phase.hasStarted → a.phase.settlement?.any passes

variable {passes : Settlement → Bool}

theorem inTurn_ofWorkflow {τ : Type} (passes : Settlement → Bool) (workflow : Workflow τ) :
    InTurn passes (ofWorkflow workflow).members := by
  rw [InTurn, ofWorkflow, List.pairwise_map]
  exact List.pairwise_of_forall fun _ _ hstarted => by cases hstarted

namespace InTurn

variable {visit : Visit (Traced σ)} (h : InTurn passes visit.members)
include h

/-- Nobody behind a member has started before it has settled. -/
theorem unstarted (hunsettled : visit.member.phase.settlement? = none) :
    ∀ member ∈ visit.rest, member.phase.hasStarted = false := by
  intro member hmem
  have hrest := (List.pairwise_cons.1 (List.pairwise_append.1 h).2.1).1 member hmem
  cases hstarted : member.phase.hasStarted with
  | false => rfl
  | true => simpa [hunsettled] using hrest hstarted

theorem index_le (hunsettled : visit.member.phase.settlement? = none) {index : Nat}
    {member : Member (Traced σ)} (hget : visit.members[index]? = some member)
    (hstarted : member.phase.hasStarted = true) : index ≤ visit.index := by
  by_contra hlt
  obtain ⟨k, rfl⟩ : ∃ k, index = visit.index + 1 + k := Nat.exists_eq_add_of_le (by omega)
  have hrest : visit.rest[k]? = some member := by
    rw [← hget, Visit.members, Visit.index, List.getElem?_append_right (by omega)]
    simp [show visit.front.length + 1 + k - visit.front.length = k + 1 by omega]
  simp [h.unstarted hunsettled member (List.mem_of_getElem? hrest)] at hstarted

/-- All before a member that has started have settled. -/
theorem front (hstarted : visit.member.phase.hasStarted = true) :
    ∀ member ∈ visit.front, member.phase.settlement?.any passes :=
  fun member hmem => (List.pairwise_append.1 h).2.2 member hmem visit.member List.mem_cons_self
    hstarted

/-- A visit keeps members in turn, if none starts in it out of turn. -/
theorem visited (honward : visit.member.Onward visit.after.2)
    (hfront : visit.starts → ∀ member ∈ visit.front, member.phase.settlement?.any passes) :
    InTurn passes visit.left := by
  obtain ⟨hbefore, hbehind, hacross⟩ := List.pairwise_append.1 h
  obtain ⟨hfirst, hrest⟩ := List.pairwise_cons.1 hbehind
  refine List.pairwise_append.2 ⟨hbefore, List.pairwise_cons.2 ⟨?_, hrest⟩, ?_⟩
  · intro member hmem hstarted
    obtain ⟨settlement, hsettled, hpasses⟩ := (Option.any_eq_true ..).1
      (hfirst member hmem hstarted)
    rw [honward.settled settlement hsettled]
    exact hpasses
  · intro member hmem other hother hstarted
    rcases List.mem_cons.1 hother with rfl | hother
    · cases hbegun : visit.member.phase.hasStarted with
      | true => exact h.front hbegun member hmem
      | false => exact hfront (by simp [Visit.starts, hbegun, hstarted]) member hmem
    · exact hacross member hmem other (List.mem_cons_of_mem _ hother) hstarted

end InTurn

/-- A run whose members work in turn: what is in its session, from what values
its members have started, and in what order its record tells of them. -/
structure Turns (behave : σ → Poll σ) (workflow : Workflow σ) (maxValueBytes : Nat)
    (context : Context) (initial : KeyMap String) (passes : Settlement → Bool) (floor : Floor)
    (members : List (Member (Traced σ))) : Prop where
  inTurn : InTurn passes members
  state : floor.state = if workflow.isKeyed then initial else stateAfter initial members
  standing : Standing behave True (workflow.terms maxValueBytes context) workflow
    (fun index values => values = valuesAfter workflow.isKeyed initial (members.take index)) members
  ascending : workflow.isKeyed → ∀ record, floor.ledger.get? context.session.id = some record →
    (record.executions.map (·.index)).Pairwise (· < ·)

namespace Turns

variable {behave : σ → Poll σ} {workflow : Workflow σ} {maxValueBytes : Nat} {context : Context}
  {initial : KeyMap String} {visit : Visit (Traced σ)} {stretch : Stretch (Traced σ)}

section Visit

variable (h : Turns behave workflow maxValueBytes context initial passes visit.floor visit.members)
include h

/-- Whoever is behind an unsettled member has done nothing. -/
theorem fresh_rest (hunsettled : visit.member.phase.settlement? = none) :
    ∀ member ∈ visit.rest, ∃ task, member.process = .fresh task := by
  intro member hmem
  obtain ⟨index, hget⟩ := List.mem_iff_getElem?.1 (show member ∈ visit.members by
    simp [Visit.members, hmem])
  obtain ⟨task, -, hstands⟩ := h.standing index member hget
  exact ⟨task, hstands.unstarted_of (h.inTurn.unstarted hunsettled member hmem)⟩

/-- Without output keys, an unsettled member finds in the session what those
before it have left there, and what it has itself. -/
theorem state_shared (hkeyed : workflow.isKeyed = false)
    (hunsettled : visit.member.phase.settlement? = none) :
    visit.floor.state = visit.member.process.leaves (stateAfter initial visit.front) := by
  rw [h.state, hkeyed, if_neg (by simp), Visit.members, stateAfter_append]
  exact stateAfter_of_fresh (h.fresh_rest hunsettled) _

/-- A member that starts finds what those before it have left. -/
theorem values_eq
    (hserving : Serving behave workflow maxValueBytes context visit.floor visit.members)
    (hunstarted : visit.member.phase.hasStarted = false) :
    visit.floor.values (workflow.terms maxValueBytes context) =
      valuesAfter workflow.isKeyed initial visit.front := by
  have hunsettled := Member.unsettled_of_unstarted hunstarted
  cases hkeyed : workflow.isKeyed with
  | true =>
    obtain ⟨record, hrecord, haccord⟩ := (hserving.underway hkeyed).accord
    have hvalues : visit.floor.values (workflow.terms maxValueBytes context) =
      visit.floor.state.overlay record.outputs := Floor.values_of_get? hkeyed hrecord
    have hnone : finished (visit.member :: visit.rest) = [] := by
      refine finished_eq_nil (List.forall_mem_cons.2 ⟨hunsettled, fun member hmem => ?_⟩)
      exact Member.unsettled_of_unstarted (h.inTurn.unstarted hunsettled member hmem)
    rw [hvalues, h.state, hkeyed, if_pos rfl, valuesAfter, if_pos rfl,
      haccord.outputs_eq_outputsOf, Visit.members, finished_append, hnone, List.append_nil]
  | false =>
    obtain ⟨task, -, hstands⟩ := h.standing visit.index visit.member visit.getElem?_members
    have hvalues : visit.floor.values (workflow.terms maxValueBytes context) =
      visit.floor.state := Floor.values_of_shared hkeyed
    rw [hvalues, h.state_shared hkeyed hunsettled,
      Traced.leaves_of_fresh (hstands.unstarted_of hunstarted), valuesAfter, if_neg (by simp)]

/-- The values from which members have started are told as before, once the
visited one is on its way or settled. -/
theorem standing_left (hunsettled : visit.member.phase.settlement? = none) :
    Standing behave True (workflow.terms maxValueBytes context) workflow
      (fun index values => values = valuesAfter workflow.isKeyed initial (visit.left.take index))
      visit.members := by
  intro index member hget
  obtain ⟨task, htask, hstands⟩ := h.standing index member hget
  refine ⟨task, htask, hstands.imp fun hstarted values hvalues => ?_⟩
  have hle := h.inTurn.index_le hunsettled hget hstarted
  simp only at hvalues ⊢
  rw [hvalues, visit.left_eq_set, List.take_set_of_le hle]

/-- A visit keeps the executions in the order of the members. -/
theorem ascending_visited
    (hserving : Serving behave workflow maxValueBytes context visit.floor visit.members)
    (hof : visit.Of (Traced.poll behave) workflow.plan context stretch)
    (hspares : workflow.plan.sharesLedger → ∀ member ∈ stretch.step.run.members,
      member.process.Spares context.session.id)
    (hkeyed : workflow.isKeyed = true) {record' : Record}
    (hrecord' : visit.after.1.ledger.get? context.session.id = some record') :
    (record'.executions.map (·.index)).Pairwise (· < ·) := by
  obtain ⟨record, moved, hrecord, haccord, hmoved, hmoves⟩ :=
    (hserving.underway hkeyed).movesTo hof hspares
  obtain rfl := Option.some.inj (hmoved.symm.trans hrecord')
  have hbefore := h.ascending hkeyed record hrecord
  have hnext : ∀ execution : Execution, visit.member.phase.settlement? = none →
      execution.index = visit.index →
      ((record.executions ++ [execution]).map (·.index)).Pairwise (· < ·) := by
    intro execution hunsettled hindex
    rw [List.map_append, List.map_singleton, List.pairwise_append]
    refine ⟨hbefore, List.pairwise_singleton _ _, fun place hplace other hother => ?_⟩
    obtain ⟨known, hknown, rfl⟩ := List.mem_map.1 hplace
    rw [List.mem_singleton.1 hother, hindex]
    obtain ⟨definition, settlement, hsettled, -⟩ := haccord.told known hknown
    have hne := hsettled.ne_of_unsettled visit.getElem?_members hunsettled
    obtain ⟨member, hget, -, hsome⟩ := settledAt_iff.1 hsettled
    have hstarted := Member.hasStarted_of_settled (by rw [hsome]; rfl)
    have hle := h.inTurn.index_le hunsettled hget hstarted
    omega
  cases hmoves with
  | onward => exact hbefore
  | @succeeded now draft hunsettled _ hdraft =>
    rw [Record.executions_commit]
    exact hnext _ hunsettled hdraft.index
  | @failed now draft message hunsettled _ hdraft => exact hnext _ hunsettled hdraft.index

/-- A visit keeps members in turn, with all that belongs to it, if none starts in
it out of turn. -/
theorem visited
    (hserving : Serving behave workflow maxValueBytes context visit.floor visit.members)
    (hof : visit.Of (Traced.poll behave) workflow.plan context stretch)
    (hspares : workflow.isKeyed → workflow.plan.sharesLedger →
      ∀ member ∈ stretch.step.run.members, member.process.Spares context.session.id)
    (hkeeps : workflow.isKeyed → workflow.plan.sharesLedger → ∀ task, (behave task).KeepsBound)
    (hfront : visit.starts → ∀ member ∈ visit.front, member.phase.settlement?.any passes) :
    Turns behave workflow maxValueBytes context initial passes visit.after.1 visit.left := by
  by_cases hsettled : visit.member.phase.settlement?.isSome
  · have hafter := hof.visited.of_settled hsettled
    have hleft : visit.left = visit.members := by rw [Visit.left, hafter, Visit.members]
    rw [hafter, hleft]
    exact h
  · have hunsettled : visit.member.phase.settlement? = none := by simpa using hsettled
    have htake : visit.left.take visit.index = visit.front := by
      simp [Visit.left, Visit.index]
    refine ⟨h.inTurn.visited hof.visited.onward hfront, ?_, ?_, ?_⟩
    · cases hkeyed : workflow.isKeyed with
      | true =>
        rw [((hserving.underway hkeyed).toApart.visited hof).2.state, h.state, hkeyed]
        rfl
      | false =>
        have hstate := h.state_shared hkeyed hunsettled
        obtain ⟨task, -, hstands⟩ := h.standing visit.index visit.member visit.getElem?_members
        have hgives := hof.visited.gives (hserving.keyed.trans hkeyed)
          fun access events hphase => hstands.shared_of hkeyed hphase
        rw [hgives.leaves hstate, if_neg (by simp), Visit.left, stateAfter_append]
        exact (stateAfter_of_fresh (h.fresh_rest hunsettled) _).symm
    · refine (h.standing_left hunsettled).visited hserving hof hspares hkeeps ?_ ?_
      · intro hstarts
        rw [Visit.starts, Bool.and_eq_true, Bool.not_eq_true'] at hstarts
        show _ = valuesAfter workflow.isKeyed initial (visit.left.take visit.index)
        rw [htake]
        exact h.values_eq hserving hstarts.1
      · intro _ hkeyed _ last hlast
        rw [h.state_shared hkeyed hunsettled]
        exact visit.member.process.leaves_of_getLast? hlast _
    · exact fun hkeyed record' hrecord' =>
        h.ascending_visited hserving hof (hspares hkeyed) hkeyed hrecord'

end Visit

end Turns

/-! ## Histories -/

section Histories

variable {behave : σ → Poll σ} {workflow : Workflow σ} {maxValueBytes : Nat} {context : Context}
  {initial : KeyMap String} {history : List (Stretch (Traced σ))}

theorem state_open {world : World} {floor : Floor}
    (h : (ofWorkflow workflow.traced).open context world = .ok floor) :
    floor.state = context.state := by
  obtain ⟨recorded, hrecorded, hopened⟩ := open_eq_ok h
  rw [(putUpGate_eq_ok hopened).1.state]
  cases hkeyed : (ofWorkflow workflow.traced).isKeyed with
  | true => exact (createRecord_eq_ok hkeyed hrecorded).1.state
  | false =>
    simp only [createRecord, lobby, hkeyed, Bool.false_eq_true, if_false, Except.ok.injEq]
      at hrecorded
    rw [← hrecorded]

/-- In an opened run, all members still have their turns before them. -/
theorem turns_open {state : KeyMap String} {world : World} {floor : Floor} (behave : σ → Poll σ)
    (maxValueBytes : Nat) (passes : Settlement → Bool) (hcheck : workflow.check = .ok ())
    (h : (ofWorkflow workflow.traced).open (context.withState state) world = .ok floor) :
    Turns behave workflow maxValueBytes context state passes floor
      (ofWorkflow workflow.traced).members where
  inTurn := inTurn_ofWorkflow passes workflow.traced
  state := by
    have hfresh : ∀ member ∈ (ofWorkflow workflow.traced).members, ∃ task,
        member.process = .fresh task := by
      intro member hmem
      obtain ⟨index, hget⟩ := List.mem_iff_getElem?.1 hmem
      obtain ⟨_, task, -, rfl⟩ := getElem?_members_ofWorkflow hget
      exact ⟨task, rfl⟩
    rw [stateAfter_of_fresh hfresh, ite_self]
    exact state_open h
  standing := standing_ofWorkflow behave True _ workflow _
  ascending := by
    intro hkeyed record hrecord
    obtain ⟨known, hknown, haccord⟩ := (underway_open behave hcheck hkeyed h).accord
    obtain rfl := Option.some.inj (hknown.symm.trans hrecord)
    have hlength := haccord.length_executions
    have hnone : (settlements (ofWorkflow workflow.traced).members).length = 0 := by
      simp [settlements, ofWorkflow, Phase.settlement?]
    rw [hnone, List.length_eq_zero_iff] at hlength
    rw [hlength]
    exact List.Pairwise.nil

/-- If none starts out of turn in a guarded run, and nobody writes into its
session, its members always work in turn. -/
theorem History.turns (hcheck : workflow.check = .ok ())
    (hguarded : workflow.isKeyed →
      Guarded behave workflow maxValueBytes context.session.id history)
    (h : History (Traced.poll behave) context (ofWorkflow workflow.traced) history)
    (huntouched : Untouched initial history)
    (hfront : ∀ visit ∈ log (Traced.poll behave) context (ofWorkflow workflow.traced) history,
      visit.starts → ∀ member ∈ visit.front, member.phase.settlement?.any passes) :
    (∀ visit ∈ log (Traced.poll behave) context (ofWorkflow workflow.traced) history,
      Serving behave workflow maxValueBytes context visit.floor visit.members ∧
        Turns behave workflow maxValueBytes context initial passes visit.floor visit.members) ∧
      ∀ stretch ∈ history, Comes (fun floor members =>
        Serving behave workflow maxValueBytes context floor members ∧
          Turns behave workflow maxValueBytes context initial passes floor members)
        (ofWorkflow workflow.traced) context stretch := by
  refine h.serving_induction (P := fun _ floor members =>
      Turns behave workflow maxValueBytes context initial passes floor members)
    (S := fun state => state = initial)
    (R := fun before after => after = before) hcheck hguarded huntouched.first huntouched.between
    ?_ ?_ ?_
  · rintro state world floor rfl hopened
    exact turns_open behave maxValueBytes passes hcheck hopened
  · intro visit hmem hserving hturns
    obtain ⟨stretch, hstretch, hof⟩ := h.of_mem_log hmem
    exact hturns.visited hserving hof
      (fun hkeyed hshares => ((hguarded hkeyed).undisturbed hshares).within stretch hstretch)
      (fun hkeyed => (hguarded hkeyed).keeps) (hfront visit hmem)
  · intro _ floor members state world _ hturns hsame hrecord
    refine ⟨hturns.inTurn, hsame.trans hturns.state, hturns.standing, fun hkeyed record hget => ?_⟩
    rw [hrecord hkeyed] at hget
    exact hturns.ascending hkeyed record hget

/-- One after another, a member is visited when all before it have succeeded. -/
theorem History.front_sequential (horder : workflow.plan.order = .sequential)
    (h : History (Traced.poll behave) context (ofWorkflow workflow.traced) history) :
    ∀ visit ∈ log (Traced.poll behave) context (ofWorkflow workflow.traced) history,
      ∀ member ∈ visit.front, member.phase.settlement?.any (·.isSuccess) := by
  refine h.front_of_mem_log fun visit _ hpasses => ?_
  rw [show (ofWorkflow workflow.traced).plan.order = .sequential from horder] at hpasses
  exact hpasses

end Histories

end Run

end Coordination
