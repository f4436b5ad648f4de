import Coordination.Proofs.Run.Composition
import Coordination.Proofs.Run.Starts

/-!
# Stages in one session

The stages of a run one after another that has no output keys work in its session. The
values that a stage found there are those that the stages before it have left, one after
another (`Run.History.found_iff`). Once all before it have succeeded a stage starts, in
the same stretch (`Run.History.started_of_front`). At the end of every stretch the session
holds what all stages together have left, and if one has failed, the run is over
(`Run.History.oneSession`).
-/

namespace Coordination

variable {σ : Type}

/-! ## Members that have settled -/

/-- A member that has settled stays as it is, whoever is visited. -/
theorem Visit.Consecutive.getElem?_of_settled {members : List (Member σ)}
    {visits : List (Visit σ)} (h : Consecutive members visits)
    (hvisit : ∀ visit ∈ visits, visit.member.phase.settlement?.isSome →
      visit.after.2 = visit.member)
    {index : Nat} {member : Member σ} (hget : members[index]? = some member)
    (hsettled : member.phase.settlement?.isSome) :
    (membersLeft members visits)[index]? = some member := by
  induction visits generalizing members with
  | nil => exact hget
  | cons visit visits ih =>
    obtain ⟨rfl, hrest⟩ := h
    rw [List.forall_mem_cons] at hvisit
    rw [membersLeft_cons]
    refine ih hrest hvisit.2 ?_
    obtain ⟨hlt, -⟩ := List.getElem?_eq_some_iff.1 hget
    rw [visit.left_eq_set]
    by_cases hindex : visit.index = index
    · subst hindex
      obtain rfl := Option.some.inj (visit.getElem?_members.symm.trans hget)
      rw [List.getElem?_set_self hlt, hvisit.1 hsettled]
    · rwa [List.getElem?_set_ne hindex]

/-! ## Stretches one after another -/

namespace Member

theorem visitInLine_started (scope : Scope) (index : Nat) (poll : Poll σ) (floor : Floor)
    (member : Member σ) :
    (visitInLine scope index poll floor member).2.phase.hasStarted = true := by
  unfold visitInLine
  split
  · exact (proceed_started ..).2
  next hphase => rw [hphase]; rfl
  · exact (start_started ..).2

/-- Whoever has only members before it that are gone past has started by the end of a
stretch. -/
theorem started_of_visits {behave : σ → Poll σ} {scope : Scope}
    (horder : scope.plan.order = .sequential) {front : List (Member σ)} {floor : Floor}
    {rest members : List (Member σ)}
    (hmembers : Visit.membersLeft (front ++ rest) (visits behave scope front floor rest) = members)
    {index : Nat} {member : Member σ} (hget : members[front.length + index]? = some member)
    (hbefore : ∀ other ∈ members.take (front.length + index), other.passes .sequential) :
    member.phase.hasStarted = true := by
  induction rest generalizing front floor index with
  | nil =>
    rw [visits, List.append_nil, Visit.membersLeft_nil] at hmembers
    subst hmembers
    simp at hget
  | cons first rest ih =>
    have hstarted := visitInLine_started scope front.length (behave first.process) floor first
    simp only [visits, visitBy, horder, Visit.membersLeft_cons, Visit.left] at hmembers
    generalize visitInLine scope front.length (behave first.process) floor first = after
      at hmembers hstarted
    -- The first of them stays where it is.
    have hfirst : members[front.length]? = some after.2 := by
      rw [List.append_cons] at hmembers
      split at hmembers
      · have hprefix : front ++ [after.2] <+: members :=
          hmembers ▸ front_membersLeft_visits _ _ _
        obtain ⟨behind, rfl⟩ := hprefix
        simp
      · rw [← hmembers]
        simp
    cases index with
    | zero =>
      obtain rfl := Option.some.inj (hfirst.symm.trans hget)
      exact hstarted
    | succ index =>
      have hpasses : after.2.passes .sequential := by
        refine hbefore _ (List.mem_iff_getElem?.2 ⟨front.length, ?_⟩)
        rw [List.getElem?_take_of_lt (by omega), hfirst]
      rw [if_pos hpasses, List.append_cons] at hmembers
      have hlength : (front ++ [after.2]).length + index = front.length + (index + 1) := by
        rw [List.length_append, List.length_singleton]
        omega
      exact ih hmembers (hlength ▸ hget) (hlength ▸ hbefore)

end Member

namespace Run

section Histories

variable {behave : σ → Poll σ} {workflow : Workflow σ} {context : Context}
  {initial : KeyMap String} {last : Stretch (Traced σ)} {past : List (Stretch (Traced σ))}

/-- Those that had settled before a visited member are the first members to the end. -/
theorem History.front_eq_take {history : List (Stretch (Traced σ))}
    (h : History (Traced.poll behave) context (ofWorkflow workflow.traced) history)
    {visit : Visit (Traced σ)}
    (hmem : visit ∈ log (Traced.poll behave) context (ofWorkflow workflow.traced) history)
    (hfront : ∀ member ∈ visit.front, member.phase.settlement?.isSome) :
    visit.front = (latest (ofWorkflow workflow.traced) history).members.take visit.index := by
  have hstays : ∀ known ∈ log (Traced.poll behave) context (ofWorkflow workflow.traced) history,
      known.member.phase.settlement?.isSome → known.after.2 = known.member := by
    intro known hknown hsettled
    obtain ⟨stretch, -, hof⟩ := h.of_mem_log hknown
    rw [hof.visited.of_settled hsettled]
  have hconsecutive := h.consecutive_log
  obtain ⟨before, later, hsplit⟩ := List.append_of_mem hmem
  rw [h.members_latest]
  rw [hsplit] at hconsecutive hstays ⊢
  obtain ⟨-, -, hlater⟩ := hconsecutive.of_append
  rw [Visit.membersLeft_append, Visit.membersLeft_cons]
  refine List.ext_getElem? fun index => ?_
  rw [List.getElem?_take]
  split
  next hlt =>
    rw [Visit.index] at hlt
    have hget : visit.left[index]? = some visit.front[index] := by
      rw [Visit.left, List.getElem?_append_left hlt, List.getElem?_eq_getElem hlt]
    rw [hlater.getElem?_of_settled (fun known hknown => hstays known (by simp [hknown])) hget
      (hfront _ (List.getElem_mem hlt)), List.getElem?_eq_getElem hlt]
  next hnot => exact List.getElem?_eq_none (Nat.not_lt.1 hnot)

/-- Whoever has only stages before it that have succeeded has started by the end of the
stretch. -/
theorem History.started_of_front (horder : workflow.plan.order = .sequential)
    (hcheck : workflow.check = .ok ())
    (hown : workflow.isKeyed → workflow.plan.sharesLedger = false)
    (h : History (Traced.poll behave) context (ofWorkflow workflow.traced) (last :: past))
    {index : Nat} {member : Member (Traced σ)}
    (hget : last.step.run.members[index]? = some member)
    (hbefore : ∀ other ∈ last.step.run.members.take index,
      other.phase.settlement?.any (·.isSuccess)) : member.phase.hasStarted = true := by
  have hstretch : ∀ (run : Run (Traced σ)) turn state world floor,
      run.plan.order = .sequential →
      run.entry (context.withState state) world = some floor →
      last.step = run.give (Traced.poll behave) turn (context.withState state) world →
      member.phase.hasStarted = true := by
    intro run turn state world floor horder hentry hstep
    rw [hstep, members_give, visits_of_entry hentry] at hget hbefore
    exact @Member.started_of_visits _ _ ⟨run.plan, _, turn⟩ horder [] floor run.members _ rfl
      index member (by simpa using hget) (by simpa [Member.passes] using hbefore)
  cases h with
  | first turn state world =>
    obtain ⟨floor, hopened⟩ := open_traced_of_own hcheck hown (context.withState state) world
    exact hstretch (ofWorkflow workflow.traced) turn state world floor horder
      (entry_of_open rfl hopened) rfl
  | @next earlier before h hopen turn state world =>
    obtain ⟨gate, own, hstage⟩ := h.stage_of_none rfl hopen
    refine hstretch earlier.step.run turn state world _ ?_ (by rw [entry, hstage]) rfl
    exact (congrArg Plan.order h.plan_latest).trans horder

/-- The values of the session that those before the stage of a place have left there. -/
def valuesBefore (initial : KeyMap String) (last : Stretch (Traced σ)) (index : Nat) :
    KeyMap String := stateAfter initial (last.step.run.members.take index)

/-- What is so of a run one after another without output keys at the end of a stretch: its
members have worked in turn, its session holds what they have left there, and if one has
failed, it is over. -/
structure OneSession (behave : σ → Poll σ) (workflow : Workflow σ) (context : Context)
    (initial : KeyMap String) (last : Stretch (Traced σ)) : Prop where
  inTurn : InTurn (·.isSuccess) last.step.run.members
  standing : Standing behave True (workflow.terms workflow.plan.maxValueBytes context) workflow
    (fun index values => values = valuesBefore initial last index) last.step.run.members
  unkeyed : ∀ member ∈ last.step.run.members, member.definition.outputKey = none
  state : last.step.state = stateAfter initial last.step.run.members
  stops : failed last.step.run.members ≠ 0 →
    ∃ report, last.step.result = some (.ok report) ∧ report.status = .failed

variable (horder : workflow.plan.order = .sequential) (hcheck : workflow.check = .ok ())
  (hshared : workflow.isKeyed = false)
  (h : History (Traced.poll behave) context (ofWorkflow workflow.traced) (last :: past))
  (huntouched : Untouched initial (last :: past))
include horder hcheck hshared h huntouched

theorem History.oneSession : OneSession behave workflow context initial last := by
  obtain ⟨-, hstretches⟩ := h.turns hcheck (guarded_of_shared behave hshared _ _) huntouched
    fun visit hmem _ => h.front_sequential horder visit hmem
  obtain ⟨floor, ⟨hserving, hturns⟩, hleft, hnone⟩ :=
    (hstretches last List.mem_cons_self).state_shared hcheck hshared fun _ _ hP => hP.1.keyed
  have hvalues := hturns.state
  simp only [hshared, Bool.false_eq_true, if_false] at hvalues
  refine ⟨hturns.inTurn, ?_, ?_, hleft.trans hvalues, fun hfailed => ?_⟩
  · have hstanding := hturns.standing
    simp only [valuesAfter, hshared, Bool.false_eq_true, if_false] at hstanding
    exact hstanding
  · exact fun member hmem => hserving.outputKey_eq_none hshared hmem
  · cases hresult : last.step.result with
    | none =>
      rw [horder] at hnone
      exact absurd (failed_eq_zero_of_conclude_none (hnone hresult)) hfailed
    | some result =>
      obtain ⟨_, report, rfl, -, -, -, -, hclosing⟩ :=
        h.closing hcheck (fun hkeyed => by simp [hshared] at hkeyed) hresult
      refine ⟨report, rfl, ?_⟩
      rw [hclosing.status, horder, verdict]
      split
      · rfl
      next hnone => exact absurd (failed_eq_zero_iff.2 hnone) hfailed

/-- A stage found what those before it have left, and nothing else, if it has started. -/
theorem History.found_iff (index : Nat) (values : KeyMap String) :
    Found (workflow.terms workflow.plan.maxValueBytes context)
        (log (Traced.poll behave) context (ofWorkflow workflow.traced) (last :: past)) index
        values ↔
      reached Phase.hasStarted last.step.run.members index ∧
        values = valuesBefore initial last index := by
  obtain ⟨hvisits, -⟩ := h.turns hcheck (guarded_of_shared behave hshared _ _) huntouched
    fun visit hmem _ => h.front_sequential horder visit hmem
  have hfinds : ∀ visit ∈ log (Traced.poll behave) context (ofWorkflow workflow.traced)
      (last :: past), visit.starts →
        visit.floor.values (workflow.terms workflow.plan.maxValueBytes context) =
          valuesBefore initial last visit.index := by
    intro visit hmem hstarts
    obtain ⟨hserving, hturns⟩ := hvisits visit hmem
    rw [Visit.starts, Bool.and_eq_true, Bool.not_eq_true'] at hstarts
    have hfront := h.front_eq_take hmem fun member hfront => by
      obtain ⟨settlement, hsettled, -⟩ := (Option.any_eq_true ..).1
        (h.front_sequential horder visit hmem member hfront)
      rw [hsettled]
      rfl
    rw [hturns.values_eq hserving hstarts.1, valuesAfter, hshared, if_neg (by simp), hfront]
    rfl
  have hcount := h.countP_bringsAt lasting_hasStarted index
  constructor
  · rintro ⟨visit, hmem, rfl, hstarts, rfl⟩
    refine ⟨?_, hfinds visit hmem hstarts⟩
    have hpos := List.countP_pos_iff.2 ⟨visit, hmem, show visit.bringsAt Phase.hasStarted
      visit.index = true by simpa [Visit.bringsAt, Visit.brings_hasStarted] using hstarts⟩
    rw [hcount] at hpos
    simpa [latest, Nat.pos_iff_ne_zero] using hpos
  · rintro ⟨hreached, rfl⟩
    have hpos : 0 < (log (Traced.poll behave) context (ofWorkflow workflow.traced)
        (last :: past)).countP (Visit.bringsAt Phase.hasStarted index) := by
      rw [hcount, latest, hreached]
      exact Nat.one_pos
    obtain ⟨visit, hmem, hbrings⟩ := List.countP_pos_iff.1 hpos
    rw [Visit.bringsAt, Visit.brings_hasStarted, Bool.and_eq_true, beq_iff_eq] at hbrings
    obtain ⟨hstarts, rfl⟩ := hbrings
    exact ⟨visit, hmem, rfl, hstarts, hfinds visit hmem hstarts⟩

end Histories

/-! ## What stages start from -/

/-- Whether the stage of a place has started from these values and from no others: it
found them in the session, its instruction was filled in from them, and its task was begun
with them. -/
structure StartedFrom (behave : σ → Poll σ) (workflow : Workflow σ) (context : Context)
    (history : List (Stretch (Traced σ))) (index : Nat) (values : KeyMap String) : Prop where
  found : ∀ other, Found (workflow.terms workflow.plan.maxValueBytes context)
    (log (Traced.poll behave) context (ofWorkflow workflow.traced) history) index other ↔
      other = values
  stands : ∃ member task,
    (latest (ofWorkflow workflow.traced) history).members[index]? = some member ∧
      workflow.members[index]? = some (member.definition, task) ∧ member.phase.hasStarted ∧
        member.Stands behave True (workflow.terms workflow.plan.maxValueBytes context) index
          (· = values) task

/-- Whether a run has been stopped by the stage of a place, with these values in its
session: no later stage has started, and the run has ended with a report of its failure. -/
structure StoppedBy (behave : σ → Poll σ) (workflow : Workflow σ) (context : Context)
    (last : Stretch (Traced σ)) (past : List (Stretch (Traced σ))) (index : Nat)
    (values : KeyMap String) : Prop where
  state : last.step.state = values
  latest : ∀ visit ∈ log (Traced.poll behave) context (ofWorkflow workflow.traced) (last :: past),
    visit.starts → visit.index ≤ index
  failed : ∃ report, last.step.result = some (.ok report) ∧ report.status = .failed

section Stages

variable {behave : σ → Poll σ} {workflow : Workflow σ} {context : Context}
  {initial : KeyMap String} {last : Stretch (Traced σ)} {past : List (Stretch (Traced σ))}
  {index : Nat} {member : Member (Traced σ)} {settlement : Settlement}

theorem valuesBefore_succ (hget : last.step.run.members[index]? = some member) :
    valuesBefore initial last (index + 1) =
      member.process.leaves (valuesBefore initial last index) := by
  rw [valuesBefore, List.take_add_one, hget, stateAfter_append]
  rfl

theorem InTurn.passes_before {members : List (Member (Traced σ))}
    (h : InTurn (·.isSuccess) members) (hget : members[index]? = some member)
    (hstarted : member.phase.hasStarted = true) :
    ∀ other ∈ members.take index, other.phase.settlement?.any (·.isSuccess) := by
  intro other hmem
  obtain ⟨place, hplace⟩ := List.mem_iff_getElem?.1 hmem
  rw [List.getElem?_take] at hplace
  split at hplace
  next hlt =>
    obtain ⟨hplaced, rfl⟩ := List.getElem?_eq_some_iff.1 hplace
    obtain ⟨hlast, rfl⟩ := List.getElem?_eq_some_iff.1 hget
    exact List.pairwise_iff_getElem.1 h place index hplaced hlast hlt hstarted
  next => cases hplace

namespace OneSession

variable (h : OneSession behave workflow context initial last)
include h

/-- A stage that has settled has done so from what those before it have left. -/
theorem settles (hget : last.step.run.members[index]? = some member)
    (hsettled : member.phase.settlement? = some settlement) : ∃ task,
      workflow.members[index]? = some (member.definition, task) ∧
        Settles behave True (workflow.terms workflow.plan.maxValueBytes context) index
          member.definition task (valuesBefore initial last index) settlement member.process := by
  obtain ⟨task, htask, hstands⟩ := h.standing index member hget
  obtain ⟨_, rfl, hsettles⟩ := hstands.settles hsettled
  exact ⟨task, htask, hsettles⟩

/-- Behind a stage that has failed, none has started. -/
theorem unstarted (hget : last.step.run.members[index]? = some member)
    (hsettled : member.phase.settlement? = some settlement) (hfails : settlement.isSuccess = false)
    {place : Nat} (hlt : index < place) :
    reached Phase.hasStarted last.step.run.members place = false := by
  rw [reached]
  cases hother : last.step.run.members[place]? with
  | none => rfl
  | some other =>
    rw [Option.any_some, Bool.eq_false_iff]
    intro hstarted
    have hpasses := h.inTurn.passes_before hother hstarted member
      (List.mem_iff_getElem?.2 ⟨index, by rw [List.getElem?_take_of_lt hlt, hget]⟩)
    simp [hsettled, hfails] at hpasses

/-- A stage that has failed leaves the session to the end as it is. -/
theorem state_of_failed (hget : last.step.run.members[index]? = some member)
    (hsettled : member.phase.settlement? = some settlement)
    (hfails : settlement.isSuccess = false) :
    last.step.state = valuesBefore initial last (index + 1) := by
  have hfresh : ∀ other ∈ last.step.run.members.drop (index + 1), ∃ task,
      other.process = .fresh task := by
    intro other hmem
    obtain ⟨place, hplace⟩ := List.mem_iff_getElem?.1 hmem
    rw [List.getElem?_drop] at hplace
    obtain ⟨task, -, hstands⟩ := h.standing _ other hplace
    have hidle := h.unstarted hget hsettled hfails (show index < index + 1 + place by omega)
    rw [reached, hplace, Option.any_some] at hidle
    exact ⟨task, hstands.unstarted_of hidle⟩
  rw [h.state, ← List.take_append_drop (index + 1) last.step.run.members, stateAfter_append,
    stateAfter_of_fresh hfresh]
  rfl

end OneSession

section Histories

variable (horder : workflow.plan.order = .sequential) (hcheck : workflow.check = .ok ())
  (hshared : workflow.isKeyed = false)
  (h : History (Traced.poll behave) context (ofWorkflow workflow.traced) (last :: past))
  (huntouched : Untouched initial (last :: past))
include horder hcheck hshared h huntouched

theorem History.startedFrom_iff (index : Nat) (values : KeyMap String) :
    StartedFrom behave workflow context (last :: past) index values ↔
      reached Phase.hasStarted last.step.run.members index ∧
        values = valuesBefore initial last index := by
  have hfound := h.found_iff horder hcheck hshared huntouched index
  constructor
  · exact fun hstarted => (hfound values).1 ((hstarted.found values).2 rfl)
  · rintro ⟨hreached, rfl⟩
    refine ⟨fun other => by rw [hfound, and_iff_right hreached], ?_⟩
    obtain ⟨member, hget, hstarted⟩ := (Option.any_eq_true ..).1 hreached
    obtain ⟨task, htask, hstands⟩ :=
      (h.oneSession horder hcheck hshared huntouched).standing index member hget
    exact ⟨member, task, hget, htask, hstarted, hstands⟩

/-- A stage that fails and leaves the session as it found it stops the run. -/
theorem History.stoppedBy (hget : last.step.run.members[index]? = some member)
    (hsettled : member.phase.settlement? = some settlement)
    (hfails : settlement.isSuccess = false)
    (hleaves : member.process.leaves (valuesBefore initial last index) =
      valuesBefore initial last index) :
    StoppedBy behave workflow context last past index (valuesBefore initial last index) := by
  have hone := h.oneSession horder hcheck hshared huntouched
  refine ⟨?_, fun visit hmem hstarts => ?_, hone.stops ?_⟩
  · rw [hone.state_of_failed hget hsettled hfails, valuesBefore_succ hget, hleaves]
  · by_contra hlater
    have hreached := ((h.found_iff horder hcheck hshared huntouched visit.index _).1
      ⟨visit, hmem, rfl, hstarts, rfl⟩).1
    rw [hone.unstarted hget hsettled hfails (Nat.lt_of_not_le hlater)] at hreached
    cases hreached
  · rw [failed_eq_countP, ← Nat.pos_iff_ne_zero, List.countP_pos_iff]
    refine ⟨settlement, ?_, by simp [hfails]⟩
    exact List.mem_filterMap.2 ⟨member, List.mem_of_getElem? hget, hsettled⟩

/-- The stage behind one that has succeeded starts from what that one has left. -/
theorem History.next_startedFrom (hget : last.step.run.members[index]? = some member)
    (hsettled : member.phase.settlement? = some settlement)
    (hsuccess : settlement.isSuccess = true) (hlt : index + 1 < workflow.members.length) :
    StartedFrom behave workflow context (last :: past) (index + 1)
      (member.process.leaves (valuesBefore initial last index)) := by
  have hone := h.oneSession horder hcheck hshared huntouched
  have hlength : last.step.run.members.length = workflow.members.length :=
    h.length_latest.trans (List.length_map _)
  rw [h.startedFrom_iff horder hcheck hshared huntouched, ← valuesBefore_succ hget,
    and_iff_left rfl, reached, List.getElem?_eq_getElem (by omega), Option.any_some]
  refine h.started_of_front horder hcheck (fun hkeyed => by simp [hshared] at hkeyed)
    (List.getElem?_eq_getElem _) ?_
  rw [List.take_add_one, hget]
  refine List.forall_mem_append.2 ⟨hone.inTurn.passes_before hget ?_, ?_⟩
  · exact Member.hasStarted_of_settled (by rw [hsettled]; rfl)
  · simpa [hsettled] using hsuccess

end Histories

end Stages

end Run

end Coordination
