import Coordination.Proofs.Run.InTurn
import Coordination.Proofs.Run.Telling
import Coordination.Proofs.Run.Verdict

/-!
# What is told of members in turn

Members that work in turn settle in their order, so those that have settled are
the first ones. The record tells of them one by one: the execution of the member
of a place is in that place, and while all succeed, the successes are numbered as
the places are.

* `Run.InTurn.settledAt_iff_getElem?`, `Run.InTurn.finished_take`: the members that have
  settled, by their places;
* `Run.Turns.executions_eq`: the executions in the record, but for their times;
* `Run.Turns.settles`: how a member has settled, from what those before it have left.
-/

namespace Coordination

variable {σ : Type}

namespace Run

/-! ## The members that have settled -/

variable {members : List (Member σ)}

theorem settlements_eq_map_finished (members : List (Member σ)) :
    settlements members = (finished members).map (·.2) := by
  rw [settlements, finished, List.map_filterMap]
  exact List.filterMap_congr fun member _ => by
    cases member.phase.settlement? <;> rfl

theorem succeeded_eq_countP_finished (members : List (Member σ)) :
    succeeded members = (finished members).countP (·.2.isSuccess) := by
  rw [succeeded, settlements_eq_map_finished, List.countP_map]
  rfl

theorem failed_eq_countP_finished (members : List (Member σ)) :
    failed members = (finished members).countP (!·.2.isSuccess) := by
  rw [failed_eq_countP, settlements_eq_map_finished, List.countP_map]
  rfl

theorem events_eq_flatMap_finished (members : List (Member σ)) :
    events members = (finished members).flatMap (·.2.events) := by
  rw [events, settlements_eq_map_finished, List.flatMap_map]

theorem length_finished_of_all (h : ∀ member ∈ members, member.phase.settlement?.isSome) :
    (finished members).length = members.length := by
  rw [← length_settlements_of_all h, settlements_eq_map_finished, List.length_map]

theorem inTurn_of_all (h : ∀ member ∈ members, member.phase.settlement?.isSome) :
    InTurn (fun _ => true) members := by
  refine List.pairwise_iff_getElem.2 fun i j hi hj _ _ => ?_
  obtain ⟨settlement, hsettled⟩ := Option.isSome_iff_exists.1 (h _ (List.getElem_mem hi))
  rw [hsettled]
  rfl

namespace InTurn

variable {passes : Settlement → Bool} (h : InTurn passes members)
include h

theorem getElem?_finished (index : Nat) : (finished members)[index]? =
    members[index]?.bind fun member => member.phase.settlement?.map (member.definition, ·) := by
  induction members generalizing index with
  | nil => rfl
  | cons member rest ih =>
    obtain ⟨hfirst, hrest⟩ := List.pairwise_cons.1 h
    cases hsettled : member.phase.settlement? with
    | none =>
      -- Nobody behind it has started.
      have hnone : ∀ other ∈ member :: rest, other.phase.settlement? = none := by
        refine List.forall_mem_cons.2 ⟨hsettled, fun other hmem => ?_⟩
        refine Member.unsettled_of_unstarted (Bool.eq_false_iff.2 fun hstarted => ?_)
        simpa [hsettled] using hfirst other hmem hstarted
      rw [finished_eq_nil hnone, List.getElem?_nil]
      cases hget : (member :: rest)[index]? with
      | none => rfl
      | some other => simp [hnone other (List.mem_of_getElem? hget)]
    | some settlement =>
      have hcons :
          finished (member :: rest) = (member.definition, settlement) :: finished rest := by
        simp [finished, hsettled]
      rw [hcons]
      cases index with
      | zero => simp [hsettled]
      | succ index => exact ih hrest index

/-- The members that have settled are the first ones. -/
theorem settledAt_iff_getElem? {index : Nat} {definition : Definition} {settlement : Settlement} :
    SettledAt members index definition settlement ↔
      (finished members)[index]? = some (definition, settlement) := by
  rw [h.getElem?_finished, settledAt_iff]
  simp only [Option.bind_eq_some_iff, Option.map_eq_some_iff, Prod.mk.injEq]
  constructor
  · rintro ⟨member, hget, rfl, hs⟩
    exact ⟨member, hget, settlement, hs, rfl, rfl⟩
  · rintro ⟨member, hget, _, hs, rfl, rfl⟩
    exact ⟨member, hget, rfl, hs⟩

/-- All before one that has settled have settled as `passes` says. -/
theorem passes_of_lt {i j : Nat} (hlt : i < j) (hj : j < (finished members).length)
    {stage : Definition × Settlement} (hget : (finished members)[i]? = some stage) :
    passes stage.2 := by
  obtain ⟨later, hlater, -, hsome⟩ := settledAt_iff.1
    (h.settledAt_iff_getElem?.2 (List.getElem?_eq_getElem hj))
  obtain ⟨member, hmember, -, hsettled⟩ := settledAt_iff.1 (h.settledAt_iff_getElem?.2 hget)
  obtain ⟨hilt, rfl⟩ := List.getElem?_eq_some_iff.1 hmember
  obtain ⟨hjlt, rfl⟩ := List.getElem?_eq_some_iff.1 hlater
  have hpasses := List.pairwise_iff_getElem.1 h i j hilt hjlt hlt
    (Member.hasStarted_of_settled (by rw [hsome]; rfl))
  rwa [hsettled] at hpasses

theorem finished_take {index : Nat} (hle : index ≤ (finished members).length) :
    finished (members.take index) = (finished members).take index := by
  have hall : ∀ member ∈ members.take index, member.phase.settlement?.isSome := by
    intro member hmem
    obtain ⟨i, hget⟩ := List.mem_iff_getElem?.1 hmem
    rw [List.getElem?_take] at hget
    split at hget
    next hlt =>
      have hi : i < (finished members).length := by omega
      obtain ⟨other, hother, -, hsettled⟩ := settledAt_iff.1
        (h.settledAt_iff_getElem?.2 (List.getElem?_eq_getElem hi))
      rw [Option.some.inj (hget.symm.trans hother), hsettled]
      rfl
    next => cases hget
  have hlength := length_finished_of_all hall
  have hsplit := finished_append (members.take index) (members.drop index)
  rw [List.take_append_drop] at hsplit
  have htake : (members.take index).length = index := by
    have : (finished members).length ≤ members.length := List.length_filterMap_le ..
    rw [List.length_take]
    omega
  rw [hsplit, List.take_append_of_le_length (by omega)]
  exact (List.take_of_length_le (by omega)).symm

end InTurn

end Run

/-! ## The executions -/

/-- The execution of a sub-task that has settled so, if all in the places before
it have succeeded, but for its times. -/
def Execution.ofStage («namespace» id : String) (index : Nat)
    (stage : Definition × Settlement) : Execution :=
  { ofSettlement «namespace» id index stage.1 stage.2 with
    completionOrder := if stage.2.isSuccess then some (index + 1) else none }

/-- A success is numbered by its place while all before it are successes. -/
theorem Record.Numbered.completionOrder_eq {record : Record} (h : record.Numbered) {index : Nat}
    {execution : Execution} (hget : record.executions[index]? = some execution)
    (hsuccess : execution.isSuccess)
    (hbefore : ∀ known ∈ record.executions.take index, known.isSuccess) :
    execution.completionOrder = some (index + 1) := by
  obtain ⟨hlt, rfl⟩ := List.getElem?_eq_some_iff.1 hget
  have horders := h.orders
  rw [← List.take_append_drop index record.executions, List.filter_append,
    List.filter_eq_self.2 hbefore, List.drop_eq_getElem_cons hlt,
    List.filter_cons_of_pos hsuccess] at horders
  have hplace := congrArg (·[index]?) horders
  simp only [List.map_append, List.map_cons, List.map_take, List.getElem?_map] at hplace
  have htake : ((record.executions.map (·.completionOrder)).take index).length = index := by
    rw [List.length_take, List.length_map, Nat.min_eq_left (by omega)]
  rw [List.getElem?_append_right htake.le, htake, Nat.sub_self, List.getElem?_cons_zero] at hplace
  obtain ⟨order, horder, hsome⟩ := Option.map_eq_some_iff.1 hplace.symm
  obtain ⟨hplaced, rfl⟩ := List.getElem?_eq_some_iff.1 horder
  rw [← hsome, List.getElem_range', Nat.one_mul, Nat.add_comm]

namespace Run

variable {passes : Settlement → Bool} {behave : σ → Poll σ} {workflow : Workflow σ}
  {maxValueBytes : Nat} {context : Context} {initial : KeyMap String} {floor : Floor}
  {members : List (Member (Traced σ))} {record : Record}

namespace Turns

variable (h : Turns behave workflow maxValueBytes context initial passes floor members)
include h

/-- A member that has settled has done so from what those before it have left. -/
theorem settles {index : Nat} {member : Member (Traced σ)} (hget : members[index]? = some member)
    {settlement : Settlement} (hsettled : member.phase.settlement? = some settlement) : ∃ task,
      workflow.members[index]? = some (member.definition, task) ∧
      Settles behave True (workflow.terms maxValueBytes context) index member.definition task
        (valuesAfter workflow.isKeyed initial (members.take index)) settlement member.process := by
  obtain ⟨task, htask, hstands⟩ := h.standing index member hget
  obtain ⟨_, rfl, hsettles⟩ := hstands.settles hsettled
  exact ⟨task, htask, hsettles⟩

/-- The executions are those of the first places, in their order. -/
theorem map_index_executions (hkeyed : workflow.isKeyed = true)
    (hrecord : floor.ledger.get? context.session.id = some record)
    (haccord : Accord workflow.plan context.session.id members record) :
    record.executions.map (·.index) = List.range (finished members).length := by
  refine List.Perm.eq_of_pairwise (fun a b _ _ hab hba => absurd (Nat.lt_trans hab hba)
    (Nat.lt_irrefl a)) (h.ascending hkeyed record hrecord) List.pairwise_lt_range ?_
  rw [List.perm_ext_iff_of_nodup haccord.nodup List.nodup_range]
  intro index
  rw [List.mem_map, List.mem_range]
  constructor
  · rintro ⟨execution, hmem, rfl⟩
    obtain ⟨definition, settlement, hsettled, -⟩ := haccord.told execution hmem
    exact (List.getElem?_eq_some_iff.1 (h.inTurn.settledAt_iff_getElem?.1 hsettled)).1
  · intro hlt
    obtain ⟨execution, hmem, hindex⟩ := haccord.complete index _ _
      (h.inTurn.settledAt_iff_getElem?.2 (List.getElem?_eq_getElem hlt))
    exact ⟨execution, hmem, hindex⟩

/-- The execution in a place tells how the member of the place has settled. -/
theorem exists_stage (hkeyed : workflow.isKeyed = true)
    (hrecord : floor.ledger.get? context.session.id = some record)
    (haccord : Accord workflow.plan context.session.id members record)
    (htended : record.Tended workflow.plan context) {index : Nat} {execution : Execution}
    (hget : record.executions[index]? = some execution) : ∃ stage,
      (finished members)[index]? = some stage ∧ execution.isSuccess = stage.2.isSuccess ∧
      execution.unordered =
        .ofSettlement workflow.plan.namespace context.session.id index stage.1 stage.2 := by
  have hindex : execution.index = index := by
    have hplace := congrArg (·[index]?) (h.map_index_executions hkeyed hrecord haccord)
    simp only [List.getElem?_map, hget, Option.map_some] at hplace
    rw [eq_comm, List.getElem?_eq_some_iff] at hplace
    obtain ⟨hplaced, hplace⟩ := hplace
    rw [← hplace, List.getElem_range]
  obtain ⟨definition, settlement, hsettled, htells⟩ :=
    haccord.told execution (List.mem_of_getElem? hget)
  have hunordered := haccord.unordered_eq htended (List.mem_of_getElem? hget) hsettled
  rw [hindex] at hsettled hunordered
  exact ⟨_, h.inTurn.settledAt_iff_getElem?.1 hsettled, htells.isSuccess, hunordered⟩

/-- While all but the last succeed, each execution tells how the sub-task of its
place has settled, and is numbered by it. -/
theorem executions_eq (hkeyed : workflow.isKeyed = true)
    (hrecord : floor.ledger.get? context.session.id = some record)
    (haccord : Accord workflow.plan context.session.id members record)
    (htended : record.Tended workflow.plan context)
    (hsuccess : ∀ (index : Nat) (stage : Definition × Settlement),
      (finished members)[index]? = some stage → index + 1 < (finished members).length →
      stage.2.isSuccess) :
    record.executions.map (·.timeless) = (finished members).mapIdx
      (Execution.ofStage workflow.plan.namespace context.session.id) := by
  have hlength := congrArg List.length (h.map_index_executions hkeyed hrecord haccord)
  rw [List.length_map, List.length_range] at hlength
  refine List.ext_getElem? fun index => ?_
  rw [List.getElem?_map, List.getElem?_mapIdx]
  cases hget : record.executions[index]? with
  | none =>
    rw [List.getElem?_eq_none_iff, hlength] at hget
    rw [List.getElem?_eq_none hget]
    rfl
  | some execution =>
    obtain ⟨stage, hstage, hsame, hunordered⟩ :=
      h.exists_stage hkeyed hrecord haccord htended hget
    rw [hstage, Option.map_some, Option.map_some, Option.some.injEq]
    show execution.timeless = (Execution.ofStage _ _ index stage).timeless
    refine Execution.timeless_eq_of_unordered hunordered ?_
    cases hend : stage.2.isSuccess with
    | false =>
      have hfailed := (execution.isSuccess_eq_false_iff).1 (hsame.trans hend)
      rw [(haccord.numbered.failed execution (List.mem_of_getElem? hget) hfailed).1]
      simp [Execution.ofStage, hend]
    | true =>
      rw [haccord.numbered.completionOrder_eq hget (hsame.trans hend)]
      · simp [Execution.ofStage, hend]
      · intro known hknown
        obtain ⟨i, hi⟩ := List.mem_iff_getElem?.1 hknown
        rw [List.getElem?_take] at hi
        split at hi
        next hlt =>
          obtain ⟨earlier, hearlier, hknown, -⟩ :=
            h.exists_stage hkeyed hrecord haccord htended hi
          have hplaced := (List.getElem?_eq_some_iff.1 hstage).1
          rw [hknown, hsuccess i earlier hearlier (by omega)]
        next => cases hi

end Turns

end Run

end Coordination
