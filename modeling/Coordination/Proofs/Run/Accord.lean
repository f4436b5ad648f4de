import Mathlib.Data.List.Perm.Basic
import Coordination.Proofs.Ledger.Upkeep
import Coordination.Proofs.Run.Visit

/-!
# The record of a run and its members

In a run with output keys four things change apart from one another: where
the members stand, the executions in the record, its counter and its outputs.
They agree after every visit (`Run.Accord`): there is one execution for each
member that has settled, telling how it did, and one output for each that
succeeded and has a key.

* `SettledAt`, `Execution.Tells`: how a member has settled, and what an
  execution says of that;
* `Accord.settled`: the accord is kept when one member settles and one
  execution more tells so;
* `Accord.moved`: a visit keeps the accord.
-/

namespace Coordination

variable {σ : Type}

/-- What a member is and how it has settled, if it has. -/
def Member.standing (member : Member σ) : Definition × Option Settlement :=
  (member.definition, member.phase.settlement?)

/-- The member of an index has settled so. -/
def SettledAt (members : List (Member σ)) (index : Nat) (definition : Definition)
    (settlement : Settlement) : Prop :=
  members[index]?.map Member.standing = some (definition, some settlement)

theorem settledAt_iff {members : List (Member σ)} {index : Nat} {definition : Definition}
    {settlement : Settlement} : SettledAt members index definition settlement ↔
      ∃ member, members[index]? = some member ∧ member.definition = definition ∧
        member.phase.settlement? = some settlement := by
  simp [SettledAt, Member.standing, Option.map_eq_some_iff]

theorem SettledAt.definition {members : List (Member σ)} {index : Nat} {definition : Definition}
    {settlement : Settlement} (h : SettledAt members index definition settlement) :
    (members.map (·.definition))[index]? = some definition := by
  obtain ⟨member, hget, rfl, -⟩ := settledAt_iff.1 h
  rw [List.getElem?_map, hget, Option.map_some]

/-- No two of the definitions have the same output key. -/
def DistinctKeys (definitions : List Definition) : Prop :=
  ∀ (i j : Nat) (a b : Definition) (key : String), definitions[i]? = some a →
    definitions[j]? = some b → a.outputKey = some key → b.outputKey = some key → i = j

/-- Whether an execution tells how a member settled. -/
structure Execution.Tells (plan : Plan) (id : String) (definition : Definition)
    (settlement : Settlement) (execution : Execution) : Prop where
  draft : execution.toDraft.Of plan id execution.index definition
  status : execution.status = if settlement.isSuccess then .success else .failed
  error : execution.error = settlement.error
  outputSize : settlement.isSuccess → definition.outputKey.isSome →
    execution.outputSize = (textOf settlement.events).utf8ByteSize

theorem Execution.isSuccess_eq_false_iff (execution : Execution) :
    execution.isSuccess = false ↔ execution.status = .failed := by
  cases h : execution.status <;> simp [isSuccess, h]

theorem Execution.Tells.isSuccess {plan : Plan} {id : String} {definition : Definition}
    {settlement : Settlement} {execution : Execution}
    (h : execution.Tells plan id definition settlement) :
    execution.isSuccess = settlement.isSuccess := by
  cases hs : settlement.isSuccess <;> simp [Execution.isSuccess, h.status, hs]

/-- The record of a run with output keys agrees with how its members stand. -/
structure Run.Accord (plan : Plan) (id : String) (members : List (Member (Traced σ)))
    (record : Record) : Prop where
  running : record.status = .running
  numbered : record.Numbered
  /-- No member has two executions. -/
  nodup : (record.executions.map (·.index)).Nodup
  told : ∀ execution ∈ record.executions, ∃ definition settlement,
    SettledAt members execution.index definition settlement ∧
      execution.Tells plan id definition settlement
  /-- Every member that has settled has an execution. -/
  complete : ∀ index definition settlement, SettledAt members index definition settlement →
    ∃ execution ∈ record.executions, execution.index = index
  outputs : ∀ key value, record.outputs.get? key = some value ↔
    ∃ index definition settlement, SettledAt members index definition settlement ∧
      settlement.isSuccess ∧ definition.outputKey = some key ∧ textOf settlement.events = value
  coherent : ∀ (index : Nat) (member : Member (Traced σ)), members[index]? = some member →
    member.Coherent plan id index
  distinct : DistinctKeys (members.map (·.definition))

/-! ## Settling one member -/

section Set

variable {members : List (Member σ)} {index : Nat} {member after : Member σ}

theorem settledAt_set (hget : members[index]? = some member) {i : Nat} {definition : Definition}
    {settlement : Settlement} : SettledAt (members.set index after) i definition settlement ↔
      if i = index then after.standing = (definition, some settlement)
      else SettledAt members i definition settlement := by
  have hlt : index < members.length := (List.getElem?_eq_some_iff.1 hget).1
  rw [SettledAt, List.getElem?_set]
  by_cases h : i = index
  · subst h
    simp [hlt]
  · simp [h, Ne.symm h, SettledAt]

/-- A member that stands as before changes nothing. -/
theorem settledAt_set_of_standing (hget : members[index]? = some member)
    (hstanding : after.standing = member.standing) {i : Nat} {definition : Definition}
    {settlement : Settlement} : SettledAt (members.set index after) i definition settlement ↔
      SettledAt members i definition settlement := by
  rw [settledAt_set hget]
  split
  next heq => subst heq; simp [SettledAt, hget, hstanding]
  next => exact Iff.rfl

theorem SettledAt.ne_of_unsettled {i : Nat} {definition : Definition} {settlement : Settlement}
    (h : SettledAt members i definition settlement) (hget : members[index]? = some member)
    (hunsettled : member.phase.settlement? = none) : i ≠ index := by
  rintro rfl
  simp [SettledAt, hget, Member.standing, hunsettled] at h

/-- When a member settles, what can be said of some settled member can be said
of this one or could be said before. -/
theorem exists_settledAt_set (hget : members[index]? = some member)
    (hunsettled : member.phase.settlement? = none) {settlement : Settlement}
    (hsettlement : after.phase.settlement? = some settlement)
    {P : Definition → Settlement → Prop} :
    (∃ i d s, SettledAt (members.set index after) i d s ∧ P d s) ↔
      P after.definition settlement ∨ ∃ i d s, SettledAt members i d s ∧ P d s := by
  constructor
  · rintro ⟨i, d, s, hs, hP⟩
    rw [settledAt_set hget] at hs
    split at hs
    next => simp [Member.standing, hsettlement] at hs; exact .inl (hs.1 ▸ hs.2 ▸ hP)
    next => exact .inr ⟨i, d, s, hs, hP⟩
  · rintro (hP | ⟨i, d, s, hs, hP⟩)
    · refine ⟨index, after.definition, settlement, ?_, hP⟩
      rw [settledAt_set hget, if_pos rfl, Member.standing, hsettlement]
    · refine ⟨i, d, s, ?_, hP⟩
      rwa [settledAt_set hget, if_neg (hs.ne_of_unsettled hget hunsettled)]

theorem map_definition_set (hget : members[index]? = some member)
    (hdefinition : after.definition = member.definition) :
    (members.set index after).map (·.definition) = members.map (·.definition) := by
  have hlt : index < (members.map (·.definition)).length := by
    rw [List.length_map]
    exact (List.getElem?_eq_some_iff.1 hget).1
  rw [List.map_set, hdefinition]
  conv_rhs => rw [← List.set_getElem_self hlt]
  rw [List.getElem_map, (List.getElem?_eq_some_iff.1 hget).2]

end Set

namespace Run

variable {plan : Plan} {id : String} {members : List (Member (Traced σ))} {record : Record}
  {index : Nat} {member after : Member (Traced σ)} {record' : Record}

theorem coherent_set
    (h : ∀ (i : Nat) (m : Member (Traced σ)), members[i]? = some m → m.Coherent plan id i)
    (hafter : after.Coherent plan id index) (i : Nat) (m : Member (Traced σ))
    (hm : (members.set index after)[i]? = some m) : m.Coherent plan id i := by
  rw [List.getElem?_set] at hm
  split at hm
  next heq =>
    split at hm
    · cases hm; exact heq ▸ hafter
    · cases hm
  next => exact h i m hm

/-- Before it has settled, a member has no execution. -/
theorem Accord.index_ne (h : Accord plan id members record) (hget : members[index]? = some member)
    (hunsettled : member.phase.settlement? = none) :
    ∀ execution ∈ record.executions, execution.index ≠ index := by
  intro execution hmem
  obtain ⟨d, s, hs, -⟩ := h.told execution hmem
  exact hs.ne_of_unsettled hget hunsettled

/-- When a member settles and one execution more tells how, and the outputs are
those of the members that succeeded, the accord is kept. -/
theorem Accord.settled (h : Accord plan id members record) (hget : members[index]? = some member)
    (hunsettled : member.phase.settlement? = none)
    (hdefinition : after.definition = member.definition) {settlement : Settlement}
    (hsettlement : after.phase.settlement? = some settlement)
    (hcoherent : after.Coherent plan id index) {execution : Execution}
    (hindex : execution.index = index)
    (htells : execution.Tells plan id after.definition settlement)
    (hrunning : record'.status = record.status) (hnumbered : record'.Numbered)
    (hexecutions : record'.executions = record.executions ++ [execution])
    (houtputs : ∀ key value, record'.outputs.get? key = some value ↔
      (settlement.isSuccess ∧ after.definition.outputKey = some key ∧
        textOf settlement.events = value) ∨ record.outputs.get? key = some value) :
    Accord plan id (members.set index after) record' where
  running := hrunning.trans h.running
  numbered := hnumbered
  nodup := by
    rw [hexecutions, List.map_append, List.nodup_append]
    refine ⟨h.nodup, List.pairwise_singleton _ _, ?_⟩
    intro i hi j hj
    obtain ⟨e, he, rfl⟩ := List.mem_map.1 hi
    rw [List.map_singleton, List.mem_singleton] at hj
    rw [hj, hindex]
    exact h.index_ne hget hunsettled e he
  told := by
    intro e he
    rw [hexecutions, List.mem_append, List.mem_singleton] at he
    rcases he with he | rfl
    · obtain ⟨d, s, hs, htell⟩ := h.told e he
      refine ⟨d, s, ?_, htell⟩
      rwa [settledAt_set hget, if_neg (h.index_ne hget hunsettled e he)]
    · refine ⟨after.definition, settlement, ?_, htells⟩
      rw [settledAt_set hget, if_pos hindex, Member.standing, hsettlement]
  complete := by
    intro i d s hs
    rw [hexecutions]
    rw [settledAt_set hget] at hs
    split at hs
    next heq => exact ⟨execution, by simp, hindex.trans heq.symm⟩
    next =>
      obtain ⟨e, he, hi⟩ := h.complete i d s hs
      exact ⟨e, List.mem_append_left _ he, hi⟩
  outputs := by
    intro key value
    rw [houtputs, h.outputs]
    exact (exists_settledAt_set hget hunsettled hsettlement (P := fun d s =>
      s.isSuccess ∧ d.outputKey = some key ∧ textOf s.events = value)).symm
  coherent := coherent_set h.coherent hcoherent
  distinct := by
    rw [map_definition_set hget hdefinition]
    exact h.distinct

/-- A member that settles under a key finds no output there. -/
theorem Accord.get?_outputs_eq_none (h : Accord plan id members record)
    (hget : members[index]? = some member) (hunsettled : member.phase.settlement? = none)
    {key : String} (hkey : member.definition.outputKey = some key) :
    record.outputs.get? key = none := by
  rw [Option.eq_none_iff_forall_ne_some]
  intro value hvalue
  obtain ⟨i, d, s, hs, -, hd, -⟩ := (h.outputs key value).1 hvalue
  refine hs.ne_of_unsettled hget hunsettled ?_
  refine h.distinct i index d member.definition key hs.definition ?_ hd hkey
  rw [List.getElem?_map, hget, Option.map_some]

/-- A visit keeps the accord. -/
theorem Accord.moved (h : Accord plan id members record) (hget : members[index]? = some member)
    (hmoved : member.Moved plan id index record after record') :
    Accord plan id (members.set index after) record' := by
  cases hmoved with
  | onward hdefinition hsettlement hcoherent =>
    have hstanding : after.standing = member.standing := by
      rw [Member.standing, hdefinition, hsettlement]; rfl
    have hsettled := @settledAt_set_of_standing _ members index member after hget hstanding
    refine { h with told := ?_, complete := ?_, outputs := ?_, coherent := ?_, distinct := ?_ }
    · simp only [hsettled]; exact h.told
    · simp only [hsettled]; exact h.complete
    · simp only [hsettled]; exact h.outputs
    · exact coherent_set h.coherent hcoherent
    · rw [map_definition_set hget hdefinition]; exact h.distinct
  | @succeeded now draft hunsettled hdefinition hdraft hphase hended =>
    refine h.settled hget hunsettled hdefinition (by rw [hphase]; rfl) ?_ hdraft.index ?_
      (Record.status_commit ..) (h.numbered.commit ..) (Record.executions_commit ..) ?_
    · simp only [Member.Coherent, hphase]
      exact ⟨trivial, hended⟩
    · rw [hdefinition]
      refine ⟨hdraft.index ▸ hdraft, rfl, rfl, fun _ hkey => ?_⟩
      simp [Ledger.succeed, hdraft.outputKey, hkey]
    · intro key value
      rw [Record.outputs_commit, hdraft.outputKey, hdefinition]
      cases hkey : member.definition.outputKey with
      | none => simp
      | some own =>
        have hfree := h.get?_outputs_eq_none hget hunsettled hkey
        rw [KeyMap.get?_insert]
        by_cases heq : own = key
        · subst heq
          simp [hfree, Settlement.isSuccess]
        · simp [heq]
  | @failed now draft message hunsettled hdefinition hdraft hphase =>
    refine h.settled hget hunsettled hdefinition (by rw [hphase]; rfl) ?_ hdraft.index ?_
      rfl (h.numbered.appendFailure ..) rfl ?_
    · simp only [Member.Coherent, hphase, hdefinition]
    · rw [hdefinition]
      exact ⟨hdraft.index ▸ hdraft, rfl, rfl, fun hsuccess => by cases hsuccess⟩
    · intro key value
      simp [Settlement.isSuccess, Record.append]

end Run

end Coordination
