import Mathlib.Data.List.Nodup
import Coordination.Proofs.Run.Accord

/-!
# What the record of a run tells

A record in accord with the members of its run has one execution for each
member that has settled, and no other (`Accord.perm_settled`), so it counts
successes and failures as the report does, and holds one output for each
success with a key (`Accord.perm_keys`).

* `Accord.countP_isSuccess`, `Accord.countP_failed`: the numbers in the report
  are those of the executions;
* `Accord.perm_range`: once all have settled there is one execution for each;
* `Accord.events_eq`: the events in the report can be told from the record.
-/

namespace Coordination

variable {σ : Type}

/-- The events of a member that has settled. -/
theorem Member.Coherent.events_of_settled {plan : Plan} {id : String} {index : Nat}
    {member : Member (Traced σ)} (h : member.Coherent plan id index) {settlement : Settlement}
    (hsettled : member.phase.settlement? = some settlement) :
    settlement.events = member.process.events ++
      settlement.error.toList.map (.failure plan.name member.definition.name) := by
  rw [Phase.settlement?_eq_some] at hsettled
  obtain ⟨events, error⟩ := settlement
  cases error with
  | none =>
    simp only [Member.Coherent, hsettled] at h
    simp [h.1]
  | some message =>
    simp only [Member.Coherent, hsettled] at h
    simp [h]

/-- A member that has succeeded has come to a good end. -/
theorem Member.Coherent.ended_of_success {plan : Plan} {id : String} {index : Nat}
    {member : Member (Traced σ)} (h : member.Coherent plan id index) {settlement : Settlement}
    (hsettled : member.phase.settlement? = some settlement) (hsuccess : settlement.isSuccess) :
    settlement.events = member.process.events ∧ member.process.Ended := by
  rw [Phase.settlement?_eq_some] at hsettled
  obtain ⟨events, error⟩ := settlement
  obtain rfl : error = none := by simpa [Settlement.isSuccess] using hsuccess
  simpa only [Member.Coherent, hsettled] using h

/-- The places of the members that have settled, and whether they succeeded. -/
def settledOf (members : List (Member σ)) : List (Nat × Bool) :=
  members.zipIdx.filterMap fun (member, index) =>
    member.phase.settlement?.map fun settlement => (index, settlement.isSuccess)

theorem mem_settledOf {members : List (Member σ)} {index : Nat} {success : Bool} :
    (index, success) ∈ settledOf members ↔
      ∃ definition settlement, SettledAt members index definition settlement ∧
        settlement.isSuccess = success := by
  simp only [settledOf, List.mem_filterMap, Option.map_eq_some_iff, Prod.mk.injEq, Prod.exists,
    List.mem_zipIdx_iff_getElem?, settledAt_iff]
  constructor
  · rintro ⟨member, i, hget, settlement, hs, rfl, hsuccess⟩
    exact ⟨_, settlement, ⟨member, hget, rfl, hs⟩, hsuccess⟩
  · rintro ⟨definition, settlement, ⟨member, hget, -, hs⟩, hsuccess⟩
    exact ⟨member, index, hget, settlement, hs, rfl, hsuccess⟩

theorem nodup_settledOf (members : List (Member σ)) :
    ((settledOf members).map Prod.fst).Nodup := by
  have hplaces : members.zipIdx.Pairwise fun a b => a.2 ≠ b.2 := by
    rw [← List.pairwise_map (f := Prod.snd), List.zipIdx_map_snd]
    exact List.nodup_range'
  rw [settledOf, List.Nodup, List.pairwise_map, List.pairwise_filterMap]
  refine hplaces.imp fun {a b} hne => ?_
  simp only [Option.map_eq_some_iff]
  rintro _ ⟨_, _, rfl⟩ _ ⟨_, _, rfl⟩
  exact hne

theorem map_snd_settledOf (members : List (Member σ)) :
    (settledOf members).map Prod.snd = (Run.settlements members).map (·.isSuccess) := by
  rw [settledOf, Run.settlements, List.map_filterMap, List.map_filterMap]
  conv_rhs => rw [← List.zipIdx_map_fst 0 members, List.filterMap_map]
  simp [Function.comp_def]

/-- Once all have settled, every place is among theirs. -/
theorem map_fst_settledOf {members : List (Member σ)}
    (h : ∀ member ∈ members, member.phase.settlement?.isSome) :
    ((settledOf members).map Prod.fst).Perm (List.range members.length) := by
  rw [List.perm_ext_iff_of_nodup (nodup_settledOf members) List.nodup_range]
  intro index
  simp only [List.mem_map, Prod.exists, mem_settledOf, settledAt_iff, List.mem_range]
  constructor
  · rintro ⟨i, _, ⟨_, _, ⟨member, hget, -⟩, -⟩, rfl⟩
    exact (List.getElem?_eq_some_iff.1 hget).1
  · intro hlt
    obtain ⟨settlement, hs⟩ := Option.isSome_iff_exists.1 (h _ (List.getElem_mem hlt))
    exact ⟨index, _, ⟨_, settlement, ⟨_, List.getElem?_eq_getElem hlt, rfl, hs⟩, rfl⟩, rfl⟩

namespace Run

variable {plan : Plan} {id : String} {members : List (Member (Traced σ))} {record : Record}
  {index : Nat} {definition : Definition} {settlement : Settlement}

namespace Accord

/-- The execution of a member that has settled, and the only one. -/
theorem find?_execution (h : Accord plan id members record)
    (hsettled : SettledAt members index definition settlement) :
    ∃ execution, record.executions.find? (·.index = index) = some execution ∧
      execution.index = index ∧ execution.Tells plan id definition settlement := by
  obtain ⟨known, hknown, hindex⟩ := h.complete index definition settlement hsettled
  have hfound : (record.executions.find? (·.index = index)).isSome :=
    List.find?_isSome.2 ⟨known, hknown, by simpa using hindex⟩
  obtain ⟨execution, hfind⟩ := Option.isSome_iff_exists.1 hfound
  have hplace : execution.index = index := by simpa using List.find?_some hfind
  obtain ⟨d, s, hs, htells⟩ := h.told execution (List.mem_of_find?_eq_some hfind)
  rw [SettledAt, hplace, hsettled] at hs
  obtain ⟨rfl, rfl⟩ : definition = d ∧ settlement = s := by simpa using hs
  exact ⟨execution, hfind, hplace, htells⟩

theorem exists_execution (h : Accord plan id members record)
    (hsettled : SettledAt members index definition settlement) :
    ∃ execution ∈ record.executions, execution.index = index ∧
      execution.Tells plan id definition settlement := by
  obtain ⟨execution, hfind, hindex, htells⟩ := h.find?_execution hsettled
  exact ⟨execution, List.mem_of_find?_eq_some hfind, hindex, htells⟩

/-- The executions are those of the members that have settled. -/
theorem perm_settled (h : Accord plan id members record) :
    (record.executions.map fun e => (e.index, e.isSuccess)).Perm (settledOf members) := by
  have hnodup : ((record.executions.map fun e => (e.index, e.isSuccess)).map Prod.fst).Nodup := by
    simpa [Function.comp_def] using h.nodup
  -- No place is in either list twice, so it is enough that they have the same elements.
  rw [List.perm_ext_iff_of_nodup (.of_map _ hnodup) (.of_map _ (nodup_settledOf members))]
  rintro ⟨index, success⟩
  rw [mem_settledOf]
  simp only [List.mem_map, Prod.mk.injEq]
  constructor
  · rintro ⟨e, hmem, rfl, rfl⟩
    obtain ⟨d, s, hs, htells⟩ := h.told e hmem
    exact ⟨d, s, hs, htells.isSuccess.symm⟩
  · rintro ⟨d, s, hs, rfl⟩
    obtain ⟨e, hmem, hindex, htells⟩ := h.exists_execution hs
    exact ⟨e, hmem, hindex, htells.isSuccess⟩

theorem length_executions (h : Accord plan id members record) :
    record.executions.length = (settlements members).length := by
  have := (h.perm_settled.map Prod.snd).length_eq
  rw [map_snd_settledOf] at this
  simpa using this

/-- As many executions succeeded as members did. -/
theorem countP_isSuccess (h : Accord plan id members record) :
    record.executions.countP (·.isSuccess) = succeeded members := by
  have := (h.perm_settled.map Prod.snd).countP_eq (· = true)
  rw [map_snd_settledOf] at this
  simpa [List.countP_map, Function.comp_def, succeeded] using this

theorem countP_failed (h : Accord plan id members record) :
    record.executions.countP (·.status = .failed) = failed members := by
  have hnot : ∀ e : Execution, (!e.isSuccess) = decide (e.status = .failed) := by
    intro e
    rw [Bool.eq_iff_iff, Bool.not_eq_true', decide_eq_true_iff, e.isSuccess_eq_false_iff]
  have htotal := record.executions.length_eq_countP_add_countP (·.isSuccess)
  simp only [h.length_executions, h.countP_isSuccess, Bool.not_eq_true, Bool.decide_eq_false,
    hnot] at htotal
  rw [failed]
  omega

/-- Once all have settled, there is one execution for each. -/
theorem perm_range (h : Accord plan id members record)
    (hall : ∀ member ∈ members, member.phase.settlement?.isSome) :
    (record.executions.map (·.index)).Perm (List.range members.length) := by
  have := h.perm_settled.map Prod.fst
  rw [List.map_map] at this
  exact this.trans (map_fst_settledOf hall)

/-! ## Outputs -/

/-- No two executions have the same output key. -/
theorem nodup_outputKeys (h : Accord plan id members record) :
    (record.executions.filterMap (·.outputKey)).Nodup := by
  rw [List.Nodup, List.pairwise_filterMap]
  refine (List.pairwise_map.1 h.nodup).imp_of_mem ?_
  intro a b ha hb hne key hkey other hother heq
  obtain ⟨da, sa, hsa, htellsa⟩ := h.told a ha
  obtain ⟨db, sb, hsb, htellsb⟩ := h.told b hb
  refine hne (h.distinct a.index b.index da db key hsa.definition hsb.definition ?_ ?_)
  · rw [← htellsa.draft.outputKey, hkey]
  · rw [← htellsb.draft.outputKey, hother, heq]

/-- There is one output for each success with a key, and no other. -/
theorem perm_keys (h : Accord plan id members record) :
    record.outputs.keys.Perm
      ((record.executions.filter (·.isSuccess)).filterMap (·.outputKey)) := by
  have hkeys : record.outputs.keys.Nodup :=
    record.outputs.keys_ascending.imp fun {a b} (hlt : a < b) (heq : a = b) =>
      String.lt_irrefl a (heq ▸ hlt)
  rw [List.perm_ext_iff_of_nodup hkeys
    (h.nodup_outputKeys.sublist (List.filter_sublist.filterMap _))]
  intro key
  rw [KeyMap.mem_keys, KeyMap.contains, Option.isSome_iff_exists]
  simp only [h.outputs, List.mem_filterMap, List.mem_filter]
  constructor
  · rintro ⟨_, i, d, s, hs, hsuccess, hkey, rfl⟩
    obtain ⟨e, hmem, -, htells⟩ := h.exists_execution hs
    exact ⟨e, ⟨hmem, by rw [htells.isSuccess, hsuccess]⟩, htells.draft.outputKey.trans hkey⟩
  · rintro ⟨e, ⟨hmem, hsuccess⟩, hkey⟩
    obtain ⟨d, s, hs, htells⟩ := h.told e hmem
    refine ⟨_, e.index, d, s, hs, ?_, htells.draft.outputKey.symm.trans hkey, rfl⟩
    rw [← htells.isSuccess, hsuccess]

end Accord

/-! ## Events -/

/-- What a member has a part in the report with, told from a record: nothing
without an execution, else all that its task yielded and its failure, if it failed. -/
def block (plan : Plan) (record : Record) (index : Nat) (member : Member (Traced σ)) :
    List Event :=
  match record.executions.find? (·.index = index) with
  | none => []
  | some execution => member.process.events ++
      execution.error.toList.map (.failure plan.name member.definition.name)

/-- The events in the report are those of the members with an execution, in
the order of the members. -/
theorem Accord.events_eq (h : Accord plan id members record) :
    events members = members.zipIdx.flatMap fun (member, index) =>
      block plan record index member := by
  have hblock : ∀ place ∈ members.zipIdx,
      (place.1.phase.settlement?.elim [] (·.events)) = block plan record place.2 place.1 := by
    rintro ⟨member, index⟩ hmem
    have hget : members[index]? = some member := List.mem_zipIdx_iff_getElem?.1 hmem
    cases hsettled : member.phase.settlement? with
    | none =>
      have hnone : record.executions.find? (·.index = index) = none := by
        simpa using h.index_ne hget hsettled
      simp [block, hnone]
    | some settlement =>
      obtain ⟨execution, hfind, -, htells⟩ :=
        h.find?_execution (settledAt_iff.2 ⟨member, hget, rfl, hsettled⟩)
      simp only [block, hfind, Option.elim_some, htells.error]
      exact (h.coherent index member hget).events_of_settled hsettled
  have hfst := List.zipIdx_map_fst 0 members
  rw [← List.flatMap_congr hblock, events, settlements, List.filterMap_eq_flatMap_toList]
  conv_lhs => rw [← hfst]
  simp only [List.flatMap_map, List.flatMap_assoc]
  refine List.flatMap_congr fun place _ => ?_
  cases place.1.phase.settlement? <;> simp

end Run

end Coordination
