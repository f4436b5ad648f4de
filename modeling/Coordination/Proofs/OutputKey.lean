import Mathlib.Data.List.Nodup
import Mathlib.Data.List.Sort
import Coordination.Workflow

/-!
# Unique output keys

Going through a list of keys once finds those that occur in it more than once
(`OutputKey.mem_duplicates`; `Sightings.Of` is what holds on the way). So
`OutputKey.checkUnique` accepts exactly the lists in which no key occurs twice
(`checkUnique_eq_ok_iff`), so the sub-tasks of a workflow that may be run have
different output keys (`Workflow.check_eq_ok_iff`).
-/

namespace Coordination

namespace KeyMap

variable {α : Type}

@[simp] theorem contains_insert (m : KeyMap α) (key : String) (value : α) (k : String) :
    (m.insert key value).contains k ↔ k = key ∨ m.contains k := by
  simp only [contains, get?_insert]
  by_cases h : key = k
  · simp [h]
  · simp [h, Ne.symm h]

theorem get?_foldl_insert_of_nodup {entries : List (String × α)} (m : KeyMap α)
    (h : (entries.map (·.1)).Nodup) {key : String} {value : α} :
    (entries.foldl (fun m e => m.insert e.1 e.2) m).get? key = some value ↔
      (key, value) ∈ entries ∨ key ∉ entries.map (·.1) ∧ m.get? key = some value := by
  induction entries generalizing m with
  | nil => simp
  | cons e rest ih =>
    obtain ⟨hnew, hrest⟩ := List.nodup_cons.1 h
    obtain ⟨known, text⟩ := e
    rw [List.foldl_cons, ih _ hrest, get?_insert]
    by_cases hkey : known = key
    · subst hkey
      have hfree : (known, value) ∉ rest := fun hmem => hnew (List.mem_map.2 ⟨_, hmem, rfl⟩)
      simp [hnew, hfree, eq_comm]
    · simp [hkey, Ne.symm hkey]

/-- A map made of a list in which no key repeats holds what the list does. -/
theorem get?_ofList {entries : List (String × α)} (h : (entries.map (·.1)).Nodup) {key : String}
    {value : α} : (ofList entries).get? key = some value ↔ (key, value) ∈ entries := by
  rw [ofList, get?_foldl_insert_of_nodup _ h]
  simp

end KeyMap

namespace OutputKey

/-- What has been met of a list of keys: all of them, and those that occur in it more than
once again. -/
structure Sightings.Of (keys : List String) (sightings : Sightings) : Prop where
  seen : ∀ key, sightings.seen.contains key ↔ key ∈ keys
  again : ∀ key, sightings.again.contains key ↔ 1 < keys.count key

namespace Sightings.Of

variable {keys : List String} {sightings : Sightings}

theorem start : Of [] .start := by
  constructor <;> simp [Sightings.start, KeyMap.contains]

/-- A key that is met occurs once more. -/
theorem meet (h : sightings.Of keys) (key : String) : (sightings.meet key).Of (keys ++ [key]) := by
  have hcount : ∀ k, (keys ++ [key]).count k = keys.count k + if key = k then 1 else 0 := by
    simp [List.count_append, List.count_singleton]
  unfold Sightings.meet
  split
  next hseen =>
    have hmem := (h.seen key).1 hseen
    refine ⟨fun k => ?_, fun k => ?_⟩
    · rw [h.seen]
      simp only [List.mem_append, List.mem_singleton]
      exact ⟨.inl, fun hk => hk.elim id fun hk => hk ▸ hmem⟩
    · rw [KeyMap.contains_insert, h.again, hcount]
      have hpos := List.count_pos_iff.2 hmem
      by_cases hk : key = k
      · subst hk
        simp [hpos]
      · simp [hk, Ne.symm hk]
  next hnew =>
    have hfresh : key ∉ keys := fun hmem => hnew ((h.seen key).2 hmem)
    refine ⟨fun k => ?_, fun k => ?_⟩
    · rw [KeyMap.contains_insert, h.seen, List.mem_append, List.mem_singleton, or_comm]
    · rw [h.again, hcount]
      by_cases hk : key = k
      · subst hk
        simp [List.count_eq_zero.2 hfresh]
      · simp [hk]

/-- So it is with all keys of a list that is gone through. -/
theorem foldl (h : sightings.Of keys) (more : List String) :
    (more.foldl Sightings.meet sightings).Of (keys ++ more) := by
  induction more generalizing keys sightings with
  | nil => rwa [List.append_nil]
  | cons key rest ih =>
    rw [List.append_cons]
    exact ih (h.meet key)

end Sightings.Of

/-- The duplicates are the keys that occur more than once. -/
theorem mem_duplicates {keys : List String} {key : String} :
    key ∈ duplicates keys ↔ 1 < keys.count key := by
  rw [duplicates, KeyMap.mem_keys]
  exact (Sightings.Of.start.foldl keys).again key

theorem duplicates_eq_nil_iff {keys : List String} : duplicates keys = [] ↔ keys.Nodup := by
  rw [List.eq_nil_iff_forall_not_mem, List.nodup_iff_count_le_one]
  exact forall_congr' fun key => by rw [mem_duplicates, Nat.not_lt]

/-- Exactly the lists without a repeated key pass the check. -/
theorem checkUnique_eq_ok_iff {keys : List String} : checkUnique keys = .ok () ↔ keys.Nodup := by
  rw [← duplicates_eq_nil_iff, checkUnique]
  cases duplicates keys <;> simp

/-- In which order keys are gone through makes no difference. -/
theorem checkUnique_perm {keys keys' : List String} (h : keys.Perm keys') :
    checkUnique keys' = checkUnique keys := by
  have hsame : duplicates keys' = duplicates keys :=
    (KeyMap.keys_ascending _).eq_of_mem_iff (KeyMap.keys_ascending _) fun key => by
      have hcount : 1 < keys'.count key ↔ 1 < keys.count key := by rw [h.count_eq]
      exact mem_duplicates.trans (hcount.trans mem_duplicates.symm)
  rw [checkUnique, checkUnique, hsame]

end OutputKey

/-- The workflows that may be run. -/
theorem Workflow.check_eq_ok_iff {τ : Type} {workflow : Workflow τ} :
    workflow.check = .ok () ↔
      (∀ workers, workflow.plan.order = .parallel workers → checkWorkers workers = .ok ()) ∧
        workflow.outputKeys.Nodup := by
  rw [check, ← OutputKey.checkUnique_eq_ok_iff]
  cases workflow.plan.order with
  | sequential => simp
  | parallel workers =>
    simp only [Order.parallel.injEq, forall_eq', bind, Except.bind]
    cases checkWorkers workers <;> simp

end Coordination
