import Coordination.Proofs.Template.Rendering
import Mathlib.Data.List.Basic

/-!
# The names in a template

The names that a template refers to are listed once each, in the order in which they
first stand in it (`pairwise_placeholders`). They say all there is to know of what a
template needs: which maps it can be filled in from, and which name is missed first
(`find?_placeholders`).

* `pairwise_eraseDups`, `find?_eraseDups`: leaving out what was there before keeps the
  order of first appearance, and what is found first.
-/

namespace Coordination.Template

variable {template : String} {state : KeyMap String}

/-! ## Leaving out repetitions -/

section EraseDups

variable {α : Type} [DecidableEq α]

/-- What is left when repetitions are left out stands in the order of first appearance:
each stands somewhere before which none of the later ones does. -/
theorem pairwise_eraseDups (items : List α) : items.eraseDups.Pairwise fun a b =>
    ∃ front back, items = front ++ a :: back ∧ b ∉ a :: front := by
  match items with
  | [] => exact List.Pairwise.nil
  | first :: rest =>
    rw [List.eraseDups_cons]
    have hother : ∀ b ∈ (rest.filter fun b => !b == first).eraseDups, b ≠ first := fun b hb => by
      simpa using (List.mem_filter.1 (List.mem_eraseDups.1 hb)).2
    refine List.pairwise_cons.2 ⟨fun b hb => ⟨[], rest, rfl, by simpa using hother b hb⟩, ?_⟩
    refine (pairwise_eraseDups (rest.filter fun b => !b == first)).imp_of_mem ?_
    rintro a b - hb ⟨front, back, hsplit, hfront⟩
    obtain ⟨front', tail, rfl, rfl, htail⟩ := List.filter_eq_append_iff.1 hsplit
    obtain ⟨skipped, back', rfl, hskipped, -, rfl⟩ := List.filter_eq_cons_iff.1 htail
    refine ⟨first :: front' ++ skipped, back', by simp, fun hmem => ?_⟩
    have hne := hother b hb
    simp only [List.mem_cons, List.mem_append, hne, List.cons_append, false_or] at hmem hfront
    rcases hmem with heq | hmem | hmem
    · exact hfront (.inl heq)
    · exact hfront (.inr (List.mem_filter.2 ⟨hmem, by simpa using hne⟩))
    · exact hskipped b hmem (by simpa using hne)
termination_by items.length
decreasing_by exact Nat.lt_succ_of_le (List.length_filter_le _ _)

/-- Leaving out repetitions does not change what is found first. -/
theorem find?_eraseDups (p : α → Bool) (items : List α) :
    items.eraseDups.find? p = items.find? p := by
  match items with
  | [] => rfl
  | first :: rest =>
    rw [List.eraseDups_cons, List.find?_cons, List.find?_cons]
    split
    next => rfl
    next hfirst =>
      rw [find?_eraseDups p (rest.filter fun b => !b == first), List.find?_filter]
      congr 1
      funext b
      by_cases hb : b = first
      · simp [hb, hfirst]
      · simp [hb]
termination_by items.length
decreasing_by exact Nat.lt_succ_of_le (List.length_filter_le _ _)

end EraseDups

/-! ## Names -/

/-- The names in the placeholders of a template, as often as they stand in it. -/
def names (template : String) : List String := (segments template).filterMap Segment.name?

theorem Segment.name?_eq_some {segment : Segment} {name : String} :
    segment.name? = some name ↔ segment = .hole name := by
  cases segment <;> simp [name?]

theorem mem_filterMap_name? {segments : List Segment} {name : String} :
    name ∈ segments.filterMap Segment.name? ↔ .hole name ∈ segments := by
  simp [List.mem_filterMap, Segment.name?_eq_some]

/-- A name is listed if it stands somewhere. -/
theorem mem_placeholders_iff {name : String} :
    name ∈ placeholders template ↔ ∃ i, Occurs template i name := by
  rw [mem_placeholders]
  constructor
  · intro hmem
    obtain ⟨before, after, heq⟩ := List.append_of_mem hmem
    exact ⟨_, occurs_iff_segments.2 ⟨before, after, heq, rfl⟩⟩
  · rintro ⟨i, hoccurs⟩
    obtain ⟨before, after, heq, -⟩ := occurs_iff_segments.1 hoccurs
    rw [heq]
    simp

/-- Each name that is listed stands somewhere before all places of the later ones. -/
theorem pairwise_placeholders (template : String) : (placeholders template).Pairwise fun a b =>
    ∃ i, Occurs template i a ∧ ∀ j, Occurs template j b → i < j := by
  refine (pairwise_eraseDups (names template)).imp ?_
  rintro a b ⟨front, back, hnames, hfront⟩
  obtain ⟨segmentsBefore, tail, hsegments, rfl, htail⟩ := List.filterMap_eq_append_iff.1 hnames
  obtain ⟨skipped, segment, after, rfl, hskipped, hsegment, -⟩ := List.filterMap_eq_cons_iff.1 htail
  obtain rfl := Segment.name?_eq_some.1 hsegment
  have hsplit : segments template = (segmentsBefore ++ skipped) ++ .hole a :: after := by
    rw [hsegments, List.append_assoc]
  refine ⟨_, occurs_iff_segments.2 ⟨_, after, hsplit, rfl⟩, fun j hoccurs => ?_⟩
  by_contra hle
  rcases Nat.lt_or_eq_of_le (Nat.le_of_not_lt hle) with hlt | rfl
  · -- Before the first place of `a` there is no place of `b`.
    have hmem := ((reads_segments template).mem_front_iff hsplit).2 ⟨j, hoccurs, hlt⟩
    rcases List.mem_append.1 hmem with hmem | hmem
    · exact hfront (List.mem_cons_of_mem _ (mem_filterMap_name?.2 hmem))
    · cases hskipped _ hmem
  · have hsame := (occurs_iff_segments.2 ⟨_, after, hsplit, rfl⟩ : Occurs template _ a)
    exact hfront (hsame.name_eq hoccurs ▸ List.mem_cons_self)

/-- The name that is missing is the first that is listed and has no value. -/
theorem find?_placeholders {key : String} {available : List String}
    (h : substitute template state = .error (.missingKey key available)) :
    (placeholders template).find? (fun name => !state.contains name) = some key := by
  obtain ⟨before, name, after, hsegments, hbefore, hname, heq⟩ := substitute_eq_error_iff.1 h
  obtain ⟨rfl, -⟩ : key = name ∧ available = state.keys := by simpa using heq
  have hnone : (before.filterMap Segment.name?).find? (fun name => !state.contains name) =
      none := by
    refine List.find?_eq_none.2 fun other hmem => ?_
    simpa using hbefore other (mem_filterMap_name?.1 hmem)
  have hfirst : ((Segment.hole key :: after).filterMap Segment.name?).find?
      (fun name => !state.contains name) = some key := by
    simp [Segment.name?, hname]
  rw [placeholders, find?_eraseDups, hsegments, List.filterMap_append, List.find?_append, hnone,
    hfirst, Option.none_or]

/-- A template without names is filled in with itself. -/
theorem substitute_of_placeholders_eq_nil (h : placeholders template = [])
    (state : KeyMap String) : substitute template state = .ok template := by
  have hnone : ∀ j name, ¬ Occurs template j name := fun j name hoccurs => by
    have := mem_placeholders_iff.2 ⟨j, hoccurs⟩
    rw [h] at this
    cases this
  refine substitute_eq_ok_iff.2 ⟨template.toList.map ([·]), by simp, fun i piece hpiece => ?_, ?_⟩
  · rw [List.getElem?_map, Option.map_eq_some_iff] at hpiece
    obtain ⟨c, hc, rfl⟩ := hpiece
    exact .kept c hc fun j name hoccurs => absurd hoccurs (hnone j name)
  · rw [← List.flatMap_def, List.flatMap_singleton']

/-- The names of a template and its filling in agree. The names are listed once each, those
that stand in the template, in the order in which they first stand there. It can be filled
in if and only if they all have values; else the error names the first of them that has
none. If there are none, it is filled in with itself whatever the values are. And it is
filled in alike from any values that are the same for them. -/
theorem placeholders_agree (template : String) :
    (placeholders template).Nodup ∧
    (∀ name, name ∈ placeholders template ↔ ∃ i, Occurs template i name) ∧
    ((placeholders template).Pairwise fun a b =>
      ∃ i, Occurs template i a ∧ ∀ j, Occurs template j b → i < j) ∧
    (∀ state, (∃ filled, substitute template state = .ok filled) ↔
      ∀ name ∈ placeholders template, state.contains name) ∧
    (∀ state key available,
      substitute template state = .error (.missingKey key available) →
        (placeholders template).find? (fun name => !state.contains name) = some key) ∧
    (placeholders template = [] → ∀ state, substitute template state = .ok template) ∧
    (∀ state state', (∀ name ∈ placeholders template, state.get? name = state'.get? name) →
      ∀ filled, substitute template state = .ok filled ↔
        substitute template state' = .ok filled) := by
  have hfills : ∀ state, (∃ filled, substitute template state = .ok filled) ↔
      ∀ name ∈ placeholders template, state.contains name := by
    intro state
    refine ⟨?_, fun hall => (substitute_congr fun name hname => ⟨hall name hname, rfl⟩).imp
      fun _ => And.left⟩
    rintro ⟨filled, hfilled⟩ name hname
    exact contains_of_foldlM_appendTo hfilled (mem_placeholders.1 hname)
  have hcongr : ∀ state state' filled,
      (∀ name ∈ placeholders template, state.get? name = state'.get? name) →
      substitute template state = .ok filled → substitute template state' = .ok filled := by
    intro state state' filled hsame hfilled
    obtain ⟨text, htext, htext'⟩ := substitute_congr fun name hname =>
      ⟨(hfills state).1 ⟨filled, hfilled⟩ name hname, hsame name hname⟩
    rw [htext', ← htext, hfilled]
  refine ⟨(pairwise_placeholders template).imp ?_, fun name => mem_placeholders_iff,
    pairwise_placeholders template, hfills, fun state key available => find?_placeholders,
    substitute_of_placeholders_eq_nil, fun state state' hsame filled => ?_⟩
  · rintro a _ ⟨i, hoccurs, hlater⟩ rfl
    exact absurd (hlater i hoccurs) (Nat.lt_irrefl i)
  · exact ⟨hcongr state state' filled hsame,
      hcongr state' state filled fun name hname => (hsame name hname).symm⟩

end Coordination.Template
