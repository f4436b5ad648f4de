import Coordination.Proofs.Template.Occurrence

/-!
# What a template is filled in with

What a template says can be told character by character. Where a placeholder stands, the
value of its name is put; the other characters of a placeholder become nothing; and all
others stay (`Becomes`). Filling in a template does just that (`substitute_renders`), and
it fails for the leftmost placeholder whose name has no value.

* `Reads.renders`: a text read from the left, rendered by its segments;
* `foldlM_appendTo_of_filled`, `substitute_eq_error_iff`: filling in a template by its segments.
-/

namespace Coordination.Template

variable {template : String} {state : KeyMap String}

/-! ## Filling in by segments -/

/-- What a segment is filled in with. -/
def Segment.shown (state : KeyMap String) : Segment → List Char
  | .char c => [c]
  | .hole name => ((state.get? name).getD "").toList

theorem toList_foldl_put (segments : List Segment) (text : String) :
    (segments.foldl (Segment.put fun name => (state.get? name).getD "") text).toList =
      text.toList ++ segments.flatMap (Segment.shown state) := by
  induction segments generalizing text with
  | nil => simp
  | cons segment segments ih =>
    rw [List.foldl_cons, ih, List.flatMap_cons, ← List.append_assoc]
    cases segment <;> simp [Segment.put, Segment.shown]

/-- Segments whose names have values are put after a text with these. -/
theorem foldlM_appendTo_of_filled {segments : List Segment}
    (h : ∀ name, .hole name ∈ segments → state.contains name) (text : String) :
    ∃ filled, segments.foldlM (Segment.appendTo state) text = .ok filled ∧
      filled.toList = text.toList ++ segments.flatMap (Segment.shown state) := by
  obtain ⟨filled, hfilled, -⟩ := foldlM_appendTo_congr segments
    (fun name hmem => ⟨h name hmem, rfl⟩) text
  have heq := foldlM_appendTo_eq (a := state) segments text
  rw [hfilled] at heq
  exact ⟨filled, hfilled, by rw [heq, toList_foldl_put]⟩

/-- They are not if one of them has none; the first such is the one that is missing. -/
theorem foldlM_appendTo_of_missing {before : List Segment} {name : String}
    (hbefore : ∀ other, .hole other ∈ before → state.contains other)
    (hname : state.contains name = false) (after : List Segment) (text : String) :
    (before ++ .hole name :: after).foldlM (Segment.appendTo state) text =
      .error (.missingKey name state.keys) := by
  obtain ⟨filled, hfilled, -⟩ := foldlM_appendTo_of_filled hbefore text
  have hnone : state.get? name = none := Option.not_isSome_iff_eq_none.1 (Bool.eq_false_iff.1 hname)
  simp [List.foldlM_append, hfilled, List.foldlM_cons, Segment.appendTo, hnone, bind, Except.bind]

/-- Either all names of a list of segments have values, or there is a first that has none. -/
theorem filled_or_missing (state : KeyMap String) (segments : List Segment) :
    (∀ name, .hole name ∈ segments → state.contains name) ∨
      ∃ before name after, segments = before ++ .hole name :: after ∧
        (∀ other, .hole other ∈ before → state.contains other) ∧
          state.contains name = false := by
  induction segments with
  | nil => exact .inl fun _ hmem => absurd hmem List.not_mem_nil
  | cons segment segments ih =>
    by_cases hsegment : ∃ name, segment = .hole name ∧ state.contains name = false
    · obtain ⟨name, rfl, hname⟩ := hsegment
      exact .inr ⟨[], name, segments, rfl, fun _ hmem => absurd hmem List.not_mem_nil, hname⟩
    · have hfirst : ∀ name, segment = .hole name → state.contains name := fun name heq => by
        by_contra hname
        exact hsegment ⟨name, heq, by simpa using hname⟩
      rcases ih with hall | ⟨before, name, after, rfl, hbefore, hname⟩
      · refine .inl fun name hmem => ?_
        rcases List.mem_cons.1 hmem with heq | hmem
        · exact hfirst name heq.symm
        · exact hall name hmem
      · refine .inr ⟨segment :: before, name, after, rfl, fun other hmem => ?_, hname⟩
        rcases List.mem_cons.1 hmem with heq | hmem
        · exact hfirst other heq.symm
        · exact hbefore other hmem

/-- A template cannot be filled in for the first of its names that has no value. -/
theorem substitute_eq_error_iff {error : TemplateError} :
    substitute template state = .error error ↔ ∃ before name after,
      segments template = before ++ .hole name :: after ∧
        (∀ other, .hole other ∈ before → state.contains other) ∧
          state.contains name = false ∧ error = .missingKey name state.keys := by
  constructor
  · intro herror
    rcases filled_or_missing state (segments template) with
      hall | ⟨before, name, after, hsegments, hbefore, hname⟩
    · obtain ⟨filled, hfilled, -⟩ := foldlM_appendTo_of_filled hall ""
      rw [substitute, hfilled] at herror
      cases herror
    · rw [substitute, hsegments, foldlM_appendTo_of_missing hbefore hname] at herror
      exact ⟨before, name, after, hsegments, hbefore, hname, (Except.error.inj herror).symm⟩
  · rintro ⟨before, name, after, hsegments, hbefore, hname, rfl⟩
    rw [substitute, hsegments, foldlM_appendTo_of_missing hbefore hname]

/-! ## Character by character -/

/-- What the character at a position of a text becomes. -/
inductive Becomes (state : KeyMap String) (text : List Char) (i : Nat) : List Char → Prop
  /-- A placeholder stands there: the value of its name. -/
  | value (name value : String) (hoccurs : OccursIn text i name)
      (hvalue : state.get? name = some value) : Becomes state text i value.toList
  /-- It is a further character of a placeholder: nothing. -/
  | covered (j : Nat) (name : String) (hoccurs : OccursIn text j name) (hbehind : j < i)
      (hwithin : i < j + (spell name).length) : Becomes state text i []
  /-- It belongs to no placeholder: itself. -/
  | kept (c : Char) (hc : text[i]? = some c)
      (hfree : ∀ j name, OccursIn text j name → j ≤ i → j + (spell name).length ≤ i) :
    Becomes state text i [c]

/-- Whether a text is made of what the characters of another one become, in their order. -/
def Renders (state : KeyMap String) (text filled : List Char) : Prop :=
  ∃ pieces : List (List Char), pieces.length = text.length ∧
    (∀ i piece, pieces[i]? = some piece → Becomes state text i piece) ∧ pieces.flatten = filled

namespace Becomes

variable {text : List Char} {i : Nat} {piece piece' : List Char}

/-- A character becomes one thing only. -/
theorem unique (h : Becomes state text i piece) (h' : Becomes state text i piece') :
    piece = piece' := by
  have hend : ∀ {j k : Nat} {a b : String}, OccursIn text j a → OccursIn text k b → j < k →
      k < j + (spell a).length → False :=
    fun ha hb hlt hwithin => absurd (ha.end_le hb hlt) (by omega)
  have hfirst : ∀ {name : String}, OccursIn text i name →
      (∀ j name, OccursIn text j name → j ≤ i → j + (spell name).length ≤ i) → False :=
    fun hoccurs hfree => absurd (hfree i _ hoccurs (Nat.le_refl i)) (by rw [length_spell]; omega)
  cases h with
  | value name value hoccurs hvalue =>
    cases h' with
    | value name' value' hoccurs' hvalue' =>
      obtain rfl := hoccurs.name_eq hoccurs'
      rw [Option.some.inj (hvalue.symm.trans hvalue')]
    | covered j name' hoccurs' hbehind hwithin => exact (hend hoccurs' hoccurs hbehind hwithin).elim
    | kept c _ hfree => exact (hfirst hoccurs hfree).elim
  | covered j name hoccurs hbehind hwithin =>
    cases h' with
    | value name' value' hoccurs' => exact (hend hoccurs hoccurs' hbehind hwithin).elim
    | covered => rfl
    | kept c _ hfree => exact absurd (hfree j name hoccurs (Nat.le_of_lt hbehind)) (by omega)
  | kept c hc hfree =>
    cases h' with
    | value name _ hoccurs => exact (hfirst hoccurs hfree).elim
    | covered j name hoccurs hbehind hwithin =>
      exact absurd (hfree j name hoccurs (Nat.le_of_lt hbehind)) (by omega)
    | kept c' hc' => rw [Option.some.inj (hc.symm.trans hc')]

/-- A character becomes the same behind a text with whose placeholders it has nothing to do. -/
theorem append {front : List Char}
    (hfront : ∀ j name, OccursIn (front ++ text) j name → j < front.length →
      j + (spell name).length ≤ front.length)
    (h : Becomes state text i piece) : Becomes state (front ++ text) (front.length + i) piece := by
  cases h with
  | value name value hoccurs hvalue =>
    exact .value name value ((OccursIn.append_iff _).2 hoccurs) hvalue
  | covered j name hoccurs hbehind hwithin =>
    exact .covered (front.length + j) name ((OccursIn.append_iff _).2 hoccurs) (by omega) (by omega)
  | kept c hc hfree =>
    refine .kept c ?_ fun j name hoccurs hle => ?_
    · rw [List.getElem?_append_right (by omega), Nat.add_sub_cancel_left, hc]
    · rcases Nat.lt_or_ge j front.length with hlt | hge
      · exact Nat.le_trans (hfront j name hoccurs hlt) (Nat.le_add_right _ _)
      · obtain ⟨k, rfl⟩ := Nat.exists_eq_add_of_le hge
        have := hfree k name ((OccursIn.append_iff _).1 hoccurs) (by omega)
        omega

end Becomes

namespace Renders

variable {text filled filled' : List Char}

theorem unique (h : Renders state text filled) (h' : Renders state text filled') :
    filled = filled' := by
  obtain ⟨pieces, hlength, hpieces, rfl⟩ := h
  obtain ⟨pieces', hlength', hpieces', rfl⟩ := h'
  refine congrArg List.flatten (List.ext_getElem (hlength.trans hlength'.symm) fun i hi hi' => ?_)
  exact (hpieces i _ (List.getElem?_eq_getElem hi)).unique
    (hpieces' i _ (List.getElem?_eq_getElem hi'))

/-- A text is rendered behind another one with whose placeholders it has nothing to do. -/
theorem append (front : List Char) (fronts : List (List Char))
    (hfront : ∀ j name, OccursIn (front ++ text) j name → j < front.length →
      j + (spell name).length ≤ front.length)
    (hlength : fronts.length = front.length)
    (hpieces : ∀ i piece, fronts[i]? = some piece → Becomes state (front ++ text) i piece)
    (h : Renders state text filled) : Renders state (front ++ text) (fronts.flatten ++ filled) := by
  obtain ⟨pieces, hrest, hbecomes, rfl⟩ := h
  refine ⟨fronts ++ pieces, by simp [hlength, hrest], fun i piece hpiece => ?_, by simp⟩
  rcases Nat.lt_or_ge i fronts.length with hlt | hge
  · rw [List.getElem?_append_left hlt] at hpiece
    exact hpieces i piece hpiece
  · rw [List.getElem?_append_right hge] at hpiece
    have := (hbecomes _ piece hpiece).append hfront
    rwa [← hlength, Nat.add_sub_cancel' hge] at this

/-- Where a text can be rendered, every placeholder in it has a value. -/
theorem contains (h : Renders state text filled) {i : Nat} {name : String}
    (hoccurs : OccursIn text i name) : state.contains name := by
  obtain ⟨pieces, hlength, hpieces, -⟩ := h
  have hi : i < pieces.length := by
    rw [hlength]
    exact (List.getElem?_eq_some_iff.1 hoccurs.getElem?_open).1
  have hbecomes := hpieces i _ (List.getElem?_eq_getElem hi)
  generalize pieces[i] = piece at hbecomes
  cases hbecomes with
  | value other value hoccurs' hvalue =>
    obtain rfl := hoccurs.name_eq hoccurs'
    simp [KeyMap.contains, hvalue]
  | covered j other hoccurs' hbehind hwithin =>
    exact absurd (hoccurs'.end_le hoccurs hbehind) (by omega)
  | kept c _ hfree =>
    exact absurd (hfree i name hoccurs (Nat.le_refl i)) (by rw [length_spell]; omega)

end Renders

/-- A text is rendered segment by segment, if its names have values. -/
theorem Reads.renders {text : List Char} {segments : List Segment} (h : Reads text segments)
    (hvalues : ∀ name, .hole name ∈ segments → state.contains name) :
    Renders state text (segments.flatMap (Segment.shown state)) := by
  induction h with
  | nil => exact ⟨[], rfl, by simp, rfl⟩
  | @char text segments c hnone _ ih =>
    have hrest := ih fun name hmem => hvalues name (List.mem_cons_of_mem _ hmem)
    have hzero : ∀ j name, OccursIn ([c] ++ text) j name → j < 1 → False :=
      fun j name hoccurs hlt => hnone name (Nat.lt_one_iff.1 hlt ▸ hoccurs)
    refine hrest.append [c] [[c]] (fun j name hoccurs hlt => (hzero j name hoccurs hlt).elim) rfl
      fun i piece hpiece => ?_
    obtain ⟨rfl, rfl⟩ : i = 0 ∧ [c] = piece := by
      cases i <;> simp_all
    exact .kept c rfl fun j name hoccurs hle =>
      (hzero j name hoccurs (Nat.lt_succ_of_le hle)).elim
  | @hole text segments name hidentifier _ ih =>
    have hrest := ih fun other hmem => hvalues other (List.mem_cons_of_mem _ hmem)
    have hfirst : OccursIn (spell name ++ text) 0 name :=
      OccursIn.zero_iff.2 ⟨hidentifier, List.prefix_append _ _⟩
    obtain ⟨value, hvalue⟩ := Option.isSome_iff_exists.1 (hvalues name List.mem_cons_self)
    have happend := hrest.append (spell name)
      (value.toList :: List.replicate (name.toList.length + 1) []) ?_ ?_ ?_
    · simpa [Segment.shown, hvalue] using happend
    · intro j other hoccurs hlt
      rcases Nat.eq_zero_or_pos j with rfl | hpos
      · obtain rfl := hfirst.name_eq hoccurs
        simp
      · exact absurd (hfirst.end_le hoccurs hpos) (by omega)
    · simp
    · intro i piece hpiece
      cases i with
      | zero =>
        obtain rfl : value.toList = piece := by simpa using hpiece
        exact .value name value hfirst hvalue
      | succ i =>
        rw [List.getElem?_cons_succ, List.getElem?_replicate] at hpiece
        split at hpiece
        next hlt =>
          obtain rfl := Option.some.inj hpiece
          exact .covered 0 name hfirst (Nat.succ_pos i) (by simp; omega)
        next => cases hpiece

/-- A template is filled in with what it renders. -/
theorem substitute_eq_ok_iff {filled : String} :
    substitute template state = .ok filled ↔ Renders state template.toList filled.toList := by
  have hreads := reads_segments template
  have hfills : (∀ name, .hole name ∈ segments template → state.contains name) →
      ∃ text, substitute template state = .ok text ∧
        Renders state template.toList text.toList := by
    intro hall
    obtain ⟨text, htext, hlist⟩ := foldlM_appendTo_of_filled hall ""
    refine ⟨text, htext, ?_⟩
    rw [hlist, String.toList_empty, List.nil_append]
    exact hreads.renders hall
  constructor
  · intro hfilled
    obtain ⟨text, htext, hrenders⟩ :=
      hfills fun name hmem => contains_of_foldlM_appendTo hfilled hmem
    obtain rfl := Except.ok.inj (hfilled.symm.trans htext)
    exact hrenders
  · intro hrenders
    obtain ⟨text, htext, hrenders'⟩ := hfills fun name hmem => by
      obtain ⟨before, after, heq⟩ := List.append_of_mem hmem
      exact hrenders.contains (hreads.occurs_iff.2 ⟨before, after, heq, rfl⟩)
    rw [htext, String.toList_injective (hrenders'.unique hrenders)]

/-- Filling in a template means what is said of its characters. Placeholders that stand in it
never overlap. It is filled in with what its characters become, each placeholder the value of
its name and everything else itself, and only with that; and it can be filled in exactly if
the names of all placeholders that stand in it have values. Else the error names the leftmost
one without a value, and all keys that have one, in ascending order, each once. -/
theorem substitute_renders (template : String) (state : KeyMap String) :
    (∀ i j a b, Occurs template i a → Occurs template j b → i ≤ j →
      (i = j ∧ a = b) ∨ i + (spell a).length ≤ j) ∧
    (∀ filled, substitute template state = .ok filled ↔
      Renders state template.toList filled.toList) ∧
    ((∃ filled, substitute template state = .ok filled) ↔
      ∀ i name, Occurs template i name → state.contains name) ∧
    (∀ error, substitute template state = .error error ↔
      ∃ i name, Occurs template i name ∧ state.contains name = false ∧
        (∀ j other, Occurs template j other → j < i → state.contains other) ∧
          error = .missingKey name state.keys) ∧
    state.keys.Pairwise (· < ·) ∧ ∀ key, key ∈ state.keys ↔ state.contains key := by
  have hreads := reads_segments template
  refine ⟨fun i j a b ha hb hle => ?_, fun filled => substitute_eq_ok_iff, ⟨?_, ?_⟩,
    fun error => ⟨?_, ?_⟩, state.keys_ascending, fun key => KeyMap.mem_keys⟩
  · rcases Nat.lt_or_eq_of_le hle with hlt | rfl
    · exact .inr (ha.end_le hb hlt)
    · exact .inl ⟨rfl, ha.name_eq hb⟩
  · rintro ⟨filled, hfilled⟩ i name hoccurs
    exact (substitute_eq_ok_iff.1 hfilled).contains hoccurs
  · intro hall
    have hvalues : ∀ name, .hole name ∈ segments template → state.contains name := by
      intro name hmem
      obtain ⟨before, after, heq⟩ := List.append_of_mem hmem
      exact hall _ name (occurs_iff_segments.2 ⟨before, after, heq, rfl⟩)
    obtain ⟨filled, hfilled, -⟩ := foldlM_appendTo_of_filled hvalues ""
    exact ⟨filled, hfilled⟩
  · intro herror
    obtain ⟨before, name, after, hsegments, hbefore, hname, rfl⟩ := substitute_eq_error_iff.1 herror
    refine ⟨_, name, occurs_iff_segments.2 ⟨before, after, hsegments, rfl⟩, hname, ?_, rfl⟩
    exact fun j other hoccurs hlt =>
      hbefore other ((hreads.mem_front_iff hsegments).2 ⟨j, hoccurs, hlt⟩)
  · rintro ⟨i, name, hoccurs, hname, hleft, rfl⟩
    obtain ⟨before, after, hsegments, rfl⟩ := occurs_iff_segments.1 hoccurs
    refine substitute_eq_error_iff.2
      ⟨before, name, after, hsegments, fun other hmem => ?_, hname, rfl⟩
    obtain ⟨j, hoccurs', hlt⟩ := (hreads.mem_front_iff hsegments).1 hmem
    exact hleft j other hoccurs' hlt

-- The braces around a placeholder stay, and those of its value are not looked at.
example : substitute "\x7b\x7ba\x7d\x7d" (.ofList [("a", "\x7bb\x7d")]) = .ok "\x7b\x7bb\x7d\x7d" :=
  rfl

end Coordination.Template
