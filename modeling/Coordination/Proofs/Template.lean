import Coordination.Template

/-!
# What a template is filled in from

A template looks up the names in its placeholders and nothing else. So maps that
have the same values for these names fill it in alike (`substitute_congr`), and it
cannot be filled in exactly from those that miss one of them
(`exists_substitute_error_iff`). What it is filled in with is the value of each name
(`Shows`).
-/

namespace Coordination.Template

variable {template : String} {a b : KeyMap String}

theorem mem_placeholders {name : String} :
    name ∈ placeholders template ↔ .hole name ∈ segments template := by
  rw [placeholders, List.mem_eraseDups, List.mem_filterMap]
  refine ⟨?_, fun h => ⟨.hole name, h, rfl⟩⟩
  rintro ⟨segment, hmem, hname⟩
  cases segment with
  | char c => cases hname
  | hole other =>
    obtain rfl := Option.some.inj hname
    exact hmem

/-- Segments whose names have the same values in two maps are put after a text alike. -/
theorem foldlM_appendTo_congr (segments : List Segment)
    (h : ∀ name, .hole name ∈ segments → a.contains name ∧ a.get? name = b.get? name)
    (text : String) : ∃ filled, segments.foldlM (Segment.appendTo a) text = .ok filled ∧
      segments.foldlM (Segment.appendTo b) text = .ok filled := by
  induction segments generalizing text with
  | nil => exact ⟨text, rfl, rfl⟩
  | cons segment segments ih =>
    have hrest := ih fun name hmem => h name (List.mem_cons_of_mem _ hmem)
    cases segment with
    | char c => exact hrest (text.push c)
    | hole name =>
      obtain ⟨hpresent, hsame⟩ := h name List.mem_cons_self
      obtain ⟨value, hvalue⟩ := Option.isSome_iff_exists.1 hpresent
      simp only [List.foldlM_cons, Segment.appendTo, ← hsame, hvalue, bind, Except.bind]
      exact hrest (text ++ value)

/-- A template is filled in alike from maps that have the same values for the
names in its placeholders. -/
theorem substitute_congr
    (h : ∀ name ∈ placeholders template, a.contains name ∧ a.get? name = b.get? name) :
    ∃ text, substitute template a = .ok text ∧ substitute template b = .ok text :=
  foldlM_appendTo_congr (segments template) (fun name hmem => h name (mem_placeholders.2 hmem)) ""

/-- Segments that could be put after a text have values for their names. -/
theorem contains_of_foldlM_appendTo {segments : List Segment} {text filled : String}
    (h : segments.foldlM (Segment.appendTo a) text = .ok filled) {name : String}
    (hmem : .hole name ∈ segments) : a.contains name := by
  induction segments generalizing text with
  | nil => cases hmem
  | cons segment segments ih =>
    cases hfirst : Segment.appendTo a text segment with
    | error error => simp [List.foldlM_cons, hfirst, bind, Except.bind] at h
    | ok longer =>
      simp only [List.foldlM_cons, hfirst, bind, Except.bind] at h
      rcases List.mem_cons.1 hmem with rfl | hrest
      · cases hvalue : a.get? name with
        | none => simp [Segment.appendTo, hvalue] at hfirst
        | some value => simp [KeyMap.contains, hvalue]
      · exact ih h hrest

/-- A template cannot be filled in if and only if it has a name without a value. -/
theorem exists_substitute_error_iff : (∃ error, substitute template a = .error error) ↔
    ∃ name ∈ placeholders template, a.contains name = false := by
  constructor
  · rintro ⟨error, herror⟩
    refine Classical.byContradiction fun hnone => ?_
    simp only [not_exists, not_and, Bool.not_eq_false] at hnone
    obtain ⟨text, hok, -⟩ := substitute_congr fun name hname => ⟨hnone name hname, rfl⟩
    rw [herror] at hok
    cases hok
  · rintro ⟨name, hname, hmissing⟩
    cases hfilled : substitute template a with
    | error error => exact ⟨error, rfl⟩
    | ok text =>
      rw [contains_of_foldlM_appendTo hfilled (mem_placeholders.1 hname)] at hmissing
      cases hmissing

/-! ## What a template shows -/

/-- Puts a segment after a text, with this value for each name. -/
def Segment.put (valueOf : String → String) (text : String) : Segment → String
  | .char c => text.push c
  | .hole name => text ++ valueOf name

/-- The template with this value for each name in the place of its placeholders. -/
def fill (valueOf : String → String) (template : String) : String :=
  (segments template).foldl (Segment.put valueOf) ""

/-- Whether a template shows this value for a key: it is filled in with it, unless it
cannot be filled in for want of another key. -/
def Shows (template : String) (state : KeyMap String) (key value : String) : Prop :=
  match substitute template state with
  | .ok text => ∃ valueOf : String → String, valueOf key = value ∧ text = fill valueOf template
  | .error (.missingKey name _) => name ≠ key

/-- Segments are put after a text with the values of their names, or one of these has none. -/
theorem foldlM_appendTo_eq (segments : List Segment) (text : String) :
    match segments.foldlM (Segment.appendTo a) text with
    | .ok filled =>
      filled = segments.foldl (Segment.put fun name => (a.get? name).getD "") text
    | .error (.missingKey name _) => a.get? name = none := by
  induction segments generalizing text with
  | nil => rfl
  | cons segment segments ih =>
    cases segment with
    | char c => exact ih (text.push c)
    | hole name =>
      simp only [List.foldlM_cons, List.foldl_cons, Segment.appendTo, Segment.put]
      cases hvalue : a.get? name with
      | none => simpa [bind, Except.bind] using hvalue
      | some value => exact ih (text ++ value)

theorem shows_of_get? (template : String) {key value : String} (h : a.get? key = some value) :
    Shows template a key value := by
  have heq := foldlM_appendTo_eq (a := a) (segments template) ""
  unfold Shows substitute
  split at heq
  · exact ⟨_, by rw [h]; rfl, heq⟩
  · rintro rfl
    rw [h] at heq
    cases heq

end Coordination.Template
