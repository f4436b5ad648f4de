import Coordination.Proofs.Template
import Mathlib.Data.List.Basic

/-!
# Where placeholders stand

A placeholder stands at a position of a template if an identifier between two braces
is spelled there (`Occurs`), whatever stands around it. Two placeholders never share a
character (`OccursIn.end_le`), and splitting a template finds exactly those that stand
in it, each at its position (`occurs_iff_segments`).

* `Reads`: a text read from the left, a placeholder wherever one stands;
* `reads_split`: splitting reads so, from both of its states.
-/

namespace Coordination.Template

/-- The text of a placeholder. -/
def spell (name : String) : List Char := '\x7b' :: (name.toList ++ ['\x7d'])

@[simp] theorem length_spell (name : String) : (spell name).length = name.toList.length + 2 := by
  simp [spell]

/-- Whether a placeholder of this name stands at a position of a text. -/
structure OccursIn (text : List Char) (position : Nat) (name : String) : Prop where
  identifier : Identifier.isIdentifier name.toList = true
  spelled : spell name <+: text.drop position

/-- Whether a placeholder of this name stands at a position of a template. -/
def Occurs (template : String) (position : Nat) (name : String) : Prop :=
  OccursIn template.toList position name

theorem isPart_of_mem {name : List Char} (h : Identifier.isIdentifier name = true) {c : Char}
    (hmem : c ∈ name) : Identifier.isPart c = true := by
  cases name with
  | nil => cases hmem
  | cons first rest =>
    obtain ⟨hfirst, hrest⟩ : Identifier.isStart first = true ∧ ∀ d ∈ rest, Identifier.isPart d := by
      simpa [Identifier.isIdentifier] using h
    rcases List.mem_cons.1 hmem with rfl | hmem
    · exact Identifier.isPart_of_isStart hfirst
    · exact hrest c hmem

theorem not_isPart_open : Identifier.isPart '\x7b' = false := by decide

theorem not_isPart_close : Identifier.isPart '\x7d' = false := by decide

namespace OccursIn

variable {text : List Char} {i j : Nat} {a b : String}

/-- The characters of a placeholder stand in the text behind each other. -/
theorem getElem? (h : OccursIn text i a) {k : Nat} (hk : k < (spell a).length) :
    text[i + k]? = (spell a)[k]? := by
  obtain ⟨rest, hrest⟩ := h.spelled
  rw [← List.getElem?_drop, ← hrest, List.getElem?_append_left hk]

theorem getElem?_open (h : OccursIn text i a) : text[i]? = some '\x7b' := by
  simpa [spell] using h.getElem? (k := 0) (by simp)

theorem getElem?_close (h : OccursIn text i a) :
    text[i + (a.toList.length + 1)]? = some '\x7d' := by
  rw [h.getElem? (by simp), spell, List.getElem?_cons_succ,
    List.getElem?_append_right (Nat.le_refl _)]
  simp

/-- Between the braces there is no brace. -/
theorem getElem?_inside (h : OccursIn text i a) {k : Nat} (hk : k < a.toList.length) :
    ∃ c, text[i + (k + 1)]? = some c ∧ Identifier.isPart c = true := by
  refine ⟨a.toList[k], ?_, isPart_of_mem h.identifier (List.getElem_mem hk)⟩
  rw [h.getElem? (by simp; omega), spell, List.getElem?_cons_succ, List.getElem?_append_left hk,
    List.getElem?_eq_getElem hk]

/-- One that stands further on starts behind the other one's end. -/
theorem end_le (h : OccursIn text i a) (h' : OccursIn text j b) (hlt : i < j) :
    i + (spell a).length ≤ j := by
  by_contra hin
  rw [length_spell] at hin
  have hopen := h'.getElem?_open
  rcases Nat.lt_or_ge j (i + (a.toList.length + 1)) with hinside | hend
  · obtain ⟨c, hc, hpart⟩ := h.getElem?_inside (k := j - i - 1) (by omega)
    rw [show i + (j - i - 1 + 1) = j by omega, hopen, Option.some.injEq] at hc
    rw [← hc, not_isPart_open] at hpart
    cases hpart
  · have hclose := h.getElem?_close
    rw [show i + (a.toList.length + 1) = j by omega, hopen] at hclose
    exact absurd hclose (by decide)

/-- No two of different lengths stand at one position. -/
theorem length_le (h : OccursIn text i a) (h' : OccursIn text i b) :
    b.toList.length ≤ a.toList.length := by
  by_contra hlt
  obtain ⟨c, hc, hpart⟩ := h'.getElem?_inside (k := a.toList.length) (by omega)
  rw [h.getElem?_close, Option.some.injEq] at hc
  rw [← hc, not_isPart_close] at hpart
  cases hpart

/-- No two stand at one position. -/
theorem name_eq (h : OccursIn text i a) (h' : OccursIn text i b) : a = b := by
  have hlength : (spell a).length = (spell b).length := by
    rw [length_spell, length_spell, Nat.le_antisymm (h'.length_le h) (h.length_le h')]
  have hprefix := List.prefix_of_prefix_length_le h.spelled h'.spelled (Nat.le_of_eq hlength)
  have hspell : spell a = spell b := hprefix.eq_of_length hlength
  rw [spell, spell, List.cons.injEq] at hspell
  exact String.toList_injective (List.append_cancel_right hspell.2)

theorem zero_iff : OccursIn text 0 a ↔
    Identifier.isIdentifier a.toList = true ∧ spell a <+: text :=
  ⟨fun h => ⟨h.identifier, h.spelled⟩, fun h => ⟨h.1, h.2⟩⟩

/-- What stands behind a text in front stands further on. -/
theorem append_iff (front : List Char) :
    OccursIn (front ++ text) (front.length + i) a ↔ OccursIn text i a := by
  have hdrop : (front ++ text).drop (front.length + i) = text.drop i := by
    rw [← List.drop_drop, List.drop_left]
  exact ⟨fun h => ⟨h.identifier, hdrop ▸ h.spelled⟩,
    fun h => ⟨h.identifier, hdrop.symm ▸ h.spelled⟩⟩

theorem not_nil : ¬ OccursIn [] i a := by
  intro h
  simpa using h.getElem?_open

end OccursIn

/-! ## Reading from the left -/

/-- The text of a segment. -/
def Segment.spelled : Segment → List Char
  | .char c => [c]
  | .hole name => spell name

/-- A text read from the left: a placeholder wherever one stands, and any other
character for itself. -/
inductive Reads : List Char → List Segment → Prop
  | nil : Reads [] []
  | char {text : List Char} {segments : List Segment} (c : Char)
      (hnone : ∀ name, ¬ OccursIn (c :: text) 0 name) (h : Reads text segments) :
    Reads (c :: text) (.char c :: segments)
  | hole {text : List Char} {segments : List Segment} (name : String)
      (hidentifier : Identifier.isIdentifier name.toList = true) (h : Reads text segments) :
    Reads (spell name ++ text) (.hole name :: segments)

namespace Reads

variable {text : List Char} {segments : List Segment}

/-- A character that is no opening brace stands for itself. -/
theorem char_of_ne {c : Char} (hc : c ≠ '\x7b') (h : Reads text segments) :
    Reads (c :: text) (.char c :: segments) := by
  refine .char c (fun name hoccurs => hc ?_) h
  simpa using hoccurs.getElem?_open

/-- So do the characters of an identifier, and the brace before it if no placeholder
stands there. -/
theorem plain {name : List Char} (hparts : ∀ c ∈ name, Identifier.isPart c = true)
    (hnone : ∀ other, ¬ OccursIn ('\x7b' :: (name.reverse ++ text)) 0 other)
    (h : Reads text segments) :
    Reads ('\x7b' :: (name.reverse ++ text)) (Template.plain name ++ segments) := by
  refine .char _ hnone ?_
  have hforward : ∀ c ∈ name.reverse, Identifier.isPart c = true :=
    fun c hc => hparts c (List.mem_reverse.1 hc)
  clear hnone
  generalize name.reverse = forward at hforward ⊢
  induction forward with
  | nil => exact h
  | cons c rest ih =>
    obtain ⟨hc, hrest⟩ := List.forall_mem_cons.1 hforward
    refine (ih hrest).char_of_ne ?_
    rintro rfl
    rw [not_isPart_open] at hc
    cases hc

/-- The placeholders of a text are those that stand in it, each at its position. -/
theorem occurs_iff (h : Reads text segments) {i : Nat} {name : String} :
    OccursIn text i name ↔ ∃ before after, segments = before ++ .hole name :: after ∧
      (before.flatMap Segment.spelled).length = i := by
  induction h generalizing i with
  | nil => simp [OccursIn.not_nil]
  | @char text segments c hnone h ih =>
    cases i with
    | zero =>
      refine ⟨fun hoccurs => absurd hoccurs (hnone name), ?_⟩
      rintro ⟨_ | ⟨first, before⟩, after, heq, hlength⟩
      · cases heq
      · obtain ⟨rfl, -⟩ := List.cons.inj heq
        simp [Segment.spelled] at hlength
    | succ i =>
      have hrest : OccursIn (c :: text) (i + 1) name ↔ OccursIn text i name := by
        rw [Nat.add_comm i 1]
        exact OccursIn.append_iff [c]
      rw [hrest, ih]
      constructor
      · rintro ⟨before, after, rfl, rfl⟩
        exact ⟨.char c :: before, after, rfl, by simp [Segment.spelled, Nat.add_comm]⟩
      · rintro ⟨_ | ⟨first, before⟩, after, heq, hlength⟩
        · cases heq
        · obtain ⟨rfl, rfl⟩ := List.cons.inj heq
          rw [List.flatMap_cons, List.length_append] at hlength
          exact ⟨before, after, rfl, Nat.add_left_cancel (hlength.trans (Nat.add_comm i 1))⟩
  | @hole text segments other hidentifier h ih =>
    have hfirst : OccursIn (spell other ++ text) 0 other :=
      OccursIn.zero_iff.2 ⟨hidentifier, List.prefix_append _ _⟩
    constructor
    · intro hoccurs
      rcases Nat.eq_zero_or_pos i with rfl | hpos
      · obtain rfl := hfirst.name_eq hoccurs
        exact ⟨[], segments, rfl, rfl⟩
      · have hle := hfirst.end_le hoccurs hpos
        rw [Nat.zero_add] at hle
        obtain ⟨k, rfl⟩ := Nat.exists_eq_add_of_le hle
        obtain ⟨before, after, rfl, rfl⟩ := ih.1 ((OccursIn.append_iff _).1 hoccurs)
        exact ⟨.hole other :: before, after, rfl, by simp [Segment.spelled]⟩
    · rintro ⟨_ | ⟨first, before⟩, after, heq, rfl⟩
      · cases heq
        exact hfirst
      · obtain ⟨rfl, rfl⟩ := List.cons.inj heq
        rw [List.flatMap_cons, List.length_append]
        exact (OccursIn.append_iff _).2 (ih.2 ⟨before, after, rfl, rfl⟩)

/-- Those in front of a place are the ones that stand before its position. -/
theorem mem_front_iff (h : Reads text segments) {front rest : List Segment}
    (hsegments : segments = front ++ rest) {name : String} :
    .hole name ∈ front ↔
      ∃ i, OccursIn text i name ∧ i < (front.flatMap Segment.spelled).length := by
  constructor
  · intro hmem
    obtain ⟨before, after, rfl⟩ := List.append_of_mem hmem
    refine ⟨_, h.occurs_iff.2 ⟨before, after ++ rest, by simp [hsegments], rfl⟩, ?_⟩
    rw [List.flatMap_append, List.flatMap_cons, Segment.spelled, List.length_append,
      List.length_append, length_spell]
    omega
  · rintro ⟨i, hoccurs, hlt⟩
    obtain ⟨before, after, heq, rfl⟩ := h.occurs_iff.1 hoccurs
    rcases List.append_eq_append_iff.1 (hsegments.symm.trans heq) with
      ⟨more, rfl, -⟩ | ⟨_ | ⟨first, more⟩, rfl, hmore⟩
    · rw [List.flatMap_append, List.length_append] at hlt
      exact absurd hlt (Nat.not_lt.2 (Nat.le_add_right _ _))
    · simp at hlt
    · obtain ⟨rfl, -⟩ := List.cons.inj hmore
      simp

end Reads

/-! ## Splitting -/

/-- No placeholder stands before an identifier that goes on neither with the next
character nor with a closing brace. -/
theorem not_occursIn_of_stops {name text : List Char}
    (hparts : ∀ c ∈ name, Identifier.isPart c = true)
    (hstops : ∀ c rest, text = c :: rest →
      Identifier.goesOn name c = false ∧ (c = '\x7d' → name = [])) (other : String) :
    ¬ OccursIn ('\x7b' :: (name.reverse ++ text)) 0 other := by
  intro h
  have hcharacter : ∀ k, k < other.toList.length + 1 →
      (name.reverse ++ text)[k]? = (other.toList ++ ['\x7d'])[k]? := by
    intro k hk
    have := h.getElem? (k := k + 1) (by simp; omega)
    rwa [Nat.zero_add, spell, List.getElem?_cons_succ, List.getElem?_cons_succ] at this
  have hnext := hcharacter name.length
  rw [List.getElem?_append_right (by simp), List.length_reverse, Nat.sub_self] at hnext
  rcases Nat.lt_trichotomy other.toList.length name.length with hlt | heq | hgt
  · -- The closing brace would be a character of the name.
    have hclose := hcharacter other.toList.length (Nat.lt_succ_self _)
    rw [List.getElem?_append_left (by simpa using hlt),
      List.getElem?_append_right (Nat.le_refl _), Nat.sub_self] at hclose
    have hmem := List.mem_reverse.1 (List.mem_of_getElem? hclose)
    have hpart := hparts _ hmem
    rw [not_isPart_close] at hpart
    cases hpart
  · have hclose := hnext (by omega)
    rw [← heq, List.getElem?_append_right (Nat.le_refl _), Nat.sub_self] at hclose
    cases text with
    | nil => cases hclose
    | cons c rest =>
      obtain rfl : c = '\x7d' := by simpa using hclose
      obtain rfl := (hstops _ rest rfl).2 rfl
      have hidentifier := h.identifier
      rw [List.length_eq_zero_iff.1 heq] at hidentifier
      cases hidentifier
  · have hgoes := hnext (by omega)
    rw [List.getElem?_append_left hgt] at hgoes
    cases text with
    | nil => simp [hgt] at hgoes
    | cons c rest =>
      have hc : other.toList[name.length]? = some c := by simpa using hgoes.symm
      have hstop := (hstops c rest rfl).1
      cases name with
      | nil =>
        have hidentifier := h.identifier
        cases hother : other.toList with
        | nil => simp [hother] at hc
        | cons first tail =>
          obtain rfl : first = c := by simpa [hother] using hc
          rw [hother, Identifier.isIdentifier, Bool.and_eq_true] at hidentifier
          simp [Identifier.goesOn, hidentifier.1] at hstop
      | cons first tail =>
        have hpart := isPart_of_mem h.identifier (List.mem_of_getElem? hc)
        simp [Identifier.goesOn, hpart] at hstop

theorem isPart_of_goesOn {name : List Char} {c : Char} (h : Identifier.goesOn name c = true) :
    Identifier.isPart c = true := by
  unfold Identifier.goesOn at h
  split at h
  · exact Identifier.isPart_of_isStart h
  · exact h

/-- Splitting reads a text from the left, and also where it stands behind an opening
brace and an identifier, or nothing yet. -/
theorem reads_split (text : List Char) : Reads text (split none text) ∧
    ∀ name, (name = [] ∨ Identifier.isIdentifier name.reverse = true) →
      Reads ('\x7b' :: (name.reverse ++ text)) (split (some name) text) := by
  have hparts : ∀ {name : List Char}, (name = [] ∨ Identifier.isIdentifier name.reverse = true) →
      ∀ c ∈ name, Identifier.isPart c = true := by
    rintro name (rfl | hidentifier) c hc
    · cases hc
    · exact isPart_of_mem hidentifier (List.mem_reverse.2 hc)
  induction text with
  | nil =>
    refine ⟨.nil, fun name hname => ?_⟩
    have hnone : ∀ other, ¬ OccursIn ('\x7b' :: (name.reverse ++ [])) 0 other :=
      not_occursIn_of_stops (hparts hname) (by simp)
    simpa [split] using Reads.nil.plain (hparts hname) hnone
  | cons c rest ih =>
    obtain ⟨hrest, hbehind⟩ := ih
    refine ⟨?_, fun name hname => ?_⟩
    · rw [split]
      split
      next hopen => exact hopen ▸ hbehind [] (.inl rfl)
      next hchar => exact hrest.char_of_ne hchar
    · rw [split]
      split
      next hclose =>
        obtain ⟨rfl, hsome⟩ := hclose
        have hhole := Reads.hole (String.ofList name.reverse)
          (by simpa using hname.resolve_left hsome) hrest
        simpa [spell] using hhole
      next hclose =>
        have hnamed : c = '\x7d' → name = [] := by simpa using hclose
        split
        next hopen =>
          subst hopen
          have hstop : Identifier.goesOn name '\x7b' = false :=
            Bool.eq_false_iff.2 fun hgoes => by simpa [not_isPart_open] using isPart_of_goesOn hgoes
          refine Reads.plain (hparts hname) ?_ (hbehind [] (.inl rfl))
          refine not_occursIn_of_stops (hparts hname) fun d tail heq => ?_
          obtain ⟨rfl, -⟩ := List.cons.inj heq
          exact ⟨hstop, hnamed⟩
        next hchar =>
          split
          next hgoes =>
            have hlonger := hbehind (c :: name) (.inr ?_)
            · simpa using hlonger
            · rw [List.reverse_cons, Identifier.isIdentifier_append_singleton]
              rcases hname with rfl | hidentifier
              · simpa using hgoes
              · cases name <;> simp_all [Identifier.goesOn]
          next hstop =>
            refine Reads.plain (hparts hname) ?_ (hrest.char_of_ne hchar)
            refine not_occursIn_of_stops (hparts hname) fun d tail heq => ?_
            obtain ⟨rfl, -⟩ := List.cons.inj heq
            exact ⟨Bool.eq_false_iff.2 hstop, hnamed⟩

theorem reads_segments (template : String) : Reads template.toList (segments template) :=
  (reads_split template.toList).1

/-- A placeholder stands where splitting finds it. -/
theorem occurs_iff_segments {template : String} {i : Nat} {name : String} :
    Occurs template i name ↔ ∃ before after,
      segments template = before ++ .hole name :: after ∧
        (before.flatMap Segment.spelled).length = i :=
  (reads_segments template).occurs_iff

end Coordination.Template
