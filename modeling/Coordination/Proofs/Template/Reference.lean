import Coordination.Proofs.Template.Names
import Coordination.Proofs.OutputKey.Making
import Coordination.Proofs.Config.Inheritance

/-!
# References to keys

An instruction refers to an output by its key between two braces. What may stand there and
what may be a key are the same identifiers (`placeholders_reference_iff`), and such a
placeholder is found whatever stands around it (`segments_reference`). So the output under
a key can be referred to by whatever comes later, also under a key that was made of names
(`keys_referable`).

* `Reads.unique`, `Reads.append`: a text is read in one way, part by part where no
  placeholder lies across;
* `substitute_reference`: what stands around a placeholder is filled in on its own.
-/

namespace Coordination

namespace Template

variable {template : String} {state : KeyMap String}

/-! ## Reading part by part -/

/-- A placeholder that ends in front stands in the front. -/
theorem OccursIn.of_append {front back : List Char} {i : Nat} {name : String}
    (h : OccursIn (front ++ back) i name) (hend : i + (spell name).length ≤ front.length) :
    OccursIn front i name where
  identifier := h.identifier
  spelled := by
    have hspelled := h.spelled
    rw [List.drop_append_of_le_length (Nat.le_of_add_right_le hend)] at hspelled
    refine List.prefix_of_prefix_length_le hspelled (List.prefix_append _ _) ?_
    rw [List.length_drop]
    omega

namespace Reads

variable {text front back : List Char} {segments segments' fronts backs : List Segment}

/-- A text is read in one way. -/
theorem unique (h : Reads text segments) (h' : Reads text segments') : segments = segments' := by
  have hspell : ∀ {name : String} {c : Char} {rest tail : List Char},
      Identifier.isIdentifier name.toList = true → spell name ++ tail = c :: rest →
      OccursIn (c :: rest) 0 name := fun hidentifier heq =>
    OccursIn.zero_iff.2 ⟨hidentifier, heq ▸ List.prefix_append _ _⟩
  induction h generalizing segments' with
  | nil =>
    generalize htext : ([] : List Char) = text at h'
    cases h' with
    | nil => rfl
    | char => cases htext
    | hole name => cases htext
  | @char text segments c hnone _ ih =>
    generalize htext : c :: text = text' at h'
    cases h' with
    | nil => cases htext
    | char c' _ hrest =>
      obtain ⟨rfl, rfl⟩ := List.cons.inj htext
      rw [ih hrest]
    | hole name hidentifier => exact absurd (hspell hidentifier htext.symm) (hnone name)
  | @hole text segments name hidentifier _ ih =>
    generalize htext : spell name ++ text = text' at h'
    cases h' with
    | nil => cases htext
    | char c' hnone => exact absurd (hspell hidentifier htext) (hnone name)
    | @hole rest _ name' hidentifier' hrest =>
      have hfirst : OccursIn (spell name' ++ rest) 0 name :=
        OccursIn.zero_iff.2 ⟨hidentifier, htext ▸ List.prefix_append _ _⟩
      obtain rfl := hfirst.name_eq (OccursIn.zero_iff.2 ⟨hidentifier', List.prefix_append _ _⟩)
      obtain rfl := List.append_cancel_left htext
      rw [ih hrest]

/-- Two texts are read one after the other, if no placeholder lies across. -/
theorem append (hfront : Reads front fronts) (hback : Reads back backs)
    (hacross : ∀ i name, OccursIn (front ++ back) i name → i < front.length →
      i + (spell name).length ≤ front.length) : Reads (front ++ back) (fronts ++ backs) := by
  have hshift : ∀ (first : List Char) {rest : List Char},
      (∀ i name, OccursIn (first ++ rest ++ back) i name → i < (first ++ rest).length →
        i + (spell name).length ≤ (first ++ rest).length) →
      ∀ i name, OccursIn (rest ++ back) i name → i < rest.length →
        i + (spell name).length ≤ rest.length := by
    intro first rest hacross i name hoccurs hlt
    rw [← OccursIn.append_iff first, ← List.append_assoc] at hoccurs
    have hle := hacross _ name hoccurs (by rw [List.length_append]; omega)
    rw [List.length_append] at hle
    omega
  induction hfront with
  | nil => exact hback
  | @char text segments c hnone _ ih =>
    refine .char c (fun name hoccurs => hnone name ?_) (ih (hshift [c] hacross))
    exact hoccurs.of_append (hacross 0 name hoccurs (Nat.succ_pos _))
  | @hole text segments name hidentifier _ ih =>
    rw [List.append_assoc]
    exact .hole name hidentifier (ih (hshift (spell name) hacross))

end Reads

/-! ## A placeholder in a text -/

/-- The text that refers to a key. -/
def reference (key : String) : String := "\x7b" ++ key ++ "\x7d"

theorem toList_reference (key : String) : (reference key).toList = spell key := by
  simp [reference, spell]

/-- A placeholder is found between any two texts, which are read for themselves. -/
theorem segments_reference {key : String} (hkey : Identifier.isIdentifier key.toList = true)
    (front back : String) : segments (front ++ reference key ++ back) =
      segments front ++ .hole key :: segments back := by
  have hback : Reads (spell key ++ back.toList) (.hole key :: segments back) :=
    .hole key hkey (reads_segments back)
  have hoccurs : OccursIn (front.toList ++ (spell key ++ back.toList)) front.toList.length key :=
    (OccursIn.append_iff (i := 0) _).2 (OccursIn.zero_iff.2 ⟨hkey, List.prefix_append _ _⟩)
  have hwhole := (reads_segments front).append hback fun i name hother hlt =>
    hother.end_le hoccurs hlt
  refine (reads_segments _).unique ?_
  rwa [String.toList_append, String.toList_append, toList_reference, List.append_assoc]

/-- A template is filled in with what its segments are filled in with. -/
theorem substitute_eq_ok_iff_shown {filled : String} : substitute template state = .ok filled ↔
    (∀ name, .hole name ∈ segments template → state.contains name) ∧
      filled.toList = (segments template).flatMap (Segment.shown state) := by
  constructor
  · intro hfilled
    have hvalues : ∀ name, .hole name ∈ segments template → state.contains name :=
      fun name => contains_of_foldlM_appendTo hfilled
    obtain ⟨text, htext, hshown⟩ := foldlM_appendTo_of_filled hvalues ""
    obtain rfl := Except.ok.inj (hfilled.symm.trans htext)
    exact ⟨hvalues, by simpa using hshown⟩
  · rintro ⟨hvalues, hshown⟩
    obtain ⟨text, htext, htextShown⟩ := foldlM_appendTo_of_filled hvalues ""
    rw [String.toList_empty, List.nil_append, ← hshown] at htextShown
    rw [substitute, htext, String.toList_injective htextShown]

/-- What stands around a placeholder is filled in on its own. -/
theorem substitute_reference {key value front back front' back' : String}
    (hkey : Identifier.isIdentifier key.toList = true) (hvalue : state.get? key = some value)
    (hfront : substitute front state = .ok front') (hback : substitute back state = .ok back') :
    substitute (front ++ reference key ++ back) state = .ok (front' ++ value ++ back') := by
  obtain ⟨hfrontValues, hfrontShown⟩ := substitute_eq_ok_iff_shown.1 hfront
  obtain ⟨hbackValues, hbackShown⟩ := substitute_eq_ok_iff_shown.1 hback
  refine substitute_eq_ok_iff_shown.2 ⟨fun name hmem => ?_, ?_⟩
  · rw [segments_reference hkey, List.mem_append, List.mem_cons] at hmem
    rcases hmem with hmem | hmem | hmem
    · exact hfrontValues name hmem
    · obtain rfl := Segment.hole.inj hmem
      simp [KeyMap.contains, hvalue]
    · exact hbackValues name hmem
  · simp [segments_reference hkey, hfrontShown, hbackShown, Segment.shown, hvalue]

/-- A text without an opening brace is filled in with itself. -/
theorem substitute_of_no_brace (h : '\x7b' ∉ template.toList) (state : KeyMap String) :
    substitute template state = .ok template := by
  refine substitute_of_placeholders_eq_nil (List.eq_nil_iff_forall_not_mem.2 fun name hmem => ?_) _
  obtain ⟨i, hoccurs⟩ := mem_placeholders_iff.1 hmem
  exact h (List.mem_of_getElem? hoccurs.getElem?_open)

/-! ## Keys -/

/-- What stands between two braces alone is a placeholder if it could be a key. -/
theorem placeholders_reference_iff {key : String} :
    placeholders (reference key) = [key] ↔ OutputKey.check key key.length = .ok () := by
  rw [OutputKey.check_eq_ok_iff, and_iff_left (Nat.le_refl _)]
  constructor
  · intro hnames
    obtain ⟨i, hoccurs⟩ := mem_placeholders_iff.1 (hnames ▸ List.mem_singleton_self key)
    exact hoccurs.identifier
  · intro hkey
    have halone := segments_reference hkey "" ""
    rw [String.empty_append, String.append_empty] at halone
    rw [placeholders, halone]
    rfl

/-- Whether templates can refer to a key: alone between braces it is a placeholder, and
within any template it stands for its value. -/
structure Referable (key : String) : Prop where
  alone : placeholders (reference key) = [key]
  /-- Between templates that are filled in themselves. -/
  within : ∀ (state : KeyMap String) (value front back front' back' : String),
    state.get? key = some value → substitute front state = .ok front' →
    substitute back state = .ok back' →
      substitute (front ++ reference key ++ back) state = .ok (front' ++ value ++ back')
  /-- Between texts without opening braces. -/
  between : ∀ (state : KeyMap String) (value front back : String),
    state.get? key = some value → '\x7b' ∉ front.toList → '\x7b' ∉ back.toList →
      substitute (front ++ reference key ++ back) state = .ok (front ++ value ++ back)
  /-- In the instruction of a sub-task, which is filled in when the sub-task starts. -/
  instructs : ∀ (definition : Definition) (state : KeyMap String) (value front back : String),
    definition.instruction = some (front ++ reference key ++ back) →
    state.get? key = some value → '\x7b' ∉ front.toList → '\x7b' ∉ back.toList →
      Member.expand definition state = .ok (some (front ++ value ++ back))

theorem referable_of_check {key : String} {max : Nat} (h : OutputKey.check key max = .ok ()) :
    Referable key := by
  obtain ⟨hkey, -⟩ := OutputKey.check_eq_ok_iff.1 h
  have hbetween : ∀ (state : KeyMap String) (value front back : String),
      state.get? key = some value → '\x7b' ∉ front.toList → '\x7b' ∉ back.toList →
        substitute (front ++ reference key ++ back) state = .ok (front ++ value ++ back) :=
    fun state value front back hvalue hfront hback => substitute_reference hkey hvalue
      (substitute_of_no_brace hfront state) (substitute_of_no_brace hback state)
  refine ⟨placeholders_reference_iff.2 (OutputKey.check_eq_ok_iff.2 ⟨hkey, Nat.le_refl _⟩),
    fun state value front back front' back' => substitute_reference hkey, hbetween, ?_⟩
  intro definition state value front back hinstruction hvalue hfront hback
  rw [Member.expand, hinstruction]
  dsimp only
  rw [hbetween state value front back hvalue hfront hback]

end Template

namespace Config

variable {τ : Type} {config : Config}

/-- A key that was made of names keeps to the policy. -/
theorem check_of_outputKey_eq_ok {definition : Definition} {key : String}
    (h : config.outputKey definition = .ok key) (hmade : definition.outputKey = none) :
    OutputKey.check key OutputKey.generatedMaxLength = .ok () := by
  have heq := outputKey_eq_ok h
  rw [hmade, Option.getD_none] at heq
  rw [heq]
  cases hcheck : OutputKey.check (OutputKey.generate (definition.namespaceOr config.namespace)
      definition.name) OutputKey.generatedMaxLength with
  | error error =>
    rw [outputKey_eq_error_iff.2 ⟨hmade, hcheck⟩] at h
    cases h
  | ok _ => rfl

/-- Whether every sub-task for which a key is made publishes its output under this key, which
keeps to the policy and which templates can refer to. -/
def MakesReferable (config : Config) (workflow : Workflow τ) : Prop :=
  ∀ (index : Nat) (definition : Definition), config.subTasks[index]? = some definition →
    definition.outputKey = none → ∃ member task key,
      workflow.members[index]? = some (member, task) ∧ member.outputKey = some key ∧
      key = OutputKey.generate (definition.namespaceOr config.namespace) definition.name ∧
      OutputKey.check key OutputKey.generatedMaxLength = .ok () ∧ Template.Referable key

theorem makesReferable_of_build {resolver : Resolver τ} {workflow : Workflow τ}
    (h : (config.buildNoting resolver).1 = .ok workflow) : config.MakesReferable workflow := by
  obtain ⟨result, asked, houtcome⟩ := config.exists_outcome resolver
  have hnoting := houtcome.buildNoting_eq
  rw [hnoting] at h
  subst h
  cases houtcome with
  | @built keys tasks hkeys htasks =>
    intro index definition hget hmade
    obtain ⟨key, task, hkey, hname, -, hmember⟩ :=
      (wires_wired hkeys htasks (congrArg Prod.snd hnoting)).member index definition hget
    obtain ⟨key', hkey', hok⟩ := getElem?_outputKeys hkeys hget
    obtain rfl := Option.some.inj (hkey.symm.trans hkey')
    have hcheck := check_of_outputKey_eq_ok hok hmade
    rw [hmade, Option.getD_none] at hname
    exact ⟨_, task, key, hmember, rfl, hname, hcheck, Template.referable_of_check hcheck⟩

end Config

namespace Template

/-- What may stand between the braces of a placeholder is what may be a key, whatever its
characters are. To a key that keeps to the policy, for whichever length, every template can
refer: where it stands in it, it is filled in with its value and what stands around it is
not touched. So to every key that a workflow built of a configuration has made of names. -/
theorem keys_referable :
    (∀ key, placeholders (reference key) = [key] ↔ OutputKey.check key key.length = .ok ()) ∧
    (∀ key max, OutputKey.check key max = .ok () → Referable key) ∧
    ∀ (τ : Type) (config : Config) (resolver : Resolver τ) (workflow : Workflow τ),
      (config.buildNoting resolver).1 = .ok workflow → config.MakesReferable workflow :=
  ⟨fun _ => placeholders_reference_iff, fun _ _ => referable_of_check,
    fun _ _ _ _ => Config.makesReferable_of_build⟩

-- Neither a brace nor a line's end nor a letter outside of ASCII may stand in a key.
example : placeholders (reference "a\x7db") = ["a"] ∧ placeholders (reference "a\n") = [] ∧
    placeholders (reference "ä") = [] := by decide +kernel

end Template

end Coordination
