import Mathlib.Data.List.Induction
import Coordination.Catalog

/-!
# What a catalog answers

A task is offered for a name, in one namespace or in all. The catalog keeps
each task under one text, the name with the namespace and a slash in front if
there is one (`Catalog.entry`). Names that make the same text are one to it.

* `Offer.found` and `Offer.meant`: the offer that a catalog finds for a
  sub-task, by the text, and the one that is meant for it, by namespace and name;
* `Offer.found_eq_meant_iff`: the one found is the one meant exactly if it is
  for the sub-task at all;
* `Catalog.entry_inj_iff`: the names that never make the same text are those of
  which none is another one with a text and a slash in front;
* `Offer.respects_names_iff`: exactly with such names a catalog always answers
  with the task meant, and keeps each task until another takes its place.
-/

namespace Coordination

namespace Catalog

/-- The text that stands for a name in a namespace, or in all. -/
def entry («namespace» : Option String) (name : String) : String :=
  match «namespace» with
  | some «namespace» => «namespace» ++ "/" ++ name
  | none => name

/-- No name is another one with a text and a slash in front. -/
def Separable (names : List String) : Prop :=
  ∀ long ∈ names, ∀ short ∈ names, ∀ front, long ≠ front ++ "/" ++ short

theorem ne_append (front name : String) : name ≠ front ++ "/" ++ name := by
  intro h
  have hlength := congrArg (·.toList.length) h
  simp only [String.toList_append, List.length_append] at hlength
  have : "/".toList.length = 1 := rfl
  omega

/-- A slash and a name that end with a slash and another name: the names are
the same, or the first ends with a slash and the other. -/
theorem ends_of_slash {middle : List Char} {name name' : String}
    (h : '/' :: name.toList = middle ++ '/' :: name'.toList) :
    middle = [] ∧ name = name' ∨ ∃ front, name = front ++ "/" ++ name' := by
  cases middle with
  | nil => exact .inl ⟨rfl, String.ext (List.cons.inj h).2⟩
  | cons c middle =>
    refine .inr ⟨String.ofList middle, String.ext ?_⟩
    have hslash : "/".toList = ['/'] := rfl
    have hname : name.toList = middle ++ '/' :: name'.toList := (List.cons.inj h).2
    rw [hname, String.toList_append, String.toList_append, String.toList_ofList, hslash,
      List.append_assoc, List.singleton_append]

/-- Of two names that make the same text with a slash, one ends the other. -/
theorem ends_of_append_eq {front front' name name' : String}
    (h : front ++ "/" ++ name = front' ++ "/" ++ name') :
    front = front' ∧ name = name' ∨ (∃ middle, name = middle ++ "/" ++ name') ∨
      ∃ middle, name' = middle ++ "/" ++ name := by
  have hslash : "/".toList = ['/'] := rfl
  have htext := congrArg String.toList h
  simp only [String.toList_append, hslash, List.append_assoc, List.singleton_append] at htext
  rcases List.append_eq_append_iff.1 htext with ⟨middle, hfront, hname⟩ | ⟨middle, hfront, hname⟩
  · rcases ends_of_slash hname with ⟨rfl, hsame⟩ | hends
    · exact .inl ⟨String.ext (by rw [hfront, List.append_nil]), hsame⟩
    · exact .inr (.inl hends)
  · rcases ends_of_slash hname with ⟨rfl, hsame⟩ | hends
    · exact .inl ⟨String.ext (by rw [hfront, List.append_nil]), hsame.symm⟩
    · exact .inr (.inr hends)

/-- Different names that make the same text end one another. -/
theorem ends_of_entry_eq {ns ns' : Option String} {name name' : String}
    (h : entry ns name = entry ns' name') :
    ns = ns' ∧ name = name' ∨ (∃ middle, name = middle ++ "/" ++ name') ∨
      ∃ middle, name' = middle ++ "/" ++ name := by
  cases ns with
  | none =>
    cases ns' with
    | none => exact .inl ⟨rfl, h⟩
    | some front => exact .inr (.inl ⟨front, h⟩)
  | some front =>
    cases ns' with
    | none => exact .inr (.inr ⟨front, h.symm⟩)
    | some front' => exact (ends_of_append_eq h).imp_left (.imp_left (congrArg some))

/-- In different namespaces a name makes different texts. -/
theorem namespace_eq_of_entry {ns ns' : Option String} {name : String}
    (h : entry ns name = entry ns' name) : ns = ns' := by
  rcases ends_of_entry_eq h with ⟨hns, -⟩ | ⟨middle, hname⟩ | ⟨middle, hname⟩
  · exact hns
  · exact absurd hname (ne_append middle name)
  · exact absurd hname (ne_append middle name)

/-- The names that never make the same text. -/
theorem entry_inj_iff {names : List String} :
    Separable names ↔ ∀ name ∈ names, ∀ name' ∈ names, ∀ ns ns',
      entry ns name = entry ns' name' → ns = ns' ∧ name = name' := by
  constructor
  · intro hnames name hname name' hname' ns ns' h
    rcases ends_of_entry_eq h with hsame | ⟨middle, hlong⟩ | ⟨middle, hlong⟩
    · exact hsame
    · exact absurd hlong (hnames name hname name' hname' middle)
    · exact absurd hlong (hnames name' hname' name hname middle)
  · intro h long hlong short hshort front heq
    have hsame := (h long hlong short hshort none (some front) heq).2
    exact ne_append front short (hsame ▸ heq)

end Catalog

theorem Definition.qualifiedName_eq (definition : Definition) :
    definition.qualifiedName = Catalog.entry definition.namespace definition.name := by
  unfold Definition.qualifiedName Catalog.entry
  cases definition.namespace <;> rfl

namespace Offer

open Catalog (entry Separable)

variable {τ : Type}

/-- The last offer that stands under a text. -/
def lastAt (offers : List (Offer τ)) (text : String) : Option (Offer τ) :=
  offers.reverse.find? fun offer => entry offer.namespace offer.name = text

/-- The last offer of a name in a namespace, or in all. -/
def lastFor (offers : List (Offer τ)) («namespace» : Option String) (name : String) :
    Option (Offer τ) :=
  offers.reverse.find? fun offer => offer.namespace = «namespace» && offer.name = name

/-- The offer that a catalog finds for a sub-task: the last under its name with
the namespace, or else under the name alone. -/
def found (offers : List (Offer τ)) (definition : Definition) : Option (Offer τ) :=
  (lastAt offers (entry definition.namespace definition.name)).or (lastAt offers definition.name)

/-- The offer that is meant for a sub-task: the last of its name in its
namespace, or else in all. -/
def meant (offers : List (Offer τ)) (definition : Definition) : Option (Offer τ) :=
  (lastFor offers definition.namespace definition.name).or (lastFor offers none definition.name)

/-! ## Look-ups -/

theorem catalog_concat (offers : List (Offer τ)) (offer : Offer τ) :
    (catalog (offers ++ [offer])).tasks =
      (catalog offers).tasks.insert (entry offer.namespace offer.name) offer.task := by
  rw [catalog, List.foldl_append, List.foldl_cons, List.foldl_nil, ← catalog]
  cases offer.namespace <;> rfl

theorem lastAt_concat (offers : List (Offer τ)) (offer : Offer τ) (text : String) :
    lastAt (offers ++ [offer]) text =
      if entry offer.namespace offer.name = text then some offer else lastAt offers text := by
  rw [lastAt, List.reverse_append, List.reverse_singleton, List.singleton_append, List.find?_cons,
    ← lastAt]
  split <;> simp_all

/-- A catalog holds the last task that was registered under a text. -/
theorem get?_catalog (offers : List (Offer τ)) (text : String) :
    (catalog offers).tasks.get? text = (lastAt offers text).map (·.task) := by
  induction offers using List.reverseRecOn with
  | nil => rfl
  | append_singleton offers offer ih =>
    rw [catalog_concat, KeyMap.get?_insert, lastAt_concat, ih]
    split <;> rfl

theorem resolve_catalog (offers : List (Offer τ)) (definition : Definition) :
    (catalog offers).resolve definition = (found offers definition).map (·.task) := by
  rw [Catalog.resolve, get?_catalog, get?_catalog, definition.qualifiedName_eq, found]
  cases lastAt offers (entry definition.namespace definition.name) <;> rfl

/-! ## Texts and names -/

section

variable {offers : List (Offer τ)} {definition : Definition} {offer : Offer τ} {text : String}
  {ns : Option String} {name : String}

theorem mem_of_lastAt (h : lastAt offers text = some offer) :
    offer ∈ offers ∧ entry offer.namespace offer.name = text :=
  ⟨List.mem_reverse.1 (List.mem_of_find?_eq_some h), by simpa using List.find?_some h⟩

theorem mem_of_lastFor (h : lastFor offers ns name = some offer) :
    offer ∈ offers ∧ offer.namespace = ns ∧ offer.name = name :=
  ⟨List.mem_reverse.1 (List.mem_of_find?_eq_some h), by simpa using List.find?_some h⟩

/-- An offer of the name that is the last under the text is the last of the name. -/
theorem lastFor_of_lastAt (h : lastAt offers (entry ns name) = some offer)
    (hname : offer.name = name) : lastFor offers ns name = some offer := by
  have hns : offer.namespace = ns :=
    @Catalog.namespace_eq_of_entry _ _ name (hname ▸ (mem_of_lastAt h).2)
  obtain ⟨-, later, earlier, hsplit, hlater⟩ := List.find?_eq_some_iff_append.1 h
  refine List.find?_eq_some_iff_append.2 ⟨by simp [hns, hname], later, earlier, hsplit, ?_⟩
  intro other hother
  have hentry : entry other.namespace other.name ≠ entry ns name := by
    simpa using hlater other hother
  simp only [Bool.not_eq_true', Bool.and_eq_false_iff, decide_eq_false_iff_not]
  by_contra hsame
  simp only [not_or, not_not] at hsame
  exact hentry (by rw [hsame.1, hsame.2])

theorem lastFor_of_lastAt_none (h : lastAt offers (entry ns name) = none) :
    lastFor offers ns name = none := by
  refine List.find?_eq_none.2 fun other hother hsame => ?_
  simp only [Bool.and_eq_true, decide_eq_true_eq] at hsame
  exact List.find?_eq_none.1 h other hother (by simp [hsame])

/-- The offer that is meant for a sub-task is for it. -/
theorem fits_of_meant (h : meant offers definition = some offer) : offer.fits definition := by
  rcases Option.or_eq_some_iff.1 h with h | ⟨-, h⟩
  · obtain ⟨-, hns, hname⟩ := mem_of_lastFor h
    simp [fits, hns, hname]
  · obtain ⟨-, hns, hname⟩ := mem_of_lastFor h
    simp [fits, hns, hname]

theorem mem_of_found (h : found offers definition = some offer) :
    offer ∈ offers ∧
      ∃ ns, entry offer.namespace offer.name = entry ns definition.name := by
  rcases Option.or_eq_some_iff.1 h with h | ⟨-, h⟩
  · exact (mem_of_lastAt h).imp_right fun hentry => ⟨definition.namespace, hentry⟩
  · exact (mem_of_lastAt h).imp_right fun hentry => ⟨none, hentry⟩

/-- A catalog that finds an offer of the name of a sub-task, or none, finds the
one that is meant. -/
theorem found_eq_meant (h : ∀ offer, found offers definition = some offer →
      offer.name = definition.name) : found offers definition = meant offers definition := by
  cases hown : lastAt offers (entry definition.namespace definition.name) with
  | some offer =>
    have hfound : found offers definition = some offer := by rw [found, hown, Option.some_or]
    rw [hfound, meant, lastFor_of_lastAt hown (h offer hfound), Option.some_or]
  | none =>
    have hfound : found offers definition = lastAt offers definition.name := by
      rw [found, hown, Option.none_or]
    rw [hfound, meant, lastFor_of_lastAt_none hown, Option.none_or]
    cases hall : lastAt offers definition.name with
    | some offer =>
      have hbare : lastAt offers (entry none definition.name) = some offer := hall
      exact (lastFor_of_lastAt hbare (h offer (hfound.trans hall))).symm
    | none =>
      have hbare : lastAt offers (entry none definition.name) = none := hall
      exact (lastFor_of_lastAt_none hbare).symm

/-- What a catalog finds is what is meant, unless it is for another name. -/
theorem found_eq_meant_iff : found offers definition = meant offers definition ↔
    ∀ offer, found offers definition = some offer → offer.fits definition := by
  constructor
  · intro h offer hfound
    exact fits_of_meant (h ▸ hfound)
  · intro h
    refine found_eq_meant fun offer hfound => ?_
    have hfits := h offer hfound
    simp only [fits, Bool.and_eq_true, decide_eq_true_eq] at hfits
    exact hfits.1

end

/-- A catalog goes by the names of offers and sub-tasks, so far as these are
among some names. -/
structure Respects (names : List String) (offers : List (Offer τ)) : Prop where
  /-- It answers with the task that is meant. -/
  answers : ∀ definition : Definition, definition.name ∈ names →
    (catalog offers).resolve definition = (meant offers definition).map (·.task)
  /-- It finds no offer of another name, or in another namespace. -/
  fits : ∀ definition : Definition, definition.name ∈ names → ∀ offer,
    found offers definition = some offer → offer.fits definition
  /-- It keeps what it holds when an offer of another name, or in another
  namespace, is registered. -/
  keeps : ∀ offer : Offer τ, offer.name ∈ names → ∀ «namespace», ∀ name ∈ names,
    («namespace», name) ≠ (offer.namespace, offer.name) →
      (catalog (offers ++ [offer])).tasks.get? (entry «namespace» name) =
        (catalog offers).tasks.get? (entry «namespace» name)

theorem Respects.of_separable {names : List String} (hnames : Separable names)
    {offers : List (Offer τ)} (hoffers : ∀ offer ∈ offers, offer.name ∈ names) :
    Respects names offers := by
  have hinj := Catalog.entry_inj_iff.1 hnames
  have hmeant : ∀ definition : Definition, definition.name ∈ names →
      found offers definition = meant offers definition := fun definition hname =>
    found_eq_meant fun offer hfound => by
      obtain ⟨hmem, ns, hentry⟩ := mem_of_found hfound
      exact (hinj _ (hoffers offer hmem) _ hname _ _ hentry).2
  refine ⟨fun definition hname => ?_, fun definition hname => ?_, ?_⟩
  · rw [resolve_catalog, hmeant definition hname]
  · exact found_eq_meant_iff.1 (hmeant definition hname)
  · intro offer hoffer ns name hname hother
    rw [catalog_concat, KeyMap.get?_insert_of_ne]
    intro hentry
    obtain ⟨rfl, rfl⟩ := hinj _ hoffer _ hname _ _ hentry
    exact hother rfl

/-- A catalog answers with the last task under the name of a sub-task with its
namespace, or else under the name alone. That is the task meant for the
sub-task unless it was registered for another name. Exactly if no name is
another one with a text and a slash in front, it always is. -/
theorem respects_names_iff (task : τ) (names : List String) :
    (∀ (offers : List (Offer τ)) (definition : Definition),
        (catalog offers).resolve definition = (found offers definition).map (·.task) ∧
          (found offers definition = meant offers definition ↔
            ∀ offer, found offers definition = some offer → offer.fits definition)) ∧
      ((∀ offers : List (Offer τ), (∀ offer ∈ offers, offer.name ∈ names) →
        Respects names offers) ↔ Separable names) := by
  refine ⟨fun offers definition => ⟨resolve_catalog offers definition, found_eq_meant_iff⟩, ?_, ?_⟩
  · intro h long hlong short hshort front heq
    -- the long name, offered in all namespaces, stands where the short one would in `front`
    let offer : Offer τ := ⟨long, none, task⟩
    let definition : Definition := ⟨short, some front, none, none⟩
    have hrespects := h [offer] (by simpa [offer] using hlong)
    have hfound : found [offer] definition = some offer := by
      simp [found, lastAt, offer, definition, entry, heq]
    have hfits := hrespects.fits definition hshort offer hfound
    simp only [fits, Bool.and_eq_true, decide_eq_true_eq] at hfits
    have hname : long = short := hfits.1
    exact Catalog.ne_append front short (hname ▸ heq)
  · exact fun hnames offers hoffers => .of_separable hnames hoffers

/-- A task for the namespace `prod` alone is found for a sub-task in `staging`
for which none is meant, and a task takes the place of one in another namespace. -/
theorem collector_found_in_staging :
    let collector : Offer Nat := ⟨"collector", some "prod", 0⟩
    let «reference» : Definition := ⟨"prod/collector", some "staging", none, none⟩
    (catalog [collector]).resolve «reference» = some 0 ∧ meant [collector] «reference» = none ∧
      ¬ collector.fits «reference» ∧
      (catalog [⟨"b/c", some "a", 0⟩, ⟨"c", some "a/b", 1⟩] : Catalog Nat).resolve
        ⟨"b/c", some "a", none, none⟩ = some 1 := by
  decide +kernel

end Offer

end Coordination
