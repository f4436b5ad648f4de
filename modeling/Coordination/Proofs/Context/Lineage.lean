import Coordination.Context.Sharing
import Mathlib.Data.List.Basic
import Mathlib.Logic.Relation

/-!
# How contexts descend from one another

Every context was made as the root of a new session or from another context.
The births of contexts, in the order of their making, form a forest, and names
refer to births (`Lineage`), told from the steps alone.

What some links of the forest hand on, and nothing else does, marks its parts:
if a birth takes the label of its parent along these links and a new one
otherwise, two births are connected by such links just if they have the same
label (`Labelled.connected_iff`).
-/

namespace Coordination

/-- How a context is made from another. -/
inductive Link where
  | fromShared
  | shallowCopy
  | clone
  | child
  | withInstruction
  deriving DecidableEq, Repr

namespace Link

/-- Whether a context made in this way refers to the session of the other. -/
def SharesSession (link : Link) : Prop := link ≠ .child

/-- Whether a context made in this way belongs to the invocation of the other. -/
def SharesInvocation (link : Link) : Prop := link ≠ .fromShared

theorem shares_shallowCopy : shallowCopy.SharesSession ∧ shallowCopy.SharesInvocation :=
  ⟨nofun, nofun⟩

theorem shares_clone : clone.SharesSession ∧ clone.SharesInvocation := ⟨nofun, nofun⟩

theorem shares_withInstruction :
    withInstruction.SharesSession ∧ withInstruction.SharesInvocation :=
  ⟨nofun, nofun⟩

end Link

/-- How a context came about. -/
inductive Birth where
  /-- Over a new session of a user and an application. -/
  | root (user app : String)
  /-- From a context that is told by its place among the births. -/
  | derived (link : Link) (parent : Nat)
  deriving DecidableEq, Repr

/-- The births of contexts, and the one that each name refers to. -/
structure Lineage where
  births : List Birth
  names : KeyMap Nat
  deriving DecidableEq, Repr

namespace Lineage

/-- No context. -/
def empty : Lineage := ⟨[], .empty⟩

/-- One more birth, under a name. -/
def bear (lineage : Lineage) (name : String) (birth : Birth) : Lineage :=
  ⟨lineage.births ++ [birth], lineage.names.insert name lineage.births.length⟩

/-- A birth from the context of another name, if there is one. -/
def derive (lineage : Lineage) (name : String) (link : Link) (source : String) : Lineage :=
  match lineage.names.get? source with
  | none => lineage
  | some parent => lineage.bear name (.derived link parent)

/-- What a step brings about. -/
def apply (lineage : Lineage) : Sharing.Step → Lineage
  | .new name _ user app _ => lineage.bear name (.root user app)
  | .fromShared name source => lineage.derive name .fromShared source
  | .shallowCopy name source => lineage.derive name .shallowCopy source
  | .clone name source => lineage.derive name .clone source
  | .child name source .. => lineage.derive name .child source
  | .withInstruction name source _ => lineage.derive name .withInstruction source
  | .set .. | .extend .. | .look _ => lineage

/-- The lineage after steps. -/
def run (lineage : Lineage) (steps : List Sharing.Step) : Lineage := steps.foldl apply lineage

theorem derive_of_get? {lineage : Lineage} {source : String} {parent : Nat}
    (h : lineage.names.get? source = some parent) (name : String) (link : Link) :
    lineage.derive name link source = lineage.bear name (.derived link parent) := by
  simp only [derive, h]

theorem run_append (lineage : Lineage) (steps later : List Sharing.Step) :
    lineage.run (steps ++ later) = (lineage.run steps).run later :=
  List.foldl_append

end Lineage

/-! ## Connected births -/

/-- Whether a context was made from another by an admitted link. -/
def Derives (births : List Birth) (admits : Link → Prop) (parent child : Nat) : Prop :=
  ∃ link, births[child]? = some (.derived link parent) ∧ admits link

/-- Whether contexts are connected by admitted links, in any direction. -/
def Connected (births : List Birth) (admits : Link → Prop) : Nat → Nat → Prop :=
  Relation.EqvGen (Derives births admits)

/-- Whether a context descends from another, by any links. -/
def Descends (births : List Birth) : Nat → Nat → Prop :=
  Relation.ReflTransGen (Derives births fun _ => True)

variable {births : List Birth} {birth : Birth} {admits : Link → Prop}

theorem Derives.append {parent child : Nat} (h : Derives births admits parent child) :
    Derives (births ++ [birth]) admits parent child := by
  obtain ⟨link, hbirth, hadmits⟩ := h
  refine ⟨link, ?_, hadmits⟩
  rw [List.getElem?_append_left (List.getElem?_eq_some_iff.1 hbirth).1, hbirth]

theorem Connected.append {i j : Nat} (h : Connected births admits i j) :
    Connected (births ++ [birth]) admits i j :=
  Relation.EqvGen.mono (fun _ _ => Derives.append) i j h

theorem Descends.append {i j : Nat} (h : Descends births i j) :
    Descends (births ++ [birth]) i j :=
  Relation.ReflTransGen.mono (fun _ _ => Derives.append) i j h

/-- A context descends from one root only. -/
theorem Descends.root_unique {place root other : Nat} {user app user' app' : String}
    (hroot : births[root]? = some (.root user app)) (hplace : Descends births root place)
    (hother : births[other]? = some (.root user' app')) (hplace' : Descends births other place) :
    other = root := by
  -- nothing leads to a root but itself
  have honly : ∀ {root other : Nat} {user app : String}, births[root]? = some (.root user app) →
      Descends births other root → other = root := by
    intro root other user app hroot hdescends
    cases hdescends.cases_tail with
    | inl heq => exact heq.symm
    | inr hstep =>
      obtain ⟨_, -, link, hbirth, -⟩ := hstep
      cases hroot.symm.trans hbirth
  have hunique : Relator.LeftUnique (Derives births fun _ => True) := by
    rintro a b c ⟨link, hb, -⟩ ⟨link', hc, -⟩
    cases hb.symm.trans hc
    rfl
  have htotal := Relation.ReflTransGen.total_of_right_unique hunique.flip
    (Relation.reflTransGen_swap.2 hplace) (Relation.reflTransGen_swap.2 hplace')
  rcases htotal with h | h
  · exact honly hroot (Relation.reflTransGen_swap.1 h)
  · exact (honly hother (Relation.reflTransGen_swap.1 h)).symm

/-! ## Labels -/

theorem getElem?_concat_eq_some_iff {α : Type} {items : List α} {last item : α} {i : Nat} :
    (items ++ [last])[i]? = some item ↔ items[i]? = some item ∨ i = items.length ∧ last = item := by
  rcases Nat.lt_trichotomy i items.length with hlt | rfl | hgt
  · simp [List.getElem?_append_left hlt, Nat.ne_of_lt hlt]
  · simp
  · simp [List.getElem?_eq_none (show items.length ≤ i by omega), Nat.ne_of_gt hgt,
      List.getElem?_eq_none (show (items ++ [last]).length ≤ i by simp; omega)]

section Labels

variable {α : Type}

/-- Labels of births: along an admitted link a birth takes the label of its
parent, and otherwise one that no birth before it has. -/
inductive Labelled (admits : Link → Prop) : List Birth → List α → Prop where
  | nil : Labelled admits [] []
  | inherits {births : List Birth} {labels : List α} {link : Link} {parent : Nat} {label : α}
      (h : Labelled admits births labels) (hadmits : admits link)
      (hparent : labels[parent]? = some label) :
      Labelled admits (births ++ [.derived link parent]) (labels ++ [label])
  | fresh {births : List Birth} {labels : List α} {birth : Birth} {label : α}
      (h : Labelled admits births labels)
      (hbirth : ∀ link parent, birth = .derived link parent → ¬ admits link)
      (hlabel : label ∉ labels) : Labelled admits (births ++ [birth]) (labels ++ [label])

namespace Labelled

variable {labels : List α}

theorem length_eq (h : Labelled admits births labels) : labels.length = births.length := by
  induction h with
  | nil => rfl
  | inherits _ _ _ ih | fresh _ _ _ ih => simp [ih]

/-- What is connected has the same label, -/
theorem getElem?_eq_of_derives (h : Labelled admits births labels) {parent child : Nat}
    (hderives : Derives births admits parent child) :
    ∃ label, labels[parent]? = some label ∧ labels[child]? = some label := by
  obtain ⟨link, hchild, hadmits⟩ := hderives
  induction h with
  | nil => simp at hchild
  | inherits h _ hparent ih =>
    rcases getElem?_concat_eq_some_iff.1 hchild with hbefore | ⟨rfl, hlast⟩
    · obtain ⟨label, hlabel, hlabel'⟩ := ih hbefore
      exact ⟨label, getElem?_concat_eq_some_iff.2 (.inl hlabel),
        getElem?_concat_eq_some_iff.2 (.inl hlabel')⟩
    · cases hlast
      exact ⟨_, getElem?_concat_eq_some_iff.2 (.inl hparent),
        getElem?_concat_eq_some_iff.2 (.inr ⟨h.length_eq.symm, rfl⟩)⟩
  | fresh h hbirth _ ih =>
    rcases getElem?_concat_eq_some_iff.1 hchild with hbefore | ⟨-, hlast⟩
    · obtain ⟨label, hlabel, hlabel'⟩ := ih hbefore
      exact ⟨label, getElem?_concat_eq_some_iff.2 (.inl hlabel),
        getElem?_concat_eq_some_iff.2 (.inl hlabel')⟩
    · exact absurd hadmits (hbirth link parent hlast)

theorem getElem?_eq_of_connected (h : Labelled admits births labels) {i j : Nat}
    (hconnected : Connected births admits i j) : labels[i]? = labels[j]? := by
  induction hconnected with
  | rel parent child hderives =>
    obtain ⟨label, hparent, hchild⟩ := h.getElem?_eq_of_derives hderives
    exact hparent.trans hchild.symm
  | refl => rfl
  | symm _ _ _ ih => exact ih.symm
  | trans _ _ _ _ _ ih ih' => exact ih.trans ih'

/-- and what has the same label is connected with the first birth of that label. -/
theorem connected_idxOf [DecidableEq α] (h : Labelled admits births labels) {i : Nat} {label : α}
    (hi : labels[i]? = some label) : Connected births admits (labels.idxOf label) i := by
  induction h generalizing i label with
  | nil => simp at hi
  | @inherits births labels link parent last h hadmits hparent ih =>
    have hmem : label ∈ labels := by
      rcases getElem?_concat_eq_some_iff.1 hi with hbefore | ⟨-, rfl⟩
      · exact List.mem_of_getElem? hbefore
      · exact List.mem_of_getElem? hparent
    rw [List.idxOf_append_of_mem hmem]
    rcases getElem?_concat_eq_some_iff.1 hi with hbefore | ⟨rfl, rfl⟩
    · exact (ih hbefore).append
    · have hderives : Derives (births ++ [.derived link parent]) admits parent labels.length :=
        ⟨link, by rw [h.length_eq, List.getElem?_concat_length], hadmits⟩
      exact .trans _ _ _ (ih hparent).append (.rel _ _ hderives)
  | @fresh births labels birth last h _ hlabel ih =>
    rcases getElem?_concat_eq_some_iff.1 hi with hbefore | ⟨rfl, rfl⟩
    · rw [List.idxOf_append_of_mem (List.mem_of_getElem? hbefore)]
      exact (ih hbefore).append
    · rw [List.idxOf_append_of_notMem hlabel, List.idxOf_cons_self, Nat.add_zero]
      exact .refl _

/-- Births are connected just if they have the same label. -/
theorem connected_iff [DecidableEq α] (h : Labelled admits births labels) {i j : Nat} {a b : α}
    (hi : labels[i]? = some a) (hj : labels[j]? = some b) :
    Connected births admits i j ↔ a = b := by
  constructor
  · intro hconnected
    have hsame := h.getElem?_eq_of_connected hconnected
    rw [hi, hj] at hsame
    exact Option.some.inj hsame
  · rintro rfl
    exact .trans _ _ _ (.symm _ _ (h.connected_idxOf hi)) (h.connected_idxOf hj)

end Labelled

end Labels

end Coordination
