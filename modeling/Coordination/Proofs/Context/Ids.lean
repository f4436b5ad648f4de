import Mathlib.Data.List.Infix
import Coordination.Context

/-!
# The ids of sessions

The session of a sub-task is named after that of its workflow and after its place there. The
name of the place holds no dash, so the last dash of an id tells the two apart, though the
first part may hold any text (`Context.childId_inj`). So the sessions below a root, however
deep, all have different ids (`Context.pathId_inj`), and the family of ids that begin like
those below one sub-task has none in common with that of another (`Context.Family.place_inj`).
-/

namespace Coordination

namespace Context

/-- What an id has between its parent's and the name of its place. -/
def separator : List Char := "-sub-".toList

theorem toList_childId (parent : String) (index : Nat) :
    (childId parent index).toList = parent.toList ++ separator ++ Nat.toDigits 10 index := by
  simp [childId, separator, toString]

theorem ne_dash_of_mem_toDigits {index : Nat} {digit : Char} (h : digit ∈ Nat.toDigits 10 index) :
    digit ≠ '-' := by
  rintro rfl
  have hdigit := Nat.isDigit_of_mem_toDigits (by decide) (by decide) h
  simp [Char.isDigit] at hdigit

theorem toDigits_inj {i j : Nat} : Nat.toDigits 10 i = Nat.toDigits 10 j ↔ i = j := by
  refine ⟨fun h => ?_, congrArg _⟩
  calc
    i = Nat.ofDigitChars 10 (Nat.toDigits 10 i) 0 := Nat.ofDigitChars_ten_toDigits.symm
    _ = Nat.ofDigitChars 10 (Nat.toDigits 10 j) 0 := by rw [h]
    _ = j := Nat.ofDigitChars_ten_toDigits

/-- Behind the last dash stands the name of the place. -/
theorem takeWhile_reverse_childId (parent : String) (index : Nat) :
    (childId parent index).toList.reverse.takeWhile (· ≠ '-') =
      (Nat.toDigits 10 index).reverse := by
  rw [toList_childId, List.reverse_append, List.takeWhile_append_of_pos]
  · rw [List.reverse_append]
    exact List.append_nil _
  · intro digit hmem
    simpa using ne_dash_of_mem_toDigits (List.mem_reverse.1 hmem)

/-- An id tells the session and the place that it was made from. -/
theorem childId_inj {parent parent' : String} {index index' : Nat} :
    childId parent index = childId parent' index' ↔ parent = parent' ∧ index = index' := by
  refine ⟨fun h => ?_, fun ⟨hparent, hindex⟩ => hparent ▸ hindex ▸ rfl⟩
  have hdigits : Nat.toDigits 10 index = Nat.toDigits 10 index' := by
    rw [← List.reverse_inj, ← takeWhile_reverse_childId parent, h, takeWhile_reverse_childId]
  have hfront : parent.toList ++ separator ++ Nat.toDigits 10 index =
      parent'.toList ++ separator ++ Nat.toDigits 10 index := by
    rw [← toList_childId, h, toList_childId, hdigits]
  have hparent := List.append_cancel_right (List.append_cancel_right hfront)
  exact ⟨String.toList_inj.1 hparent, toDigits_inj.1 hdigits⟩

theorem length_lt_childId (parent : String) (index : Nat) :
    parent.length < (childId parent index).length := by
  rw [← String.length_toList, ← String.length_toList, toList_childId, List.length_append,
    List.length_append, Nat.add_assoc]
  exact Nat.lt_add_of_pos_right (Nat.add_pos_left (by decide) _)

/-! ## Paths -/

/-- The id of the session that a path of places leads to from a root. -/
def pathId (root : String) (path : List Nat) : String := path.foldl childId root

@[simp] theorem pathId_nil (root : String) : pathId root [] = root := rfl

@[simp] theorem pathId_cons (root : String) (index : Nat) (path : List Nat) :
    pathId root (index :: path) = pathId (childId root index) path := rfl

theorem pathId_concat (root : String) (path : List Nat) (index : Nat) :
    pathId root (path ++ [index]) = childId (pathId root path) index := by
  rw [pathId, List.foldl_append]
  rfl

theorem length_lt_pathId (root : String) {path : List Nat} (h : path ≠ []) :
    root.length < (pathId root path).length := by
  induction path generalizing root with
  | nil => exact absurd rfl h
  | cons index path ih =>
    have hchild := length_lt_childId root index
    cases path with
    | nil => exact hchild
    | cons => exact hchild.trans (ih (childId root index) (by simp))

/-- No session below a root has its id. -/
theorem pathId_ne (root : String) {path : List Nat} (h : path ≠ []) : pathId root path ≠ root :=
  fun hsame => absurd (length_lt_pathId root h) (by rw [hsame]; exact Nat.lt_irrefl _)

/-- Different paths lead to sessions with different ids. -/
theorem pathId_inj {root : String} {path path' : List Nat} :
    pathId root path = pathId root path' ↔ path = path' := by
  refine ⟨fun h => ?_, congrArg _⟩
  induction path using List.reverseRecOn generalizing path' with
  | nil =>
    by_contra hne
    exact pathId_ne root (Ne.symm hne) h.symm
  | append_singleton front index ih =>
    rcases List.eq_nil_or_concat path' with rfl | ⟨front', index', rfl⟩
    · exact absurd h (pathId_ne root (by simp))
    · rw [List.concat_eq_append, pathId_concat, pathId_concat, childId_inj] at h
      rw [List.concat_eq_append, ih h.1, h.2]

/-! ## Families -/

/-- The ids that a tree of sessions may have below a root: that of the root, and all that
begin with it and the separator. -/
def Family (root id : String) : Prop := id = root ∨ root.toList ++ separator <+: id.toList

theorem Family.refl (root : String) : Family root root := .inl rfl

theorem isPrefix_childId (parent : String) (index : Nat) :
    parent.toList ++ separator <+: (childId parent index).toList := by
  rw [toList_childId]
  exact List.prefix_append _ _

theorem Family.isPrefix {root id : String} (h : Family root id) : root.toList <+: id.toList := by
  rcases h with rfl | h
  · exact List.prefix_rfl
  · exact (List.prefix_append _ _).trans h

theorem Family.childId {root id : String} (h : Family root id) (index : Nat) :
    Family root (childId id index) := by
  refine .inr ?_
  rcases h with rfl | h
  · exact isPrefix_childId id index
  · exact h.trans ((List.prefix_append _ _).trans (isPrefix_childId id index))

/-- The families below a session belong to its own. -/
theorem Family.of_childId {root id : String} {index : Nat}
    (h : Family (Context.childId root index) id) : Family root id :=
  .inr ((isPrefix_childId root index).trans h.isPrefix)

/-- But its id is in none of them. -/
theorem not_family_childId (root : String) (index : Nat) : ¬ Family (childId root index) root := by
  intro h
  have hlength := h.isPrefix.length_le
  rw [String.length_toList, String.length_toList] at hlength
  exact absurd hlength (Nat.not_le.2 (length_lt_childId root index))

/-- What follows an id and the separator in an id of the family below a place, up to the next
dash, is the name of the place. -/
theorem Family.takeWhile_drop {root id : String} {index : Nat}
    (h : Family (Context.childId root index) id) :
    (id.toList.drop (root.toList ++ separator).length).takeWhile (· ≠ '-') =
      Nat.toDigits 10 index := by
  have hdigits : ∀ rest : List Char, rest = [] ∨ rest.head? = some '-' →
      ((root.toList ++ separator ++ Nat.toDigits 10 index ++ rest).drop
        (root.toList ++ separator).length).takeWhile (· ≠ '-') = Nat.toDigits 10 index := by
    intro rest hrest
    rw [List.append_assoc _ _ rest, List.drop_left, List.takeWhile_append_of_pos]
    · rcases hrest with rfl | hrest
      · exact List.append_nil _
      · obtain ⟨rest, rfl⟩ := List.head?_eq_some_iff.1 hrest
        exact List.append_nil _
    · exact fun digit hmem => by simpa using ne_dash_of_mem_toDigits hmem
  rcases h with rfl | ⟨rest, hrest⟩
  · rw [toList_childId, ← List.append_nil (_ ++ _ ++ _)]
    exact hdigits [] (.inl rfl)
  · rw [← hrest, toList_childId, List.append_assoc _ separator rest]
    exact hdigits _ (.inr rfl)

/-- The families below different places of a session have no id in common. -/
theorem Family.place_inj {root id : String} {index index' : Nat}
    (h : Family (Context.childId root index) id) (h' : Family (Context.childId root index') id) :
    index = index' :=
  toDigits_inj.1 (h.takeWhile_drop.symm.trans h'.takeWhile_drop)

end Context

end Coordination
