import Coordination.Journal

/-!
# Levels

The level that a series shows is told by the measurements made so far: each
sets it, raises it, lowers it or leaves it alone (`Measurement.levelFrom?`). It
may not fall below zero. Only the measurements of the series that are made under
the name of the workflow count (`Measurement.levelFrom?_filter`).
-/

namespace Coordination

/-- What a change makes of a level; none if the level would fall below zero. -/
def Change.on (level : Nat) : Change → Option Nat
  | .set value => some value
  | .rise => some (level + 1)
  | .fall => if 0 < level then some (level - 1) else none
  | .count | .sample => some level

namespace Series

@[simp] theorem queueDepth_ne_activeExecutions : queueDepth ≠ activeExecutions := by decide

@[simp] theorem activeExecutions_ne_queueDepth : activeExecutions ≠ queueDepth :=
  queueDepth_ne_activeExecutions.symm

end Series

namespace Measurement

/-- The name under which a measurement is made. -/
def workflow : Measurement → String
  | slots workflow _ | waitBegan workflow | waitEnded workflow | slotTaken workflow
  | slotFreed workflow | outputWritten workflow _ | turnAwaited workflow => workflow

/-- Whether a measurement is one of a workflow in a series. -/
def isOf (series : Series) (workflow : String) (measurement : Measurement) : Bool :=
  measurement.series = series && measurement.labels.contains ("workflow", workflow)

/-- The level of a workflow in a series after measurements that began at a
level; none if it ever fell below zero. -/
def levelFrom? (series : Series) (workflow : String) (level : Nat) (measured : List Measurement) :
    Option Nat :=
  measured.foldlM (fun level measurement =>
    if measurement.isOf series workflow then measurement.change.on level else some level) level

variable (series : Series) (workflow : String) (level : Nat)

@[simp] theorem levelFrom?_nil : levelFrom? series workflow level [] = some level := rfl

theorem levelFrom?_cons (measurement : Measurement) (rest : List Measurement) :
    levelFrom? series workflow level (measurement :: rest) =
      (if measurement.isOf series workflow then measurement.change.on level else some level).bind
        fun level => levelFrom? series workflow level rest := rfl

theorem levelFrom?_append (first second : List Measurement) :
    levelFrom? series workflow level (first ++ second) =
      (levelFrom? series workflow level first).bind fun level =>
        levelFrom? series workflow level second :=
  List.foldlM_append ..

/-! ## What counts -/

@[simp] theorem isOf_iff {series : Series} {workflow : String} {measurement : Measurement} :
    measurement.isOf series workflow ↔
      measurement.series = series ∧ measurement.workflow = workflow := by
  cases measurement <;> simp [isOf, labels, Measurement.workflow, @eq_comm _ workflow]

/-- Measurements of other series or under other names leave the level as it is. -/
theorem levelFrom?_filter (measured : List Measurement) :
    levelFrom? series workflow level (measured.filter (·.isOf series workflow)) =
      levelFrom? series workflow level measured := by
  induction measured generalizing level with
  | nil => rfl
  | cons measurement rest ih =>
    cases hof : measurement.isOf series workflow with
    | true => simp only [List.filter_cons_of_pos hof, levelFrom?_cons, ih]
    | false =>
      rw [List.filter_cons_of_neg (by simp [hof]), ih, levelFrom?_cons, hof]
      rfl

/-! ## One measurement

A rise, a fall and a measurement that does not count are stated once each. Of which series
a measurement is and what it does there, `simp` tells from its kind.
-/

attribute [simp] Measurement.series Measurement.workflow change

variable {series workflow level} {measurement : Measurement} (rest : List Measurement)

@[simp] theorem levelFrom?_rise
    (h : measurement.isOf series workflow ∧ measurement.change = .rise) :
    levelFrom? series workflow level (measurement :: rest) =
      levelFrom? series workflow (level + 1) rest := by
  rw [levelFrom?_cons, if_pos h.1, h.2]
  rfl

@[simp] theorem levelFrom?_fall
    (h : measurement.isOf series workflow ∧ measurement.change = .fall) (hlevel : 0 < level) :
    levelFrom? series workflow level (measurement :: rest) =
      levelFrom? series workflow (level - 1) rest := by
  rw [levelFrom?_cons, if_pos h.1, h.2, Change.on, if_pos hlevel, Option.bind_some]

@[simp] theorem levelFrom?_other (h : ¬ measurement.isOf series workflow) :
    levelFrom? series workflow level (measurement :: rest) =
      levelFrom? series workflow level rest := by
  rw [levelFrom?_cons, if_neg h, Option.bind_some]

end Measurement

end Coordination
