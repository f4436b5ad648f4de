import Coordination.Proofs.Run.History

/-!
# Forgetting traces

A run looks at its tasks only through what they do. So a run of tasks seen
through a function is the run seen through it (`Run.poll_map`), and a run of
traced tasks is the run of the tasks with a note of what happened.

* `Run.give_traced`: a stretch of traced tasks, without the traces;
* `Run.History.exists_traced`: every history is one of traced tasks.
-/

namespace Coordination

variable {σ τ : Type}

/-- An advance seen through a function of the process. -/
def Advance.map (f : σ → τ) (advance : Advance σ) : Advance τ :=
  { advance with process := f advance.process }

/-- What a task does, seen through a function of the process. -/
def Poll.map (f : σ → τ) (poll : Poll σ) : Poll τ := fun turn context world =>
  (poll turn context world).map f

/-! ## Members -/

namespace Member

/-- A member seen through a function of its process. -/
def map (f : σ → τ) (member : Member σ) : Member τ :=
  { member with process := f member.process }

@[simp] theorem definition_map (f : σ → τ) (member : Member σ) :
    (member.map f).definition = member.definition := rfl

@[simp] theorem phase_map (f : σ → τ) (member : Member σ) :
    (member.map f).phase = member.phase := rfl

section Map

variable (f : σ → τ) (poll : Poll σ) (scope : Scope) (index : Nat) (floor : Floor)
  (member : Member σ)

theorem succeed_map (draft : Option Draft) (events : List Event) :
    succeed scope floor (member.map f) draft events =
      (succeed scope floor member draft events).map id (map f) := by
  unfold succeed
  split
  · rfl
  · simp only
    split <;> rfl

theorem proceed_map (access : Access) (events : List Event) :
    proceed scope index (poll.map f) floor (member.map f) access events =
      (proceed scope index poll floor member access events).map id (map f) := by
  cases access with
  | own draft context =>
    simp only [proceed, Poll.map]
    generalize poll (scope.turn.below index) context floor.world = advance
    obtain ⟨process, yielded, state, outcome, world⟩ := advance
    cases outcome with
    | ended => exact succeed_map f scope _ { member with process } _ _
    | _ => rfl
  | shared instruction =>
    simp only [proceed, Poll.map]
    generalize poll (scope.turn.below index) _ floor.world = advance
    obtain ⟨process, yielded, state, outcome, world⟩ := advance
    cases outcome with
    | ended => rfl
    | _ => rfl

theorem start_map : start scope index (poll.map f) floor (member.map f) =
    (start scope index poll floor member).map id (map f) := by
  unfold start
  split
  · simp only [map]
    split
    · rfl
    · split
      · rfl
      · exact proceed_map f poll scope index _ member _ _
  · simp only [map]
    split
    · rfl
    · exact proceed_map f poll scope index _ member _ _

theorem freeSlot_map (after : Floor × Member σ) :
    freeSlot scope index (after.map id (map f)) = (freeSlot scope index after).map id (map f) := by
  obtain ⟨floor, definition, phase, process⟩ := after
  cases phase <;> rfl

theorem visit_map : visit scope index (poll.map f) floor (member.map f) =
    (visit scope index poll floor member).map id (map f) := by
  unfold visit
  simp only [map]
  split
  · split
    · rw [← freeSlot_map, ← start_map]; rfl
    · rfl
  · split
    · split
      · rw [← freeSlot_map, ← start_map]; rfl
      · rfl
    · rfl
  · rw [← freeSlot_map, ← proceed_map]; rfl
  · rfl

theorem visitInLine_map : visitInLine scope index (poll.map f) floor (member.map f) =
    (visitInLine scope index poll floor member).map id (map f) := by
  unfold visitInLine
  simp only [map]
  split
  · rw [← proceed_map]; rfl
  · rfl
  · rw [← start_map]; rfl

end Map

/-- The members of a run and what they do, seen through a function. -/
def mapPair (f : σ → τ) (pair : Member σ × Poll σ) : Member τ × Poll τ :=
  (pair.1.map f, pair.2.map f)

variable (f : σ → τ) (scope : Scope)

theorem sweep_map (index : Nat) (floor : Floor) (pairs : List (Member σ × Poll σ)) :
    sweep scope index floor (pairs.map (mapPair f)) =
      (sweep scope index floor pairs).map id (List.map (map f)) := by
  induction pairs generalizing index floor with
  | nil => rfl
  | cons pair rest ih =>
    simp only [List.map_cons, sweep, mapPair, visit_map, Prod.map_fst, Prod.map_snd, id, ih]
    rfl

theorem walk_map (index : Nat) (floor : Floor) (pairs : List (Member σ × Poll σ)) :
    walk scope index floor (pairs.map (mapPair f)) =
      (walk scope index floor pairs).map id (List.map (map f)) := by
  induction pairs generalizing index floor with
  | nil => rfl
  | cons pair rest ih =>
    simp only [List.map_cons, walk, mapPair, visitInLine_map, Prod.map_fst, Prod.map_snd, id, ih,
      phase_map]
    split
    · rfl
    · simp [mapPair, Function.comp_def]

end Member

/-! ## Runs -/

namespace Run

/-- A run seen through a function of its processes. -/
def map (f : σ → τ) (run : Run σ) : Run τ := { run with members := run.members.map (·.map f) }

/-- What comes of a stretch, seen through a function of the processes. -/
def Step.map (f : σ → τ) (step : Step σ) : Step τ := { step with run := step.run.map f }

variable (f : σ → τ)

@[simp] theorem settlements_map (members : List (Member σ)) :
    settlements (members.map (·.map f)) = settlements members := by
  simp [settlements, List.filterMap_map, Function.comp_def]

@[simp] theorem succeeded_map (members : List (Member σ)) :
    succeeded (members.map (·.map f)) = succeeded members := by
  rw [succeeded, settlements_map, succeeded]

@[simp] theorem failed_map (members : List (Member σ)) :
    failed (members.map (·.map f)) = failed members := by
  rw [failed, settlements_map, succeeded_map, failed]

@[simp] theorem events_map (members : List (Member σ)) :
    events (members.map (·.map f)) = events members := by
  rw [events, settlements_map, events]

@[simp] theorem firstFailure?_map (members : List (Member σ)) :
    firstFailure? (members.map (·.map f)) = firstFailure? members := by
  simp [firstFailure?, List.zipIdx_map, List.findSome?_map, Function.comp_def]

theorem conclude_map (order : Order) (id : String) (floor : Floor) (members : List (Member σ)) :
    conclude order id floor (members.map (·.map f)) = conclude order id floor members := by
  simp [conclude, concludeParallel, concludeStopped, concludeCompleted, Function.comp_def]

theorem zip_map (members : List (Member σ)) (polls : List (Poll σ)) :
    (members.map (·.map f)).zip (polls.map (·.map f)) =
      (members.zip polls).map (Member.mapPair f) := by
  rw [List.zip_map]
  rfl

theorem visitAll_map (run : Run σ) (polls : List (Poll σ)) (turn : Turn) (context : Context)
    (floor : Floor) : visitAll (run.map f) (polls.map (·.map f)) turn context floor =
      (visitAll run polls turn context floor).map f := by
  simp only [visitAll, map, zip_map, Member.sweep_map, Member.walk_map]
  cases run.plan.order with
  | parallel workers =>
    simp only [Prod.map_fst, Prod.map_snd, conclude_map, id]
    split <;> rfl
  | sequential =>
    simp only [Prod.map_fst, Prod.map_snd, conclude_map, id]
    split <;> rfl

theorem isKeyed_map (run : Run σ) : (run.map f).isKeyed = run.isKeyed := by
  simp [isKeyed, map, Function.comp_def]

theorem open_map (run : Run σ) (context : Context) (world : World) :
    (run.map f).open context world = run.open context world := by
  have hlobby : (run.map f).lobby context world = run.lobby context world := by
    simp only [lobby, openNotice, isKeyed_map]
    simp [map]
  have hgate : ∀ floor, (run.map f).putUpGate context floor = run.putUpGate context floor := by
    intro floor
    simp [putUpGate, map, List.zipIdx_map, List.foldl_map]
  simp only [«open», hlobby, hgate]
  rfl

/-- A run looks at its tasks only through what they do. -/
theorem poll_map (run : Run σ) (polls : List (Poll σ)) (turn : Turn) (context : Context)
    (world : World) : (run.map f).poll (polls.map (·.map f)) turn context world =
      (run.poll polls turn context world).map f := by
  rw [poll, poll, open_map, isKeyed_map]
  simp only [visitAll_map]
  simp only [map]
  split
  · split <;> rfl
  · rfl
  · rfl

theorem abandon_map (run : Run σ) (abandons : List Abandon) (world : World) :
    (run.map f).abandon abandons world = run.abandon abandons world := by
  simp only [abandon, map, List.zip_map_left, List.foldl_map]
  rfl

/-- What cancelling a run does depends on where its members stand alone. -/
theorem cancel_map (run : Run σ) (abandons : List Abandon) (deadline : Nat) (context : Context)
    (world : World) : (run.map f).cancel abandons deadline context world =
      run.cancel abandons deadline context world := by
  simp only [cancel, abandon_map, isKeyed_map]
  simp only [map, succeeded_map, failed_map, events_map, settlements_map, List.length_map]

/-! ## Histories -/

/-- A stretch of traced tasks, without the traces. -/
theorem give_traced (behave : σ → Poll σ) (run : Run (Traced σ)) (turn : Turn) (context : Context)
    (world : World) : (run.map (·.task)).give behave turn context world =
      (run.give (Traced.poll behave) turn context world).map (·.task) := by
  rw [give, give, ← poll_map]
  congr 1
  simp only [map, List.map_map]
  rfl

theorem map_ofWorkflow_traced (workflow : Workflow σ) :
    (ofWorkflow workflow.traced).map (·.task) = ofWorkflow workflow := by
  simp only [ofWorkflow, Workflow.traced, map, List.map_map]
  rfl

end Run

/-- A stretch seen through a function of the processes. -/
def Stretch.map (f : σ → τ) (stretch : Stretch σ) : Stretch τ :=
  { stretch with step := stretch.step.map f }

namespace Run

/-- Every history is one of traced tasks, without the traces. -/
theorem History.exists_traced {behave : σ → Poll σ} {workflow : Workflow σ} {context : Context}
    {history : List (Stretch σ)} (h : History behave context (ofWorkflow workflow) history) :
    ∃ traced, History (Traced.poll behave) context (ofWorkflow workflow.traced) traced ∧
      traced.map (·.map (·.task)) = history := by
  induction h with
  | first turn state world =>
    have hgive := give_traced behave (ofWorkflow workflow.traced) turn (context.withState state)
      world
    rw [map_ofWorkflow_traced] at hgive
    refine ⟨_, .first turn state world, ?_⟩
    rw [hgive]
    rfl
  | @next last past _ hopen turn state world ih =>
    obtain ⟨traced, htraced, hmap⟩ := ih
    obtain ⟨tlast, tpast, rfl, rfl, rfl⟩ := List.map_eq_cons_iff.1 hmap
    refine ⟨_, .next htraced hopen turn state world, ?_⟩
    rw [List.map_cons]
    congr 1
    simp only [Stretch.map, Step.map, give_traced]

/-- So its latest stretch is, and what was before it. -/
theorem History.exists_traced_cons {behave : σ → Poll σ} {workflow : Workflow σ}
    {context : Context} {last : Stretch σ} {past : List (Stretch σ)}
    (h : History behave context (ofWorkflow workflow) (last :: past)) :
    ∃ tlast tpast,
      History (Traced.poll behave) context (ofWorkflow workflow.traced) (tlast :: tpast) ∧
      tlast.map (·.task) = last ∧ tpast.map (·.map (·.task)) = past := by
  obtain ⟨traced, htraced, hmap⟩ := h.exists_traced
  obtain ⟨tlast, tpast, rfl, hlast, hpast⟩ := List.map_eq_cons_iff.1 hmap
  exact ⟨tlast, tpast, htraced, hlast, hpast⟩

end Run

end Coordination
