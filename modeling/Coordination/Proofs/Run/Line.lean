import Coordination.Proofs.Run.InTurn

/-!
# The line before the gate of a run

The members of a parallel run are visited in their order, so those who find no
slot stand in line in their order too (`Run.Queued`). With one slot, whoever gets
it is the first of those who have not settled: the members work in turn
(`Run.History.front_oneWorker`), and while the run is not over the slot is with
one of them (`Run.History.busy`).

* `Member.visit_queues`: what a visit does in the line;
* `Run.Queued.visited`: the line stays in order;
* `Run.History.regulated`: so it is in every parallel run, whatever its tasks do;
* `Run.Queued.settled_front`: who starts at a gate with one slot is next.
-/

namespace Coordination

variable {σ : Type}

theorem Phase.ne_of_hasStarted {phase : Phase} (h : phase.hasStarted = true) :
    phase ≠ .idle ∧ phase ≠ .waiting := by
  constructor <;> rintro rfl <;> cases h

namespace Member

/-- What a visit to the member of a place does in the line. -/
inductive Queues (index : Nat) (floor : Floor) (member : Member σ) (after : Floor × Member σ) : Prop
  /-- It finds no slot and goes to the end of the line. -/
  | joins (hphase : member.phase = .idle) (hwaits : after.2.phase = .waiting)
      (hline : after.1.gate.line = floor.gate.line ++ [index])
  /-- It finds a slot and starts. -/
  | enters (hphase : member.phase = .idle) (hfree : 0 < floor.gate.free)
      (hstarted : after.2.phase.hasStarted) (hline : after.1.gate.line = floor.gate.line)
  /-- It was handed a slot, leaves the line and starts. -/
  | comes (hphase : member.phase = .waiting) (hhanded : index ∈ floor.gate.handed)
      (hstarted : after.2.phase.hasStarted)
      (hline : after.1.gate.line = floor.gate.line.erase index)
  /-- It waits on. -/
  | waits (hphase : member.phase = .waiting) (hafter : after = (floor, member))
  /-- It has started before. -/
  | goesOn (hbegun : member.phase.hasStarted) (hstarted : after.2.phase.hasStarted)
      (hline : after.1.gate.line = floor.gate.line)

/-- Whoever is visited has come. -/
theorem Queues.come {index : Nat} {floor : Floor} {member : Member σ} {after : Floor × Member σ}
    (h : Queues index floor member after) : after.2.phase ≠ .idle := by
  cases h with
  | joins _ hwaits => simp [hwaits]
  | enters _ _ hstarted | comes _ _ hstarted | goesOn _ hstarted =>
    exact (Phase.ne_of_hasStarted hstarted).1
  | waits hphase hafter => simp [hafter, hphase]

section Queues

variable (scope : Scope) (index : Nat) (poll : Poll σ) (floor : Floor) (member : Member σ)

theorem line_freeSlot (after : Floor × Member σ) :
    (freeSlot scope index after).1.gate.line = after.1.gate.line := by
  unfold freeSlot
  split
  · exact Gate.line_release after.1.gate index
  · rfl

theorem visit_queues : Queues index floor member (visit scope index poll floor member) := by
  -- Nothing but the gate itself moves anyone in line.
  have hstart : ∀ entered : Floor,
      let after := freeSlot scope index (start scope index poll entered member)
      after.2.phase.hasStarted ∧ after.1.gate.line = entered.gate.line := by
    intro entered
    obtain ⟨hgate, hstarted⟩ := start_started scope index poll entered member
    exact ⟨(snd_freeSlot ..).symm ▸ hstarted, (line_freeSlot ..).trans (congrArg Gate.line hgate)⟩
  unfold visit
  cases hphase : member.phase with
  | idle =>
    simp only
    have hline := floor.gate.line_enter index
    by_cases hfree : 0 < floor.gate.free
    · rw [Gate.enter_of_free hfree, if_pos hfree] at hline
      rw [Gate.enter_of_free hfree]
      exact .enters hphase hfree (hstart _).1 ((hstart _).2.trans hline)
    · rw [Gate.enter_of_busy hfree, if_neg hfree] at hline
      rw [Gate.enter_of_busy hfree]
      exact .joins hphase rfl hline
  | waiting =>
    simp only
    by_cases hadmits : scope.turn.admits [index]
    · rw [if_pos hadmits]
      by_cases hhanded : index ∈ floor.gate.handed
      · have hline := Gate.line_claim hhanded
        rw [Gate.claim, if_pos hhanded] at hline ⊢
        exact .comes hphase hhanded (hstart _).1 ((hstart _).2.trans hline)
      · rw [Gate.claim, if_neg hhanded]
        exact .waits hphase rfl
    · rw [if_neg hadmits]
      exact .waits hphase rfl
  | running access events =>
    obtain ⟨hgate, hstarted⟩ := proceed_started scope index poll floor member access events
    refine .goesOn (by rw [hphase]; rfl) ?_ ((line_freeSlot ..).trans (congrArg Gate.line hgate))
    rw [snd_freeSlot]
    exact hstarted
  | settled settlement => exact .goesOn (by rw [hphase]; rfl) (by rw [hphase]; rfl) rfl

end Queues

end Member

theorem Visit.Of.queues {behave : σ → Poll σ} {plan : Plan} {context : Context}
    {stretch : Stretch σ} {visit : Visit σ} (h : visit.Of behave plan context stretch)
    {workers : Nat} (horder : plan.order = .parallel workers) :
    Member.Queues visit.index visit.floor visit.member visit.after := by
  rw [h.after, h.scope, Member.visitBy, horder]
  exact Member.visit_queues ..

namespace Run

/-- Those who wait stand in line in the order of the members, and those who have
not come are behind all who have. -/
structure Queued (gate : Gate Nat) (members : List (Member σ)) : Prop where
  ascending : gate.line.Pairwise (· < ·)
  mem_line : ∀ index : Nat, index ∈ gate.line ↔
    ∃ member, members[index]? = some member ∧ member.phase = .waiting
  idle : members.Pairwise fun a b => a.phase = .idle → b.phase = .idle

theorem queued_ofWorkflow {τ : Type} (capacity : Nat) (workflow : Workflow τ) :
    Queued (.ofCapacity capacity) (ofWorkflow workflow).members where
  ascending := List.Pairwise.nil
  mem_line := by
    intro index
    refine ⟨fun h => absurd h List.not_mem_nil, ?_⟩
    rintro ⟨member, hget, hphase⟩
    simp only [ofWorkflow, List.getElem?_map, Option.map_eq_some_iff] at hget
    obtain ⟨_, -, rfl⟩ := hget
    cases hphase
  idle := by
    rw [ofWorkflow, List.pairwise_map]
    exact List.pairwise_of_forall fun _ _ _ => rfl

namespace Queued

section Visit

variable {visit : Visit σ} (h : Queued visit.floor.gate visit.members)
include h

theorem nodup : visit.floor.gate.line.Nodup :=
  h.ascending.imp fun hlt => Nat.ne_of_lt hlt

/-- Nobody behind a member that has not come stands in line. -/
theorem lt_of_mem_line (hphase : visit.member.phase = .idle) :
    ∀ place ∈ visit.floor.gate.line, place < visit.index := by
  intro place hmem
  obtain ⟨other, hget, hwaits⟩ := (h.mem_line place).1 hmem
  obtain ⟨hlt, rfl⟩ := List.getElem?_eq_some_iff.1 hget
  obtain ⟨hlt', hvisited⟩ := List.getElem?_eq_some_iff.1 visit.getElem?_members
  rcases Nat.lt_trichotomy place visit.index with hbefore | rfl | hbehind
  · exact hbefore
  · rw [hvisited, hphase] at hwaits
    cases hwaits
  · have hidle := List.pairwise_iff_getElem.1 h.idle _ _ hlt' hlt hbehind (hvisited ▸ hphase)
    rw [hwaits] at hidle
    cases hidle

theorem mem_line_left (hqueues : Member.Queues visit.index visit.floor visit.member visit.after)
    (place : Nat) : place ∈ visit.after.1.gate.line ↔
      ∃ member, visit.left[place]? = some member ∧ member.phase = .waiting := by
  have hlt := (List.getElem?_eq_some_iff.1 visit.getElem?_members).1
  have hown : visit.index ∈ visit.floor.gate.line ↔ visit.member.phase = .waiting := by
    rw [h.mem_line, visit.getElem?_members]
    simp
  rw [visit.left_eq_set, List.getElem?_set]
  by_cases hplace : visit.index = place
  · subst hplace
    simp only [if_true, hlt, Option.some.injEq, exists_eq_left']
    cases hqueues with
    | joins hphase hwaits hline => simp [hline, hwaits]
    | enters hphase _ hstarted hline =>
      rw [hline, hown, hphase]
      simp [(Phase.ne_of_hasStarted hstarted).2]
    | comes _ _ hstarted hline =>
      rw [hline]
      simp [h.nodup.not_mem_erase, (Phase.ne_of_hasStarted hstarted).2]
    | waits hphase hafter => rw [hafter, hown]
    | goesOn hbegun hstarted hline =>
      rw [hline, hown]
      simp [(Phase.ne_of_hasStarted hbegun).2, (Phase.ne_of_hasStarted hstarted).2]
  · rw [if_neg hplace, ← h.mem_line]
    cases hqueues with
    | joins _ _ hline => simp [hline, Ne.symm hplace]
    | enters _ _ _ hline => rw [hline]
    | comes _ _ _ hline => rw [hline, List.mem_erase_of_ne (Ne.symm hplace)]
    | waits _ hafter => rw [hafter]
    | goesOn _ _ hline => rw [hline]

/-- A visit keeps the line in order, if all before its member have come. -/
theorem visited (hqueues : Member.Queues visit.index visit.floor visit.member visit.after)
    (hfront : ∀ member ∈ visit.front, member.phase ≠ .idle) :
    Queued visit.after.1.gate visit.left where
  ascending := by
    cases hqueues with
    | joins hphase _ hline =>
      rw [hline, List.pairwise_append]
      refine ⟨h.ascending, List.pairwise_singleton _ _, fun place hmem other hother => ?_⟩
      rw [List.mem_singleton.1 hother]
      exact h.lt_of_mem_line hphase place hmem
    | enters _ _ _ hline | goesOn _ _ hline =>
      rw [hline]
      exact h.ascending
    | comes _ _ _ hline =>
      rw [hline]
      exact h.ascending.sublist List.erase_sublist
    | waits _ hafter =>
      rw [hafter]
      exact h.ascending
  mem_line := h.mem_line_left hqueues
  idle := by
    obtain ⟨hbefore, hbehind, -⟩ := List.pairwise_append.1 h.idle
    refine List.pairwise_append.2 ⟨hbefore,
      List.pairwise_cons.2 ⟨?_, (List.pairwise_cons.1 hbehind).2⟩,
      fun member hmem _ _ hidle => absurd hidle (hfront member hmem)⟩
    exact fun _ _ hidle => absurd hidle hqueues.come

/-- Whoever alone has a slot handed to it is the first in line. -/
theorem le_of_handed (hone : visit.floor.gate.handed.length ≤ 1) {index place : Nat}
    (hhanded : index ∈ visit.floor.gate.handed) (hline : place ∈ visit.floor.gate.line) :
    index ≤ place := by
  obtain ⟨other, hother⟩ : ∃ other, visit.floor.gate.handed = [other] :=
    List.length_eq_one_iff.1 (by have := List.length_pos_of_mem hhanded; omega)
  have hascending := h.ascending
  rw [Gate.line, hother] at hline hascending
  rw [hother, List.mem_singleton] at hhanded
  rcases List.mem_cons.1 hline with rfl | hqueue
  · exact hhanded.le
  · exact hhanded.le.trans (Nat.le_of_lt ((List.pairwise_cons.1 hascending).1 place hqueue))

/-- At a gate with one slot, all before a member that starts have settled. -/
theorem settled_front (hqueues : Member.Queues visit.index visit.floor visit.member visit.after)
    (hfront : ∀ member ∈ visit.front, member.phase ≠ .idle)
    (hseats : visit.floor.gate.Seats 1 (visit.members.map (·.phase.isRunning)))
    (hstarts : visit.starts) : ∀ member ∈ visit.front, member.phase.settlement?.isSome := by
  intro member hmem
  obtain ⟨place, hplace⟩ := List.mem_iff_getElem?.1 hmem
  have hlt := (List.getElem?_eq_some_iff.1 hplace).1
  have hget : visit.members[place]? = some member := by
    rw [Visit.members, List.getElem?_append_left hlt, hplace]
  have hslots := hseats.balanced.slots
  rw [hseats.capacity, Gate.slots] at hslots
  rw [Visit.starts, Bool.and_eq_true, Bool.not_eq_true'] at hstarts
  -- The one slot is free, or with the member that starts.
  have hslot : 0 < visit.floor.gate.free ∨ visit.index ∈ visit.floor.gate.handed := by
    cases hqueues with
    | joins _ hwaits => simp [hwaits, Phase.hasStarted] at hstarts
    | enters _ hfree => exact .inl hfree
    | comes _ hhanded => exact .inr hhanded
    | waits hphase hafter => simp [hafter, hphase, Phase.hasStarted] at hstarts
    | goesOn hbegun => simp [hbegun] at hstarts
  have htaken : visit.floor.gate.free + visit.floor.gate.handed.length = 1 := by
    rcases hslot with hfree | hhanded
    · omega
    · have := List.length_pos_of_mem hhanded
      omega
  cases hphase : member.phase with
  | idle => exact absurd hphase (hfront member hmem)
  | running access events =>
    have hholds := List.length_pos_of_mem
      (hseats.holds place (by simp [hget, hphase, Phase.isRunning]))
    omega
  | waiting =>
    have hline : place ∈ visit.floor.gate.line := (h.mem_line place).2 ⟨member, hget, hphase⟩
    rcases hslot with hfree | hhanded
    · rw [← hseats.balanced.handed_eq_line hfree] at hline
      have := List.length_pos_of_mem hline
      omega
    · have hbehind := h.le_of_handed (by omega) hhanded hline
      rw [Visit.index] at hbehind
      omega
  | settled settlement => rfl

end Visit

/-- While some members have come and not settled, one of them is under way, or
waits with a slot handed to it. -/
theorem exists_busy {gate : Gate Nat} {members : List (Member σ)} (h : Queued gate members)
    {workers : Nat} (hseats : gate.Seats workers (members.map (·.phase.isRunning)))
    (hworkers : 1 ≤ workers) (hcome : ∀ member ∈ members, member.phase ≠ .idle)
    (hover : ¬ ∀ member ∈ members, member.phase.settlement?.isSome) :
    ∃ (index : Nat) (member : Member σ), members[index]? = some member ∧
      (member.phase.isRunning ∨ member.phase = .waiting ∧ index ∈ gate.handed) := by
  have hslots := hseats.balanced.slots
  rw [hseats.capacity, Gate.slots] at hslots
  by_cases hrunning : ∃ member ∈ members, member.phase.isRunning = true
  · obtain ⟨member, hmem, hphase⟩ := hrunning
    obtain ⟨index, hget⟩ := List.mem_iff_getElem?.1 hmem
    exact ⟨index, member, hget, .inl hphase⟩
  · have hnone : gate.holders.length = 0 := by
      rw [hseats.count, List.count_eq_zero, List.mem_map]
      exact hrunning
    have hhanded : gate.handed ≠ [] := by
      intro hempty
      have hfree : 0 < gate.free := by
        rw [hempty] at hslots
        simp only [List.length_nil] at hslots
        omega
      -- A free slot would not be left while somebody waits.
      have hline := hseats.balanced.handed_eq_line hfree
      refine hover fun member hmem => ?_
      obtain ⟨index, hget⟩ := List.mem_iff_getElem?.1 hmem
      cases hphase : member.phase with
      | idle => exact absurd hphase (hcome member hmem)
      | waiting =>
        have hwaits := (h.mem_line index).2 ⟨member, hget, hphase⟩
        rw [← hline, hempty] at hwaits
        cases hwaits
      | running => exact absurd ⟨member, hmem, by rw [hphase]; rfl⟩ hrunning
      | settled => rfl
    obtain ⟨index, hindex⟩ := List.exists_mem_of_ne_nil _ hhanded
    obtain ⟨member, hget, hphase⟩ := (h.mem_line index).1 (List.mem_append_left _ hindex)
    exact ⟨index, member, hget, .inr ⟨hphase, hindex⟩⟩

end Queued

/-! ## Histories -/

theorem one_le_of_checkWorkers {workers : Nat} (h : checkWorkers workers = .ok ()) :
    1 ≤ workers := by
  unfold checkWorkers at h
  split at h
  next hrange => exact hrange.1
  next => cases h

/-- A parallel run that lets in members of its workflow at a gate with so many slots:
those are always with the members that are under way, and the line before the gate is
in order. -/
structure Regulated (workflow : Workflow σ) (workers : Nat) (floor : Floor)
    (members : List (Member σ)) : Prop where
  keyed : floor.keyed = workflow.isKeyed
  definitions : members.map (·.definition) = workflow.members.map (·.1)
  positive : 1 ≤ workers
  seats : floor.gate.Seats workers (members.map (·.phase.isRunning))
  queued : Queued floor.gate members

section Histories

variable {behave : σ → Poll σ} {workflow : Workflow σ} {workers : Nat} {context : Context}
  {history : List (Stretch σ)}

theorem any_isSome_of_definitions {τ : Type} {members : List (Member τ)}
    (h : members.map (·.definition) = workflow.members.map (·.1)) :
    (members.any fun member => member.definition.outputKey.isSome) = workflow.isKeyed := by
  have hany := congrArg (List.any · fun definition => definition.outputKey.isSome) h
  rw [List.any_map, List.any_map] at hany
  exact hany

theorem definitions_ofWorkflow (workflow : Workflow σ) :
    (ofWorkflow workflow).members.map (·.definition) = workflow.members.map (·.1) := by
  rw [ofWorkflow, List.map_map]
  rfl

theorem regulated_open {world : World} {floor : Floor}
    (h : (ofWorkflow workflow).open context world = .ok floor)
    (horder : workflow.plan.order = .parallel workers) :
    Regulated workflow workers floor (ofWorkflow workflow).members := by
  obtain ⟨recorded, hrecorded, hopened⟩ := open_eq_ok h
  obtain ⟨hkept, -, hgate⟩ := putUpGate_eq_ok hopened
  have hkeyed : (ofWorkflow workflow).isKeyed = workflow.isKeyed :=
    any_isSome_of_definitions (definitions_ofWorkflow workflow)
  refine ⟨?_, definitions_ofWorkflow workflow, ?_, seats_open h horder, ?_⟩
  · exact hkept.keyed.trans ((createRecord_abides hrecorded).keyed.trans hkeyed)
  · have hparallel : (ofWorkflow workflow).plan.order = .parallel workers := horder
    cases hcheck : checkWorkers workers with
    | error error => simp [putUpGate, hparallel, Gate.new, hcheck, bind, Except.bind] at hopened
    | ok => exact one_le_of_checkWorkers hcheck
  · rw [hgate workers horder]
    exact queued_ofWorkflow workers workflow

/-- A visit keeps a run regulated, if all before its member have come. -/
theorem Regulated.visited {visit : Visit σ} {stretch : Stretch σ}
    (h : Regulated workflow workers visit.floor visit.members)
    (hof : visit.Of behave workflow.plan context stretch)
    (horder : workflow.plan.order = .parallel workers)
    (hfront : ∀ member ∈ visit.front, member.phase ≠ .idle) :
    Regulated workflow workers visit.after.1 visit.left where
  keyed := by
    have habides : Floor.Abides False visit.floor visit.after.1 :=
      hof.visited.abides visit.floor fun hfalse => hfalse.elim
    exact habides.keyed.trans h.keyed
  definitions := by
    rw [visit.left_eq_set, map_definition_set visit.getElem?_members hof.visited.polled.1]
    exact h.definitions
  positive := h.positive
  seats := (seats_visited horder hof h.seats).1
  queued := h.queued.visited (hof.queues horder) hfront

/-- Whoever is visited in a parallel run has come, and so have all before it. -/
theorem History.come (h : History behave context (ofWorkflow workflow) history)
    (horder : workflow.plan.order = .parallel workers) :
    (∀ visit ∈ log behave context (ofWorkflow workflow) history, visit.after.2.phase ≠ .idle) ∧
    ∀ visit ∈ log behave context (ofWorkflow workflow) history,
      ∀ member ∈ visit.front, member.phase ≠ .idle := by
  have hcome : ∀ visit ∈ log behave context (ofWorkflow workflow) history,
      visit.after.2.phase ≠ .idle := by
    intro visit hmem
    obtain ⟨stretch, -, hof⟩ := h.of_mem_log hmem
    exact (hof.queues horder).come
  exact ⟨hcome, h.front_of_mem_log fun visit hmem _ => hcome visit hmem⟩

/-- A parallel run is always regulated, whatever its tasks do, and whatever happens
between its stretches. -/
theorem History.regulated (h : History behave context (ofWorkflow workflow) history)
    (horder : workflow.plan.order = .parallel workers) :
    (∀ visit ∈ log behave context (ofWorkflow workflow) history,
      Regulated workflow workers visit.floor visit.members) ∧
      ∀ stretch ∈ history,
        Comes (Regulated workflow workers) (ofWorkflow workflow) context stretch := by
  have hcome := (h.come horder).2
  refine h.log_induction (P := fun _ floor members => Regulated workflow workers floor members)
    (R := fun _ _ => True) rfl ?_ ?_ ?_ ?_ ?_
  · exact fun _ floor members hP => hP.keyed.trans (any_isSome_of_definitions hP.definitions).symm
  · exact fun state world floor hopen => regulated_open hopen horder
  · intro visit hmem hP
    obtain ⟨stretch, -, hof⟩ := h.of_mem_log hmem
    exact hP.visited hof horder (hcome visit hmem)
  · exact (List.pairwise_of_forall fun _ _ => trivial).isChain
  · exact fun _ floor members state world hP _ =>
      ⟨hP.keyed, hP.definitions, hP.positive, hP.seats, hP.queued⟩

/-- With one slot, all before a member that starts have settled. -/
theorem History.front_oneWorker (h : History behave context (ofWorkflow workflow) history)
    (horder : workflow.plan.order = .parallel 1) :
    ∀ visit ∈ log behave context (ofWorkflow workflow) history,
      visit.starts → ∀ member ∈ visit.front, member.phase.settlement?.isSome := by
  intro visit hmem hstarts
  have hregulated := (h.regulated horder).1 visit hmem
  obtain ⟨stretch, -, hof⟩ := h.of_mem_log hmem
  exact hregulated.queued.settled_front (hof.queues horder) ((h.come horder).2 visit hmem)
    hregulated.seats hstarts

/-- A parallel run that is not over after a stretch is not stuck: some member is
under way, or waits with a slot handed to it. -/
theorem History.busy (h : History behave context (ofWorkflow workflow) history)
    (horder : workflow.plan.order = .parallel workers) {stretch : Stretch σ}
    (hmem : stretch ∈ history) (hresult : stretch.step.result = none) :
    ∃ floor, Regulated workflow workers floor stretch.step.run.members ∧
      stretch.step.run.stage = .open floor.gate floor.own ∧
      ∃ (index : Nat) (member : Member σ), stretch.step.run.members[index]? = some member ∧
        (member.phase.isRunning ∨ member.phase = .waiting ∧ index ∈ floor.gate.handed) := by
  have hcome : ∀ member ∈ stretch.step.run.members, member.phase ≠ .idle :=
    h.forall_members horder rfl (fun visit hvisit => (h.come horder).1 visit hvisit) stretch hmem
      hresult
  rcases (h.regulated horder).2 stretch hmem with ⟨error, _, -, hstep⟩ |
    ⟨⟨floor, members, hregulated, hconclude, hstep⟩ | ⟨_, _, _, _, -, -, hstep⟩⟩
  · simp [hstep] at hresult
  · rw [hstep] at hcome ⊢
    have hover : ¬ ∀ member ∈ members, member.phase.settlement?.isSome := by
      rw [show (ofWorkflow workflow).plan.order = .parallel workers from horder,
        conclude] at hconclude
      simpa using hconclude
    exact ⟨floor, hregulated, rfl,
      hregulated.queued.exists_busy hregulated.seats hregulated.positive hcome hover⟩
  · simp [hstep] at hresult

end Histories

end Run

end Coordination
