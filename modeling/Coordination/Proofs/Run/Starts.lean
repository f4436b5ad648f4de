import Coordination.Proofs.Run.Slots

/-!
# Members start once, and start when asked

What lasts of a member once it is so (`Run.Lasting`), such as that it has started,
is brought about by one visit at most, and by just one if it is so in the end
(`Run.History.countP_bringsAt`). Whoever has a slot handed to it keeps it until it
is asked again, and then it starts (`Run.Calls.give`).
-/

namespace Coordination

variable {σ : Type}

/-! ## Starts -/

/-- Whether `p` holds of the phase of the member at a place. -/
def Run.reached (p : Phase → Bool) (members : List (Member σ)) (index : Nat) : Bool :=
  (members[index]?).any (p ·.phase)

namespace Visit

/-- Whether a visit brings the member of a place to where `p` holds of it. -/
def bringsAt (p : Phase → Bool) (index : Nat) (visit : Visit σ) : Bool :=
  visit.brings p && visit.index == index

/-- Whether the member of a place starts in a visit. -/
def startsAt (index : Nat) (visit : Visit σ) : Bool := visit.starts && visit.index == index

/-- Along a log a member is brought anywhere at most once, and once if it gets there. -/
theorem Consecutive.countP_bringsAt {p : Phase → Bool} {members : List (Member σ)}
    {visits : List (Visit σ)} (h : Consecutive members visits)
    (honward : ∀ visit ∈ visits, p visit.member.phase → p visit.after.2.phase) (index : Nat) :
    (Run.reached p (membersLeft members visits) index).toNat =
      (Run.reached p members index).toNat + visits.countP (bringsAt p index) := by
  induction visits generalizing members with
  | nil => rfl
  | cons visit visits ih =>
    obtain ⟨rfl, hrest⟩ := h
    rw [List.forall_mem_cons] at honward
    have hbrings : (Run.reached p visit.left index).toNat =
        (Run.reached p visit.members index).toNat + (visit.bringsAt p index).toNat := by
      have hfirst := honward.1
      have hget := visit.getElem?_members
      obtain ⟨hlt, -⟩ := List.getElem?_eq_some_iff.1 hget
      rw [Run.reached, Run.reached, visit.left_eq_set, bringsAt, brings]
      by_cases hindex : visit.index = index
      · subst hindex
        rw [List.getElem?_set_self hlt, hget, Option.any_some, Option.any_some]
        cases hbefore : p visit.member.phase <;> cases hafter : p visit.after.2.phase <;> simp_all
      · rw [List.getElem?_set_ne hindex]
        simp [hindex]
    have hone : (if visit.bringsAt p index then 1 else 0) = (visit.bringsAt p index).toNat := by
      cases visit.bringsAt p index <;> rfl
    rw [membersLeft_cons, ih hrest honward.2, hbrings, List.countP_cons, hone]
    omega

end Visit

/-- Whether a member has settled. -/
def Phase.isSettled (phase : Phase) : Bool := phase.settlement?.isSome

namespace Member

/-- Who has settled stays so. -/
theorem Visited.isSettled {scope : Scope} {index : Nat} {poll : Poll σ} {floor : Floor}
    {member : Member σ} {after : Floor × Member σ} (h : Visited scope index poll floor member after)
    (hsettled : member.phase.isSettled) : after.2.phase.isSettled := by
  cases h with
  | stays => exact hsettled
  | waits _ hphase => rw [hphase] at hsettled; cases hsettled
  | starts _ _ hphase =>
    rcases hphase with hphase | hphase <;> rw [hphase] at hsettled <;> cases hsettled
  | proceeds _ _ _ hphase => rw [hphase] at hsettled; cases hsettled

end Member

namespace Run

/-- What stays so of a member once it is. -/
structure Lasting (p : Phase → Bool) : Prop where
  idle : p .idle = false
  visited : ∀ {σ : Type} {scope : Scope} {index : Nat} {poll : Poll σ} {floor : Floor}
    {member : Member σ} {after : Floor × Member σ},
    Member.Visited scope index poll floor member after → p member.phase → p after.2.phase

theorem lasting_hasStarted : Lasting Phase.hasStarted := ⟨rfl, fun h => h.started⟩

theorem lasting_isSettled : Lasting Phase.isSettled := ⟨rfl, fun h => h.isSettled⟩

section Lasting

variable {behave : σ → Poll σ} {workflow : Workflow σ} {context : Context} {p : Phase → Bool}
  {history : List (Stretch σ)}

theorem History.lasts (hlasting : Lasting p)
    (h : History behave context (ofWorkflow workflow) history) :
    ∀ visit ∈ log behave context (ofWorkflow workflow) history,
      p visit.member.phase → p visit.after.2.phase := by
  intro visit hmem
  obtain ⟨stretch, -, hof⟩ := h.of_mem_log hmem
  exact hlasting.visited hof.visited

/-- Whoever has got somewhere was brought there once. -/
theorem History.countP_bringsAt (hlasting : Lasting p)
    (h : History behave context (ofWorkflow workflow) history) (index : Nat) :
    (log behave context (ofWorkflow workflow) history).countP (Visit.bringsAt p index) =
      (reached p (latest (ofWorkflow workflow) history).members index).toNat := by
  have hcount := h.consecutive_log.countP_bringsAt (h.lasts hlasting) index
  have hfresh : reached p (ofWorkflow workflow).members index = false := by
    rw [reached, ofWorkflow, List.getElem?_map]
    cases workflow.members[index]? <;> simp [hlasting.idle]
  rw [hfresh, ← h.members_latest] at hcount
  simpa using hcount.symm

theorem History.length_latest (h : History behave context (ofWorkflow workflow) history) :
    (latest (ofWorkflow workflow) history).members.length = workflow.members.length := by
  rw [h.members_latest, h.consecutive_log.length_membersLeft, ofWorkflow, List.length_map]

/-- No more members are brought anywhere than there are. -/
theorem History.countP_brings_le (hlasting : Lasting p)
    (h : History behave context (ofWorkflow workflow) history) :
    (log behave context (ofWorkflow workflow) history).countP (Visit.brings p) ≤
      workflow.members.length := by
  have hcount := h.consecutive_log.countP_brings (h.lasts hlasting)
  have hle := List.countP_le_length (p := fun member => p member.phase)
    (l := (latest (ofWorkflow workflow) history).members)
  rw [h.length_latest] at hle
  rw [← h.members_latest] at hcount
  omega

end Lasting

end Run

/-! ## Coming back for a slot -/

/-- A slot handed to somebody else stays with them. -/
theorem Gate.mem_handed_release {gate : Gate Nat} {other : Nat} (index : Nat)
    (h : other ∈ gate.handed) : other ∈ (gate.release index).handed := by
  unfold Gate.release
  split
  · unfold Gate.passOn
    split
    · exact h
    · exact List.mem_append_left _ h
  · exact h

theorem Gate.Admits.mem_handed {gate entered : Gate Nat} {index other : Nat}
    (hadmits : gate.Admits index entered) (hother : other ≠ index) (h : other ∈ gate.handed) :
    other ∈ entered.handed := by
  rcases hadmits with henter | hclaim
  · unfold Gate.enter at henter
    split at henter <;> cases henter
    exact h
  · unfold Gate.claim at hclaim
    split at hclaim <;> cases hclaim
    exact (List.mem_erase_of_ne hother).2 h

namespace Member

theorem mem_handed_freeSlot (scope : Scope) (index : Nat) {after : Floor × Member σ} {other : Nat}
    (h : other ∈ after.1.gate.handed) : other ∈ (freeSlot scope index after).1.gate.handed := by
  rw [gate_freeSlot]
  split
  · exact Gate.mem_handed_release index h
  · exact h

/-- A visit leaves the slots alone that were handed to others. -/
theorem AtGate.mem_handed {scope : Scope} {index : Nat} {poll : Poll σ} {floor : Floor}
    {member : Member σ} {after : Floor × Member σ} (h : AtGate scope index poll floor member after)
    {other : Nat} (hother : other ≠ index) (hhanded : other ∈ floor.gate.handed) :
    other ∈ after.1.gate.handed := by
  cases h with
  | stays => exact hhanded
  | waits gate _ _ hgate =>
    unfold Gate.enter at hgate
    split at hgate <;> cases hgate
    exact hhanded
  | starts gate _ _ hgate =>
    refine mem_handed_freeSlot scope index ?_
    rw [(start_started ..).1]
    exact hgate.mem_handed hother hhanded
  | proceeds =>
    refine mem_handed_freeSlot scope index ?_
    rw [(proceed_started ..).1]
    exact hhanded

/-- Whoever was handed a slot starts when it is asked again. -/
theorem visit_starts {scope : Scope} {index : Nat} (poll : Poll σ) {floor : Floor}
    {member : Member σ} (hphase : member.phase = .waiting) (hhanded : index ∈ floor.gate.handed)
    (hadmits : scope.turn.admits [index] = true) :
    (visit scope index poll floor member).2.phase.hasStarted = true := by
  unfold visit
  simp only [hphase, hadmits, if_true, Gate.claim, if_pos hhanded, snd_freeSlot]
  exact (start_started ..).2

end Member

namespace Run

/-- Whether the member of a place has started, or waits with a slot handed to it. -/
def Called (place : Nat) (gate : Gate Nat) (members : List (Member σ)) : Prop :=
  ∃ member, members[place]? = some member ∧
    (member.phase.hasStarted ∨ member.phase = .waiting ∧ place ∈ gate.handed)

/-- Nobody but the member itself takes up the slot that was handed to it. -/
theorem Called.visited {place : Nat} {visit : Visit σ} {poll : Poll σ}
    (h : Called place visit.floor.gate visit.members)
    (hgate : Member.AtGate visit.scope visit.index poll visit.floor visit.member visit.after) :
    Called place visit.after.1.gate visit.left := by
  obtain ⟨member, hget, hcalled⟩ := h
  rw [Called, visit.left_eq_set]
  generalize visit.after = after at hgate ⊢
  by_cases hplace : visit.index = place
  · subst hplace
    obtain ⟨hlt, -⟩ := List.getElem?_eq_some_iff.1 hget
    obtain rfl : visit.member = member := Option.some.inj (visit.getElem?_members.symm.trans hget)
    refine ⟨after.2, List.getElem?_set_self hlt, ?_⟩
    rcases hcalled with hstarted | ⟨hwaits, hhanded⟩
    · exact .inl (hgate.visited.started hstarted)
    · cases hgate with
      | stays => exact .inr ⟨hwaits, hhanded⟩
      | waits _ _ hidle => simp [hwaits] at hidle
      | starts =>
        rw [Member.snd_freeSlot]
        exact .inl (Member.start_started ..).2
      | proceeds _ _ hrunning => simp [hwaits] at hrunning
  · refine ⟨member, by rwa [List.getElem?_set_ne hplace], ?_⟩
    exact hcalled.imp_right fun ⟨hwaits, hhanded⟩ =>
      ⟨hwaits, hgate.mem_handed (Ne.symm hplace) hhanded⟩

section Stretch

variable {behave : σ → Poll σ} {scope : Scope} {workers place : Nat} {floor : Floor}
  {members : List (Member σ)} (horder : scope.plan.order = .parallel workers)
include horder

theorem after_of_mem_visits {visit : Visit σ}
    (hmem : visit ∈ Member.visits behave scope [] floor members) :
    visit.after = Member.visit visit.scope visit.index (behave visit.member.process) visit.floor
      visit.member := by
  obtain ⟨hscope, hafter⟩ := Member.of_mem_visits hmem
  rw [hafter, Member.visitBy, horder, hscope]

variable (behave) in
/-- A called member stays so through a parallel stretch. -/
theorem Called.visits (h : Called place floor.gate members) :
    let log := Member.visits behave scope [] floor members
    (∀ visit ∈ log, Called place visit.floor.gate visit.members) ∧
      Called place (Visit.floorLeft floor log).gate (Visit.membersLeft members log) :=
  Member.visits_induction (P := fun floor members => Called place floor.gate members)
    (fun _ hmem hP => hP.visited (after_of_mem_visits horder hmem ▸ Member.visit_atGate ..))
    (show Called place floor.gate ([] ++ members) from h)

/-- It has started by the end of the stretch if it is asked. -/
theorem Called.reached (h : Called place floor.gate members)
    (hadmits : scope.turn.admits [place]) :
    reached Phase.hasStarted
      (Visit.membersLeft members (Member.visits behave scope [] floor members)) place := by
  obtain ⟨hvisits, -⟩ := h.visits behave horder
  obtain ⟨member, hget, -⟩ := h
  obtain ⟨visit, hmem, hindex⟩ := Member.exists_visit behave scope
    (fun member => by simp [Member.passes, horder]) [] floor (List.getElem?_eq_some_iff.1 hget).1
  rw [List.length_nil, Nat.zero_add] at hindex
  have hlasts : ∀ known ∈ Member.visits behave scope [] floor members,
      known.member.phase.hasStarted → known.after.2.phase.hasStarted := by
    intro known hknown
    rw [after_of_mem_visits horder hknown]
    exact (Member.visit_atGate ..).visited.started
  -- The visit to that place starts its member, if it has not started before.
  have hstarted : visit.after.2.phase.hasStarted = true := by
    obtain ⟨called, hget, hcalled⟩ := hvisits visit hmem
    obtain rfl : visit.member = called := by
      rw [← hindex, visit.getElem?_members] at hget
      exact Option.some.inj hget
    rcases hcalled with hbefore | ⟨hwaits, hhanded⟩
    · exact hlasts visit hmem hbefore
    · obtain ⟨hscope, -⟩ := Member.of_mem_visits hmem
      rw [after_of_mem_visits horder hmem]
      exact Member.visit_starts _ hwaits (hindex ▸ hhanded) (by rwa [hscope, hindex])
  have hreached : Run.reached Phase.hasStarted visit.left place = true := by
    have hlt := (List.getElem?_eq_some_iff.1 visit.getElem?_members).1
    rw [Run.reached, visit.left_eq_set, ← hindex, List.getElem?_set_self hlt, Option.any_some]
    exact hstarted
  -- Nor does a later visit take that back.
  have hconsecutive : Visit.Consecutive members (Member.visits behave scope [] floor members) :=
    Member.consecutive_visits [] floor members
  obtain ⟨before, later, hsplit⟩ := List.append_of_mem hmem
  rw [hsplit] at hconsecutive hlasts ⊢
  have hcount := hconsecutive.of_append.2.2.countP_bringsAt
    (fun known hknown => hlasts known (by simp [hknown])) place
  rw [Visit.membersLeft_append, Visit.membersLeft_cons]
  rw [hreached] at hcount
  by_contra hnot
  rw [Bool.not_eq_true] at hnot
  simp [hnot] at hcount
  omega

end Stretch

/-- So it is of a run that is under way. -/
def Calls (run : Run σ) (place : Nat) : Prop :=
  ∃ gate own, run.stage = .open gate own ∧ Called place gate run.members

/-- Whoever has a slot handed to it in a parallel run keeps it through a stretch, or
starts in it; and it starts if it is asked. -/
theorem Calls.give {run : Run σ} {workers place : Nat} (h : run.Calls place)
    (horder : run.plan.order = .parallel workers) (behave : σ → Poll σ) (turn : Turn)
    (context : Context) (world : World) :
    let step := run.give behave turn context world
    (turn.admits [place] → reached Phase.hasStarted step.run.members place) ∧
      (step.result = none → step.run.Calls place) := by
  obtain ⟨gate, own, hstage, hcalled⟩ := h
  have hentry : run.entry context world =
      some ⟨context.state, run.isKeyed, own, gate, world⟩ := by
    rw [entry, hstage]
  intro step
  refine ⟨fun hadmits => ?_, fun hresult => ?_⟩
  · rw [show step.run.members = _ from members_give .., visits_of_entry hentry]
    exact hcalled.reached horder hadmits
  · rw [show step = _ from give_of_entry hentry, visitAll_eq] at hresult ⊢
    split at hresult
    · exact ⟨_, _, rfl, (hcalled.visits behave horder).2⟩
    · cases hresult

end Run

end Coordination
