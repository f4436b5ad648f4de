import Mathlib.Data.Nat.Init
import Coordination.Proofs.Gate.Attendance

/-!
# Turns at a gate

Requests are let in by turns: who waits is let in only when everybody who
waited longer has been handed a slot or has gone, and who comes never goes
past anyone who waits for a slot, though a free slot is taken without queueing
(`admitted_in_turn`).

* `Ahead`: a request waits, and before another if that one waits too;
* `ahead_stand`: it stays so until it is closed;
* `Tallied.mem_handed`: whoever waits before one that is let in has been handed a slot.
-/

namespace Coordination

namespace Desk

/-- Whether an answer closes the request of an id. -/
def Closes (id : String) (answer : Step × Reply) : Prop :=
  answer.1.id = id ∧ (answer.2 = .admitted ∨ answer.2 = .cancelled ∨ answer.2 = .dropped)

/-- A request waits, and before another one if that one waits too. -/
def Ahead (first second : String) (line : List String) : Prop :=
  first ∈ line ∧ (second ∈ line → [first, second].Sublist line)

theorem ahead_append {first second id : String} {line : List String}
    (h : Ahead first second line) : Ahead first second (line ++ [id]) := by
  refine ⟨List.mem_append_left _ h.1, fun hmem => ?_⟩
  rcases List.mem_append.1 hmem with hold | hnew
  · exact (h.2 hold).trans (List.sublist_append_left ..)
  · rw [List.mem_singleton.1 hnew]
    exact (List.singleton_sublist.2 h.1).append (List.Sublist.refl [id])

theorem ahead_erase {first second id : String} {line : List String} (hnodup : line.Nodup)
    (hne : id ≠ first) (h : Ahead first second line) : Ahead first second (line.erase id) := by
  refine ⟨(List.mem_erase_of_ne hne.symm).2 h.1, fun hmem => ?_⟩
  obtain ⟨hsecond, hmem⟩ := hnodup.mem_erase_iff.1 hmem
  have hsublist := (h.2 hmem).erase id
  rwa [List.erase_of_not_mem (by simp [hne, hsecond.symm])] at hsublist

/-- What an answer may do to the line. -/
theorem stand_cases (line : List String) (answer : Step × Reply) :
    stand line answer = line ∨ stand line answer = line ++ [answer.1.id] ∨
      Closes answer.1.id answer ∧ stand line answer = line.erase answer.1.id := by
  unfold stand
  split
  · split
    · exact .inl rfl
    · exact .inr (.inl rfl)
  next hreply => exact .inr (.inr ⟨⟨rfl, .inl hreply⟩, rfl⟩)
  next hreply => exact .inr (.inr ⟨⟨rfl, .inr (.inl hreply)⟩, rfl⟩)
  next hreply => exact .inr (.inr ⟨⟨rfl, .inr (.inr hreply)⟩, rfl⟩)
  · exact .inl rfl

section Stand

variable {first second : String} {line : List String} {answer : Step × Reply}

/-- A request waits until it is closed. -/
theorem mem_stand (hopen : ¬ Closes first answer) (h : first ∈ line) :
    first ∈ stand line answer := by
  rcases stand_cases line answer with heq | heq | ⟨hcloses, heq⟩ <;> rw [heq]
  · exact h
  · exact List.mem_append_left _ h
  · have hne : first ≠ answer.1.id := fun hid => hopen (hid ▸ hcloses)
    exact (List.mem_erase_of_ne hne).2 h

/-- Until it is closed, a request waits before those that it waited before. -/
theorem ahead_stand (hnodup : line.Nodup) (hopen : ¬ Closes first answer)
    (h : Ahead first second line) : Ahead first second (stand line answer) := by
  rcases stand_cases line answer with heq | heq | ⟨hcloses, heq⟩ <;> rw [heq]
  · exact h
  · exact ahead_append h
  · exact ahead_erase hnodup (fun hid => hopen (hid ▸ hcloses)) h

end Stand

/-- Who is let in was handed a slot, or finds one free. -/
theorem mem_handed_or_free {desk : Desk} {step : Step} (h : (desk.apply step).1 = .admitted) :
    step.id ∈ desk.gate.handed ∨ 0 < desk.gate.free := by
  have hpoll : ∀ desk : Desk, (desk.poll step.id).1 = .admitted →
      step.id ∈ desk.gate.handed ∨ 0 < desk.gate.free := by
    intro desk hreply
    unfold Desk.poll at hreply
    cases hrequest : desk.request? step.id with
    | none => simp [hrequest] at hreply
    | some request =>
      have hid := (request?_eq_some hrequest).1
      simp only [hrequest] at hreply
      split at hreply
      · unfold Desk.askAgain at hreply
        split at hreply
        · cases hreply
        · rw [hid, Gate.claim] at hreply
          split at hreply
          next hclaim => split at hclaim <;> [exact .inl ‹_›; cases hclaim]
          · cases hreply
      · unfold Desk.firstAsk at hreply
        split at hreply
        · exact .inr ‹_›
        · split at hreply <;> cases hreply
  cases step with
  | create id signal => cases h
  | acquire id signal =>
    have hgate : (desk.create id signal).gate = desk.gate := by
      unfold Desk.create
      split <;> rfl
    exact hgate ▸ hpoll _ h
  | poll id => exact hpoll desk h
  | cancel id =>
    simp only [apply, Desk.cancel] at h
    split at h <;> cases h
  | drop id =>
    simp only [apply, Desk.drop] at h
    split at h
    · cases h
    · split at h <;> cases h
  | release id =>
    simp only [apply, Desk.release] at h
    split at h <;> cases h

/-- Whoever waited before a request that is let in was handed a slot. -/
theorem Tallied.mem_handed {desk : Desk} {line held : List String} (h : Tallied desk line held)
    {first : String} {step : Step} (hahead : Ahead first step.id line)
    (hreply : (desk.apply step).1 = .admitted) : first ∈ desk.gate.handed := by
  rcases mem_handed_or_free hreply with hhanded | hfree
  · have hmem : step.id ∈ line := h.line_eq ▸ List.mem_append_left _ hhanded
    refine Gate.mem_handed_of_before ?_ ?_ hhanded
    · exact h.line_eq ▸ h.nodup
    · exact h.line_eq ▸ hahead.2 hmem
  · rw [h.balanced.handed_eq_line hfree, h.line_eq]
    exact hahead.1

/-! ## Moments -/

theorem answers_take (desk : Desk) (steps : List Step) (n : Nat) :
    (desk.answers steps).take n = desk.answers (steps.take n) := by
  induction steps generalizing desk n with
  | nil => simp [answers]
  | cons step steps ih =>
    cases n with
    | zero => rfl
    | succ n => rw [answers_cons, List.take_succ_cons, ih, List.take_succ_cons, answers_cons]

theorem getElem?_answers (desk : Desk) (steps : List Step) (n : Nat) :
    (desk.answers steps)[n]? =
      steps[n]?.map fun step => (step, ((desk.after (steps.take n)).apply step).1) := by
  induction steps generalizing desk n with
  | nil => rfl
  | cons step steps ih =>
    cases n with
    | zero => rfl
    | succ n => rw [answers_cons, List.getElem?_cons_succ, ih]; rfl

theorem lineOf_take_succ {answers : List (Step × Reply)} {n : Nat} {answer : Step × Reply}
    (h : answers[n]? = some answer) :
    lineOf (answers.take (n + 1)) = stand (lineOf (answers.take n)) answer := by
  rw [List.take_add_one, h, lineOf, List.foldl_append]
  rfl

/-- A request that is told to wait waits from then on. -/
theorem mem_stand_of_pending {line : List String} {step : Step} :
    step.id ∈ stand line (step, .pending) := by
  simp only [stand]
  split
  · assumption
  · simp

/-- Requests are let in by turns. Who was told to wait before a request that is
let in later has been closed by then or handed a slot. And a request that did
not wait is let in only when all that wait have been handed one. -/
theorem admitted_in_turn {workers : Nat} {gate : Gate String}
    (hgate : Gate.new workers = .ok gate) (label : String) (steps : List Step) :
    let start := ofGate label gate
    let answers := start.answers steps
    (∀ (i j k : Nat) (first second last : Step), i < j → j < k →
      answers[i]? = some (first, .pending) →
      answers[j]? = some (second, .pending) → second.id ∉ lineOf (answers.take j) →
      answers[k]? = some (last, .admitted) → last.id = second.id →
      first.id ∈ (start.after (steps.take k)).gate.handed ∨
        ∃ (m : Nat) (answer : Step × Reply), i < m ∧ m < k ∧ answers[m]? = some answer ∧
          Closes first.id answer) ∧
    ∀ (k : Nat) (last : Step), answers[k]? = some (last, .admitted) →
      last.id ∉ lineOf (answers.take k) →
      ∀ id ∈ lineOf (answers.take k), id ∈ (start.after (steps.take k)).gate.handed := by
  obtain rfl := Gate.new_eq_ok hgate
  intro start answers
  have htallied : ∀ n, Tallied (start.after (steps.take n)) (lineOf (answers.take n))
      (heldOf (answers.take n)) := by
    intro n
    simp only [answers, answers_take]
    exact (tallied_ofGate label workers).after _
  have hreply : ∀ {k : Nat} {last : Step}, answers[k]? = some (last, .admitted) →
      ((start.after (steps.take k)).apply last).1 = .admitted := by
    intro k last hlast
    obtain ⟨step, -, heq⟩ := Option.map_eq_some_iff.1 ((getElem?_answers ..).symm.trans hlast)
    obtain ⟨rfl, hreply⟩ := Prod.mk.inj heq
    exact hreply
  refine ⟨?_, ?_⟩
  · intro i j k first second last hij hjk hfirst hsecond hnew hlast hid
    refine or_iff_not_imp_right.2 fun hopen => ?_
    have hlength : k < answers.length := (List.getElem?_eq_some_iff.1 hlast).1
    -- After `i` the first request stays open, so what its open request keeps is kept up to `k`.
    have hkept : ∀ {P : List String → Prop} {m n : Nat}, (∀ line answer, line.Nodup →
        ¬ Closes first.id answer → P line → P (stand line answer)) → i < m → m ≤ n → n ≤ k →
        P (lineOf (answers.take m)) → P (lineOf (answers.take n)) := by
      intro P m n hstep him hmn hnk hm
      induction n, hmn using Nat.le_induction with
      | base => exact hm
      | succ n hmn ih =>
        have hget := List.getElem?_eq_getElem (show n < answers.length by omega)
        rw [lineOf_take_succ hget]
        exact hstep _ _ (htallied n).nodup
          (fun hcloses => hopen ⟨n, _, by omega, by omega, hget, hcloses⟩) (ih (by omega))
    have hwaits : first.id ∈ lineOf (answers.take j) := by
      refine hkept (fun _ _ _ => mem_stand) (Nat.lt_succ_self i) hij (by omega) ?_
      rw [lineOf_take_succ hfirst]
      exact mem_stand_of_pending
    have hahead : Ahead first.id second.id (lineOf (answers.take k)) :=
      hkept (fun _ _ => ahead_stand) hij (by omega) (Nat.le_refl k)
        ⟨hwaits, fun hmem => absurd hmem hnew⟩
    exact (htallied k).mem_handed (hid ▸ hahead) (hreply hlast)
  · intro k last hlast hnew id hmem
    exact (htallied k).mem_handed ⟨hmem, fun hstep => absurd hstep hnew⟩ (hreply hlast)

/-- One slot, and a request that is dropped after the slot was handed to it. -/
def stepsAside : List Step :=
  [.acquire "a" none, .acquire "b" none, .acquire "c" none, .release "a", .poll "c", .drop "b",
    .poll "c"]

theorem admitted_in_turn_stepsAside :
    Gate.new 1 = .ok (.ofCapacity 1 : Gate String) ∧
      ((ofGate "door" (.ofCapacity 1)).answers stepsAside)[6]? = some (.poll "c", .admitted) ∧
      ("b" ∈ ((ofGate "door" (.ofCapacity 1)).after (stepsAside.take 6)).gate.handed ∨
        ∃ (m : Nat) (answer : Step × Reply), 1 < m ∧ m < 6 ∧
          ((ofGate "door" (.ofCapacity 1)).answers stepsAside)[m]? = some answer ∧
          Closes "b" answer) := by
  have hgate : Gate.new 1 = .ok (.ofCapacity 1 : Gate String) := rfl
  refine ⟨hgate, by decide, ?_⟩
  exact (admitted_in_turn hgate "door" stepsAside).1 1 2 6 (.acquire "b" none) (.acquire "c" none)
    (.poll "c") (by decide) (by decide) (by decide) (by decide) (by decide) (by decide) rfl

end Desk

end Coordination
