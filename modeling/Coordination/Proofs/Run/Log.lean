import Coordination.Proofs.Run.History

/-!
# The log of a run

In a stretch a run visits its members one after another, and between two
stretches it does nothing. So what a run does is the list of its visits, its
log (`Run.log`). Each visit finds the members as the one before has left them.

* `Run.visitAll_eq`: a stretch is its visits, and then the end of the run if it has come;
* `Run.History.of_mem_log`: what is in a log;
* `Run.History.consecutive_log`: each visit finds what the one before has left;
* `Run.History.front_of_mem_log`: whom a stretch has gone past;
* `Run.History.log_invariant`, `Run.History.log_induction`: what every visit
  keeps, and whatever happens between two stretches, holds at every visit and at
  the end of every stretch; `Run.History.log_account` for what is told of the
  visits so far.
-/

namespace Coordination

variable {σ : Type}

/-- A visit to a member of a run, and what came of it. -/
structure Visit (σ : Type) where
  scope : Scope
  /-- The members before the visited one. -/
  front : List (Member σ)
  member : Member σ
  /-- The members behind it. -/
  rest : List (Member σ)
  floor : Floor
  after : Floor × Member σ

namespace Visit

/-- The place of the visited member. -/
def index (visit : Visit σ) : Nat := visit.front.length

/-- The members that the visit found. -/
def members (visit : Visit σ) : List (Member σ) := visit.front ++ visit.member :: visit.rest

/-- The members that the visit left. -/
def left (visit : Visit σ) : List (Member σ) := visit.front ++ visit.after.2 :: visit.rest

theorem getElem?_members (visit : Visit σ) : visit.members[visit.index]? = some visit.member := by
  simp [members, index]

theorem left_eq_set (visit : Visit σ) :
    visit.left = visit.members.set visit.index visit.after.2 := by
  simp [left, members, index]

/-- The floor that visits leave, if there was this one before them. -/
def floorLeft (floor : Floor) (visits : List (Visit σ)) : Floor :=
  (visits.getLast?.map (·.after.1)).getD floor

/-- The members that visits leave, if there were these before them. -/
def membersLeft (members : List (Member σ)) (visits : List (Visit σ)) : List (Member σ) :=
  (visits.getLast?.map left).getD members

@[simp] theorem floorLeft_nil (floor : Floor) : floorLeft floor ([] : List (Visit σ)) = floor := rfl

@[simp] theorem floorLeft_cons (floor : Floor) (visit : Visit σ) (visits : List (Visit σ)) :
    floorLeft floor (visit :: visits) = floorLeft visit.after.1 visits := by
  rw [floorLeft, floorLeft, List.getLast?_cons]
  cases visits.getLast? <;> rfl

@[simp] theorem membersLeft_nil (members : List (Member σ)) :
    membersLeft members [] = members := rfl

@[simp] theorem membersLeft_cons (members : List (Member σ)) (visit : Visit σ)
    (visits : List (Visit σ)) :
    membersLeft members (visit :: visits) = membersLeft visit.left visits := by
  rw [membersLeft, membersLeft, List.getLast?_cons]
  cases visits.getLast? <;> rfl

/-- Whether the first visit finds these members, and each further one those that
the one before has left. -/
def Consecutive : List (Member σ) → List (Visit σ) → Prop
  | _, [] => True
  | members, visit :: visits => visit.members = members ∧ Consecutive visit.left visits

theorem membersLeft_append (members : List (Member σ)) (visits next : List (Visit σ)) :
    membersLeft members (visits ++ next) = membersLeft (membersLeft members visits) next := by
  induction visits generalizing members with
  | nil => rfl
  | cons visit visits ih => rw [List.cons_append, membersLeft_cons, ih, membersLeft_cons]

theorem Consecutive.append {members : List (Member σ)} {visits next : List (Visit σ)}
    (h : Consecutive members visits) (hnext : Consecutive (membersLeft members visits) next) :
    Consecutive members (visits ++ next) := by
  induction visits generalizing members with
  | nil => exact hnext
  | cons visit visits ih =>
    rw [membersLeft_cons] at hnext
    exact ⟨h.1, ih h.2 hnext⟩

theorem Consecutive.of_append {members : List (Member σ)} {before later : List (Visit σ)}
    {visit : Visit σ} (h : Consecutive members (before ++ visit :: later)) :
    Consecutive members before ∧ visit.members = membersLeft members before ∧
      Consecutive visit.left later := by
  induction before generalizing members with
  | nil => exact ⟨trivial, h⟩
  | cons first before ih =>
    obtain ⟨hbefore, hmembers, hlater⟩ := ih h.2
    exact ⟨⟨h.1, hbefore⟩, by rw [hmembers, membersLeft_cons], hlater⟩

theorem Consecutive.length_membersLeft {members : List (Member σ)} {visits : List (Visit σ)}
    (h : Consecutive members visits) : (membersLeft members visits).length = members.length := by
  induction visits generalizing members with
  | nil => rfl
  | cons visit visits ih =>
    obtain ⟨rfl, hrest⟩ := h
    rw [membersLeft_cons, ih hrest, left, members, List.length_append, List.length_append]
    rfl

/-- How each visit of a log relates its members before and after, all the visits
so far do. -/
theorem Consecutive.relates {R : List (Member σ) → List (Member σ) → Prop}
    (hrefl : ∀ members, R members members) (htrans : ∀ a b c, R a b → R b c → R a c)
    {members : List (Member σ)} {visits : List (Visit σ)} (h : Consecutive members visits)
    (hvisit : ∀ visit ∈ visits, R visit.members visit.left) :
    ∀ visit ∈ visits, R members visit.members := by
  induction visits generalizing members with
  | nil => exact fun _ hmem => absurd hmem List.not_mem_nil
  | cons first visits ih =>
    obtain ⟨rfl, hrest⟩ := h
    rw [List.forall_mem_cons] at hvisit ⊢
    refine ⟨hrefl _, fun visit hmem => ?_⟩
    exact htrans _ _ _ hvisit.1 (ih hrest hvisit.2 visit hmem)

/-- So do all of them. -/
theorem Consecutive.relates_left {R : List (Member σ) → List (Member σ) → Prop}
    (hrefl : ∀ members, R members members) (htrans : ∀ a b c, R a b → R b c → R a c)
    {members : List (Member σ)} {visits : List (Visit σ)} (h : Consecutive members visits)
    (hvisit : ∀ visit ∈ visits, R visit.members visit.left) :
    R members (membersLeft members visits) := by
  induction visits generalizing members with
  | nil => exact hrefl members
  | cons first visits ih =>
    obtain ⟨rfl, hrest⟩ := h
    rw [List.forall_mem_cons] at hvisit
    rw [membersLeft_cons]
    exact htrans _ _ _ hvisit.1 (ih hrest hvisit.2)

end Visit

/-! ## The visits of a stretch -/

namespace Member

/-- The members of a run, each with what it does. -/
abbrev paired (behave : σ → Poll σ) (members : List (Member σ)) : List (Member σ × Poll σ) :=
  members.zip (members.map fun member => behave member.process)

/-- Visits a member as the order of its run has it. -/
def visitBy (scope : Scope) (index : Nat) (poll : Poll σ) (floor : Floor) (member : Member σ) :
    Floor × Member σ :=
  match scope.plan.order with
  | .parallel _ => visit scope index poll floor member
  | .sequential => visitInLine scope index poll floor member

/-- Whether those behind a member are visited after it. -/
def passes (order : Order) (member : Member σ) : Bool :=
  match order with
  | .parallel _ => true
  | .sequential => member.phase.settlement?.any (·.isSuccess)

/-- The visits of a stretch in which the members of `front` have been visited. -/
def visits (behave : σ → Poll σ) (scope : Scope) :
    List (Member σ) → Floor → List (Member σ) → List (Visit σ)
  | _, _, [] => []
  | front, floor, member :: rest =>
    let after := visitBy scope front.length (behave member.process) floor member
    ⟨scope, front, member, rest, floor, after⟩ ::
      if after.2.passes scope.plan.order then
        visits behave scope (front ++ [after.2]) after.1 rest
      else []

section Visits

variable {behave : σ → Poll σ} {scope : Scope}

/-- A sweep is its visits. -/
theorem left_visits_parallel {workers : Nat} (scope : Scope)
    (horder : scope.plan.order = .parallel workers) (front : List (Member σ)) (floor : Floor)
    (rest : List (Member σ)) :
    let after := sweep scope front.length floor (paired behave rest)
    let log := visits behave scope front floor rest
    Visit.floorLeft floor log = after.1 ∧
      Visit.membersLeft (front ++ rest) log = front ++ after.2 := by
  induction rest generalizing front floor with
  | nil => exact ⟨rfl, rfl⟩
  | cons member rest ih =>
    obtain ⟨after, hafter⟩ :
        ∃ after, visit scope front.length (behave member.process) floor member = after := ⟨_, rfl⟩
    have hrest := ih (front ++ [after.2]) after.1
    simp only [List.length_append, List.length_singleton, List.append_assoc,
      List.singleton_append] at hrest
    simp only [visits, visitBy, passes, horder, hafter, if_true, Visit.floorLeft_cons,
      Visit.membersLeft_cons, Visit.left, paired, List.map_cons, List.zip_cons_cons, sweep]
    exact hrest

theorem walk_cons (scope : Scope) (index : Nat) (floor : Floor) (member : Member σ) (poll : Poll σ)
    (rest : List (Member σ × Poll σ)) :
    let after := visitInLine scope index poll floor member
    walk scope index floor ((member, poll) :: rest) =
      if after.2.passes .sequential then
        let left := walk scope (index + 1) after.1 rest
        (left.1, after.2 :: left.2)
      else (after.1, after.2 :: rest.map Prod.fst) := by
  simp only [walk]
  generalize visitInLine scope index poll floor member = after
  cases hsettlement : after.2.phase.settlement? with
  | none => simp [passes, hsettlement]
  | some settlement =>
    obtain ⟨events, error⟩ := settlement
    cases error <;> simp [passes, hsettlement, Settlement.isSuccess]

/-- So is a walk. -/
theorem left_visits_sequential (scope : Scope) (horder : scope.plan.order = .sequential)
    (front : List (Member σ)) (floor : Floor) (rest : List (Member σ)) :
    let after := walk scope front.length floor (paired behave rest)
    let log := visits behave scope front floor rest
    Visit.floorLeft floor log = after.1 ∧
      Visit.membersLeft (front ++ rest) log = front ++ after.2 := by
  induction rest generalizing front floor with
  | nil => exact ⟨rfl, rfl⟩
  | cons member rest ih =>
    obtain ⟨after, hafter⟩ : ∃ after,
        visitInLine scope front.length (behave member.process) floor member = after := ⟨_, rfl⟩
    have hrest := ih (front ++ [after.2]) after.1
    simp only [List.length_append, List.length_singleton, List.append_assoc,
      List.singleton_append] at hrest
    simp only [visits, visitBy, horder, hafter, Visit.floorLeft_cons, Visit.membersLeft_cons,
      Visit.left, paired, List.map_cons, List.zip_cons_cons, walk_cons]
    split
    · exact hrest
    · rw [List.map_fst_zip (by simp)]
      exact ⟨rfl, rfl⟩

theorem of_mem_visits {front : List (Member σ)} {floor : Floor} {rest : List (Member σ)}
    {visit : Visit σ} (h : visit ∈ visits behave scope front floor rest) :
    visit.scope = scope ∧ visit.after =
      visitBy scope visit.index (behave visit.member.process) visit.floor visit.member := by
  induction rest generalizing front floor with
  | nil => cases h
  | cons member rest ih =>
    rcases List.mem_cons.1 h with rfl | hrest
    · exact ⟨rfl, rfl⟩
    · split at hrest
      · exact ih hrest
      · cases hrest

/-- The members before those that are visited stay as they are. -/
theorem front_membersLeft_visits (front : List (Member σ)) (floor : Floor)
    (rest : List (Member σ)) :
    front <+: Visit.membersLeft (front ++ rest) (visits behave scope front floor rest) := by
  induction rest generalizing front floor with
  | nil => simp [visits]
  | cons member rest ih =>
    simp only [visits, Visit.membersLeft_cons, Visit.left]
    generalize visitBy scope front.length (behave member.process) floor member = after
    split
    · rw [List.append_cons front after.2 rest]
      exact (List.prefix_append _ _).trans (ih _ _)
    · exact List.prefix_append _ _

/-- A visited member stays as the visit left it up to the end of the stretch. -/
theorem after_mem_membersLeft {front : List (Member σ)} {floor : Floor} {rest : List (Member σ)}
    {visit : Visit σ} (h : visit ∈ visits behave scope front floor rest) :
    visit.after.2 ∈
      Visit.membersLeft (front ++ rest) (visits behave scope front floor rest) := by
  induction rest generalizing front floor with
  | nil => cases h
  | cons member rest ih =>
    simp only [visits, Visit.membersLeft_cons, Visit.left] at h ⊢
    generalize visitBy scope front.length (behave member.process) floor member = after at h ⊢
    rw [List.append_cons front after.2 rest]
    rcases List.mem_cons.1 h with rfl | hrest
    · split
      · exact (front_membersLeft_visits _ _ _).subset (by simp)
      · simp
    · split at hrest
      next hpasses =>
        rw [if_pos hpasses]
        exact ih hrest
      · cases hrest

theorem consecutive_visits (front : List (Member σ)) (floor : Floor) (rest : List (Member σ)) :
    Visit.Consecutive (front ++ rest) (visits behave scope front floor rest) := by
  induction rest generalizing front floor with
  | nil => trivial
  | cons member rest ih =>
    simp only [visits]
    generalize visitBy scope front.length (behave member.process) floor member = after
    refine ⟨rfl, ?_⟩
    split
    · rw [Visit.left, List.append_cons]
      exact ih _ _
    · trivial

/-- What is so of all whom a stretch goes past, is so of those before the visited member. -/
theorem front_of_mem_visits {Q : Member σ → Prop} {front : List (Member σ)} {floor : Floor}
    {rest : List (Member σ)}
    (hvisit : ∀ visit ∈ visits behave scope front floor rest,
      visit.after.2.passes scope.plan.order → Q visit.after.2)
    (hfront : ∀ member ∈ front, Q member) :
    ∀ visit ∈ visits behave scope front floor rest, ∀ member ∈ visit.front, Q member := by
  induction rest generalizing front floor with
  | nil => exact fun _ hmem => absurd hmem List.not_mem_nil
  | cons member rest ih =>
    simp only [visits, List.forall_mem_cons] at hvisit ⊢
    obtain ⟨hfirst, hrest⟩ := hvisit
    refine ⟨hfront, ?_⟩
    split
    next hpasses =>
      rw [if_pos hpasses] at hrest
      refine ih hrest (List.forall_mem_append.2 ⟨hfront, ?_⟩)
      exact List.forall_mem_singleton.2 (hfirst hpasses)
    next => exact fun _ hmem => absurd hmem List.not_mem_nil

/-- What is so of all who are visited in a stretch that goes past everybody, is so
of all at its end. -/
theorem forall_membersLeft_visits {Q : Member σ → Prop}
    (hpasses : ∀ member : Member σ, member.passes scope.plan.order) {front : List (Member σ)}
    {floor : Floor} {rest : List (Member σ)}
    (hvisit : ∀ visit ∈ visits behave scope front floor rest, Q visit.after.2)
    (hfront : ∀ member ∈ front, Q member) :
    ∀ member ∈ Visit.membersLeft (front ++ rest) (visits behave scope front floor rest),
      Q member := by
  induction rest generalizing front floor with
  | nil => simpa [visits] using hfront
  | cons member rest ih =>
    simp only [visits, List.forall_mem_cons, Visit.membersLeft_cons, Visit.left] at hvisit ⊢
    rw [if_pos (hpasses _)] at hvisit ⊢
    rw [List.append_cons]
    exact ih hvisit.2 (List.forall_mem_append.2 ⟨hfront, List.forall_mem_singleton.2 hvisit.1⟩)

variable (behave scope) in
/-- A stretch that goes past everybody visits every place. -/
theorem exists_visit (hpasses : ∀ member : Member σ, member.passes scope.plan.order)
    (front : List (Member σ)) (floor : Floor) {rest : List (Member σ)} {index : Nat}
    (hlt : index < rest.length) :
    ∃ visit ∈ visits behave scope front floor rest, visit.index = front.length + index := by
  induction rest generalizing front floor index with
  | nil => simp at hlt
  | cons member rest ih =>
    simp only [visits, if_pos (hpasses _)]
    generalize visitBy scope front.length (behave member.process) floor member = after
    cases index with
    | zero => exact ⟨_, List.mem_cons_self, rfl⟩
    | succ index =>
      obtain ⟨visit, hmem, hindex⟩ := ih (front ++ [after.2]) after.1 (Nat.lt_of_succ_lt_succ hlt)
      refine ⟨visit, List.mem_cons_of_mem _ hmem, ?_⟩
      rw [hindex, List.length_append, List.length_singleton, Nat.add_right_comm, Nat.add_assoc]

/-- What every visit goes on with, of the visits so far, a stretch goes on with. -/
theorem visits_account {P : List (Visit σ) → Floor → List (Member σ) → Prop}
    (seen : List (Visit σ)) {front : List (Member σ)} {floor : Floor} {rest : List (Member σ)}
    (hvisit : ∀ visit ∈ visits behave scope front floor rest, ∀ before,
      P before visit.floor visit.members → P (before ++ [visit]) visit.after.1 visit.left)
    (h : P seen floor (front ++ rest)) :
    let log := visits behave scope front floor rest
    (∀ visit ∈ log, ∃ before, P before visit.floor visit.members) ∧
      P (seen ++ log) (Visit.floorLeft floor log) (Visit.membersLeft (front ++ rest) log) := by
  induction rest generalizing seen front floor with
  | nil =>
    refine ⟨fun _ hmem => absurd hmem List.not_mem_nil, ?_⟩
    rw [visits, List.append_nil]
    exact h
  | cons member rest ih =>
    simp only [visits, Visit.floorLeft_cons, Visit.membersLeft_cons, List.forall_mem_cons,
      Visit.left] at hvisit ⊢
    generalize visitBy scope front.length (behave member.process) floor member = after at hvisit ⊢
    obtain ⟨hfirst, hrest⟩ := hvisit
    have hnext := hfirst seen h
    rw [List.append_cons front after.2 rest] at hnext ⊢
    split
    next hpasses =>
      rw [if_pos hpasses] at hrest
      obtain ⟨hvisits, hleft⟩ := ih _ hrest hnext
      rw [List.append_assoc, List.singleton_append] at hleft
      exact ⟨⟨⟨seen, h⟩, hvisits⟩, hleft⟩
    next => exact ⟨⟨⟨seen, h⟩, fun _ hmem => absurd hmem List.not_mem_nil⟩, hnext⟩

/-- What every visit keeps, a stretch keeps. -/
theorem visits_induction {P : Floor → List (Member σ) → Prop} {front : List (Member σ)}
    {floor : Floor} {rest : List (Member σ)}
    (hvisit : ∀ visit ∈ visits behave scope front floor rest, P visit.floor visit.members →
      P visit.after.1 visit.left)
    (h : P floor (front ++ rest)) :
    let log := visits behave scope front floor rest
    (∀ visit ∈ log, P visit.floor visit.members) ∧
      P (Visit.floorLeft floor log) (Visit.membersLeft (front ++ rest) log) := by
  obtain ⟨hvisits, hleft⟩ := visits_account (P := fun _ => P) []
    (fun visit hmem _ => hvisit visit hmem) h
  exact ⟨fun visit hmem => (hvisits visit hmem).choose_spec, hleft⟩

end Visits

end Member

/-! ## The visits of a run -/

namespace Run

/-- The floor on which a run visits its members in a stretch, if it does. -/
def entry (run : Run σ) (context : Context) (world : World) : Option Floor :=
  match run.stage with
  | .fresh => (run.open context world).toOption
  | .open gate own => some ⟨context.state, run.isKeyed, own, gate, world⟩
  | .closed => none

/-- The visits of a stretch. -/
def visits (behave : σ → Poll σ) (run : Run σ) (turn : Turn) (context : Context) (world : World) :
    List (Visit σ) :=
  match run.entry context world with
  | some floor => Member.visits behave ⟨run.plan, context, turn⟩ [] floor run.members
  | none => []

variable {behave : σ → Poll σ} {run : Run σ} {turn : Turn} {context : Context} {world : World}
  {floor : Floor}

theorem entry_of_open (hfresh : run.stage = .fresh) (h : run.open context world = .ok floor) :
    run.entry context world = some floor := by
  rw [entry, hfresh]
  exact congrArg Except.toOption h

/-- A run that is not opened visits nobody. -/
theorem give_of_refused {refusal : RunError × World} (hfresh : run.stage = .fresh)
    (h : run.open context world = .error refusal) :
    run.visits behave turn context world = [] ∧ run.give behave turn context world =
      ⟨{ run with stage := .closed }, context.state, refusal.2, some (.error refusal.1)⟩ := by
  have hentry : run.entry context world = none := by
    rw [entry, hfresh]
    exact congrArg Except.toOption h
  refine ⟨by rw [visits, hentry], ?_⟩
  simp only [give, poll, hfresh, h]

theorem visits_of_entry (h : run.entry context world = some floor) :
    run.visits behave turn context world =
      Member.visits behave ⟨run.plan, context, turn⟩ [] floor run.members := by
  rw [visits, h]

theorem give_of_entry (h : run.entry context world = some floor) :
    run.give behave turn context world =
      run.visitAll (run.members.map fun member => behave member.process) turn context floor := by
  rw [entry] at h
  rw [give, poll]
  cases hstage : run.stage with
  | fresh =>
    simp only [hstage] at h ⊢
    cases hopen : run.open context world with
    | error refusal => rw [hopen] at h; cases h
    | ok opened =>
      rw [hopen] at h
      obtain rfl := Option.some.inj h
      rfl
  | «open» gate own =>
    simp only [hstage] at h ⊢
    obtain rfl := Option.some.inj h
    rfl
  | closed => simp only [hstage] at h; cases h

/-- Without visits, the members of a run stay as they are. -/
theorem members_give_of_entry (h : run.entry context world = none) :
    (run.give behave turn context world).run.members = run.members := by
  rw [entry] at h
  rw [give, poll]
  cases hstage : run.stage with
  | fresh =>
    simp only [hstage] at h ⊢
    cases hopen : run.open context world with
    | error refusal => rfl
    | ok opened => rw [hopen] at h; cases h
  | «open» gate own => simp only [hstage] at h; cases h
  | closed => rfl

/-- A stretch is its visits, and then the end of the run if it has come. -/
theorem visitAll_eq (behave : σ → Poll σ) (run : Run σ) (turn : Turn) (context : Context)
    (floor : Floor) :
    let log := Member.visits behave ⟨run.plan, context, turn⟩ [] floor run.members
    let left := Visit.floorLeft floor log
    let members := Visit.membersLeft run.members log
    run.visitAll (run.members.map fun member => behave member.process) turn context floor =
      match conclude run.plan.order context.session.id left members with
      | none => ⟨⟨run.plan, .open left.gate left.own, members⟩, left.state, left.world, none⟩
      | some (result, floor) =>
        ⟨⟨run.plan, .closed, members⟩, floor.state, floor.world,
          some (result.mapError .ledger)⟩ := by
  intro log left members
  cases horder : run.plan.order with
  | parallel workers =>
    have hleft : left = _ ∧ members = _ :=
      Member.left_visits_parallel ⟨run.plan, context, turn⟩ horder [] floor run.members
    simp only [visitAll, horder, hleft]
    rfl
  | sequential =>
    have hleft : left = _ ∧ members = _ :=
      Member.left_visits_sequential ⟨run.plan, context, turn⟩ horder [] floor run.members
    simp only [visitAll, horder, hleft]
    rfl

/-- How a run is over: side by side, once all its members have settled; one after another,
once one of them has failed, or all have settled and none has failed. -/
inductive Concluded (id : String) (floor : Floor) (members : List (Member σ)) :
    Order → Except LedgerError Report × Floor → Prop
  | parallel (workers : Nat) (hall : ∀ member ∈ members, member.phase.settlement?.isSome) :
    Concluded id floor members (.parallel workers) (concludeParallel id floor members)
  | stopped (failure : Nat × Definition × String)
      (hfailure : firstFailure? members = some failure) :
    Concluded id floor members .sequential (concludeStopped id floor members failure)
  | completed (hnone : firstFailure? members = none)
      (hall : ∀ member ∈ members, member.phase.settlement?.isSome) :
    Concluded id floor members .sequential (concludeCompleted id floor members)

theorem concluded_of_conclude {order : Order} {id : String} {floor : Floor}
    {members : List (Member σ)} {concluded : Except LedgerError Report × Floor}
    (h : conclude order id floor members = some concluded) :
    Concluded id floor members order concluded := by
  unfold conclude at h
  cases order with
  | parallel workers =>
    simp only at h
    split at h
    next hall =>
      obtain rfl := Option.some.inj h
      exact .parallel workers (by simpa using hall)
    next => cases h
  | sequential =>
    simp only at h
    split at h
    next failure hfailure =>
      obtain rfl := Option.some.inj h
      exact .stopped failure hfailure
    next hnone =>
      split at h
      next hall =>
        obtain rfl := Option.some.inj h
        exact .completed hnone (by simpa using hall)
      next => cases h

/-- How a stretch ends in which visits have left a floor and members as `P` says. -/
inductive Arrives (P : Floor → List (Member σ) → Prop) (plan : Plan) (id : String) (step : Step σ) :
    Prop
  /-- The run is not over. -/
  | underway (floor : Floor) (members : List (Member σ)) (hP : P floor members)
      (hconclude : conclude plan.order id floor members = none)
      (hstep : step = ⟨⟨plan, .open floor.gate floor.own, members⟩, floor.state, floor.world, none⟩)
  /-- The run is over. -/
  | over (floor after : Floor) (members : List (Member σ)) (result : Except LedgerError Report)
      (hP : P floor members)
      (hconclude : conclude plan.order id floor members = some (result, after))
      (hstep : step =
        ⟨⟨plan, .closed, members⟩, after.state, after.world, some (result.mapError .ledger)⟩)

theorem Arrives.imp {P Q : Floor → List (Member σ) → Prop} {plan : Plan} {id : String}
    {step : Step σ} (h : Arrives P plan id step)
    (himp : ∀ floor members, P floor members → Q floor members) : Arrives Q plan id step := by
  rcases h with ⟨floor, members, hP, hconclude, hstep⟩ |
    ⟨floor, after, members, result, hP, hconclude, hstep⟩
  · exact .underway floor members (himp _ _ hP) hconclude hstep
  · exact .over floor after members result (himp _ _ hP) hconclude hstep

/-- If the run has ended with a report, `P` is so of what was brought to that end. -/
theorem Arrives.of_ok {P : Floor → List (Member σ) → Prop} {plan : Plan} {id : String}
    {step : Step σ} (h : Arrives P plan id step) {report : Report}
    (hresult : step.result = some (.ok report)) :
    ∃ floor after, P floor step.run.members ∧
      conclude plan.order id floor step.run.members = some (.ok report, after) := by
  rcases h with ⟨_, _, -, -, hstep⟩ | ⟨floor, after, members, result, hP, hconclude, hstep⟩
  · simp [hstep] at hresult
  · cases result with
    | error error => simp [hstep, Except.mapError] at hresult
    | ok reported =>
      obtain rfl : reported = report := by simpa [hstep, Except.mapError] using hresult
      rw [hstep]
      exact ⟨floor, after, hP, hconclude⟩

/-- If the run is not over, it goes on from a floor of which `P` is so. -/
theorem Arrives.of_none {P : Floor → List (Member σ) → Prop} {plan : Plan} {id : String}
    {step : Step σ} (h : Arrives P plan id step) (hresult : step.result = none) :
    ∃ floor, P floor step.run.members ∧ step.run.stage = .open floor.gate floor.own ∧
      step.world = floor.world := by
  rcases h with ⟨floor, members, hP, -, hstep⟩ | ⟨_, _, _, _, -, -, hstep⟩
  · rw [hstep]
    exact ⟨floor, hP, rfl, rfl⟩
  · simp [hstep] at hresult

/-- What every visit goes on with, of the visits so far, is so at every visit and at the end
of the stretch. -/
theorem give_account {P : List (Visit σ) → Context → Floor → List (Member σ) → Prop}
    (seen : List (Visit σ)) (hentry : run.entry context world = some floor)
    (hvisit : ∀ visit ∈ run.visits behave turn context world, ∀ before,
      P before visit.scope.context visit.floor visit.members →
      P (before ++ [visit]) visit.scope.context visit.after.1 visit.left)
    (h : P seen context floor run.members) :
    (∀ visit ∈ run.visits behave turn context world,
      ∃ before, P before visit.scope.context visit.floor visit.members) ∧
      Arrives (P (seen ++ run.visits behave turn context world) context) run.plan
        context.session.id (run.give behave turn context world) := by
  rw [visits_of_entry hentry] at hvisit ⊢
  rw [give_of_entry hentry, visitAll_eq]
  have hscope : ∀ visit ∈ Member.visits behave ⟨run.plan, context, turn⟩ [] floor run.members,
      visit.scope.context = context := fun visit hmem => by rw [(Member.of_mem_visits hmem).1]
  obtain ⟨hvisits, hleft⟩ := Member.visits_account (P := fun before => P before context) seen
    (fun visit hmem => hscope visit hmem ▸ hvisit visit hmem)
    (show P seen context floor ([] ++ run.members) from h)
  refine ⟨fun visit hmem => (hscope visit hmem).symm ▸ hvisits visit hmem, ?_⟩
  split
  next hconclude => exact .underway _ _ hleft hconclude rfl
  next result after hconclude => exact .over _ after _ result hleft hconclude rfl

/-- What every visit keeps holds at every visit and at the end of the stretch. -/
theorem give_induction {P : Context → Floor → List (Member σ) → Prop}
    (hentry : run.entry context world = some floor)
    (hvisit : ∀ visit ∈ run.visits behave turn context world,
      P visit.scope.context visit.floor visit.members →
      P visit.scope.context visit.after.1 visit.left)
    (h : P context floor run.members) :
    (∀ visit ∈ run.visits behave turn context world,
      P visit.scope.context visit.floor visit.members) ∧
      Arrives (P context) run.plan context.session.id (run.give behave turn context world) := by
  obtain ⟨hvisits, harrives⟩ := give_account (P := fun _ => P) [] hentry
    (fun visit hmem _ => hvisit visit hmem) h
  exact ⟨fun visit hmem => (hvisits visit hmem).choose_spec, harrives⟩

/-- The members of a run are as the visits of a stretch leave them. -/
theorem members_give (behave : σ → Poll σ) (run : Run σ) (turn : Turn) (context : Context)
    (world : World) : (run.give behave turn context world).run.members =
      Visit.membersLeft run.members (run.visits behave turn context world) := by
  cases hentry : run.entry context world with
  | none =>
    rw [members_give_of_entry hentry, visits, hentry]
    rfl
  | some entry =>
    rw [give_of_entry hentry, visitAll_eq, visits_of_entry hentry]
    split <;> rfl

theorem plan_give (behave : σ → Poll σ) (run : Run σ) (turn : Turn) (context : Context)
    (world : World) : (run.give behave turn context world).run.plan = run.plan := by
  rw [give, poll]
  split
  · split
    · rfl
    · rw [visitAll_eq]
      split <;> rfl
  · rw [visitAll_eq]
    split <;> rfl
  · rfl

theorem consecutive_visits (behave : σ → Poll σ) (run : Run σ) (turn : Turn) (context : Context)
    (world : World) : Visit.Consecutive run.members (run.visits behave turn context world) := by
  rw [visits]
  split
  · exact Member.consecutive_visits [] _ _
  · trivial

/-- A run that is not over after a stretch has visited members in it. -/
theorem entry_of_none (hstage : run.stage ≠ .closed)
    (hresult : (run.give behave turn context world).result = none) :
    (∃ floor, run.entry context world = some floor) ∧
      (run.give behave turn context world).run.stage ≠ .closed := by
  cases hentry : run.entry context world with
  | none =>
    rw [entry] at hentry
    rw [give, poll] at hresult
    cases hfresh : run.stage with
    | fresh =>
      simp only [hfresh] at hentry hresult
      cases hopen : run.open context world with
      | error refusal => simp [hopen] at hresult
      | ok opened => simp [hopen, Except.toOption] at hentry
    | «open» => simp [hfresh] at hentry
    | closed => exact absurd hfresh hstage
  | some floor =>
    refine ⟨⟨floor, rfl⟩, ?_⟩
    rw [give_of_entry hentry, visitAll_eq] at hresult ⊢
    split at hresult
    · simp
    · cases hresult

theorem front_of_mem_visits {Q : Member σ → Prop}
    (hvisit : ∀ visit ∈ run.visits behave turn context world,
      visit.after.2.passes run.plan.order → Q visit.after.2) :
    ∀ visit ∈ run.visits behave turn context world, ∀ member ∈ visit.front, Q member := by
  rw [visits] at hvisit ⊢
  split
  next hentry =>
    rw [hentry] at hvisit
    exact Member.front_of_mem_visits hvisit fun _ hmem => absurd hmem List.not_mem_nil
  next => exact fun _ hmem => absurd hmem List.not_mem_nil

theorem of_mem_visits {visit : Visit σ} (h : visit ∈ run.visits behave turn context world) :
    visit.scope = ⟨run.plan, context, turn⟩ ∧
      visit.after = Member.visitBy visit.scope visit.index (behave visit.member.process)
        visit.floor visit.member ∧
      visit.after.2 ∈ (run.give behave turn context world).run.members := by
  cases hentry : run.entry context world with
  | none =>
    rw [visits, hentry] at h
    cases h
  | some floor =>
    rw [members_give, visits_of_entry hentry]
    rw [visits_of_entry hentry] at h
    obtain ⟨hscope, hafter⟩ := Member.of_mem_visits h
    exact ⟨hscope, hscope ▸ hafter, Member.after_mem_membersLeft h⟩

end Run

/-! ## Whole runs -/

/-- Whether a visit is one of a stretch of a run. -/
structure Visit.Of (behave : σ → Poll σ) (plan : Plan) (context : Context) (stretch : Stretch σ)
    (visit : Visit σ) : Prop where
  scope : visit.scope = ⟨plan, context.withState stretch.state, stretch.turn⟩
  after : visit.after = Member.visitBy visit.scope visit.index (behave visit.member.process)
    visit.floor visit.member
  /-- The member stays as it is to the end of the stretch. -/
  kept : visit.after.2 ∈ stretch.step.run.members

namespace Run

variable {behave : σ → Poll σ} {context : Context}

/-- The run as a history has left it. -/
def latest (start : Run σ) : List (Stretch σ) → Run σ
  | [] => start
  | last :: _ => last.step.run

/-- The visits of all stretches of a history, which has the latest stretch
first, in the order in which they were made. -/
def log (behave : σ → Poll σ) (context : Context) (start : Run σ) :
    List (Stretch σ) → List (Visit σ)
  | [] => []
  | stretch :: past => log behave context start past ++
      (latest start past).visits behave stretch.turn (context.withState stretch.state) stretch.world

/-- How a stretch of a run ends: the run is not opened, or its visits leave it as `P` says. -/
inductive Comes (P : Floor → List (Member σ) → Prop) (start : Run σ) (context : Context)
    (stretch : Stretch σ) : Prop
  | refused (error : RunError) (world : World)
      (hopen : start.open (context.withState stretch.state) stretch.world = .error (error, world))
      (hstep : stretch.step =
        ⟨{ start with stage := .closed }, stretch.state, world, some (.error error)⟩)
  | visited (harrives : Arrives P start.plan context.session.id stretch.step)

theorem Comes.imp {P Q : Floor → List (Member σ) → Prop} {start : Run σ} {context : Context}
    {stretch : Stretch σ} (h : Comes P start context stretch)
    (himp : ∀ floor members, P floor members → Q floor members) :
    Comes Q start context stretch := by
  cases h with
  | refused error world hopen hstep => exact .refused error world hopen hstep
  | visited harrives => exact .visited (harrives.imp himp)

/-- A run that has not failed was opened. -/
theorem Comes.arrives {P : Floor → List (Member σ) → Prop} {start : Run σ} {context : Context}
    {stretch : Stretch σ} (h : Comes P start context stretch)
    (hresult : ∀ error, stretch.step.result ≠ some (.error error)) :
    Arrives P start.plan context.session.id stretch.step := by
  cases h with
  | refused error _ _ hstep => exact absurd (by rw [hstep]) (hresult error)
  | visited harrives => exact harrives

/-- So a stretch leaves the members as they were at first, or as `P` says. -/
theorem Comes.members {P : Floor → List (Member σ) → Prop} {start : Run σ} {context : Context}
    {stretch : Stretch σ} (h : Comes P start context stretch) :
    stretch.step.run.members = start.members ∨ ∃ floor, P floor stretch.step.run.members := by
  rcases h with ⟨_, _, -, hstep⟩ | ⟨⟨floor, _, hP, -, hstep⟩ | ⟨floor, _, _, _, hP, -, hstep⟩⟩
  · exact .inl (by rw [hstep])
  · exact .inr ⟨floor, by rwa [hstep]⟩
  · exact .inr ⟨floor, by rwa [hstep]⟩

namespace History

variable {start : Run σ} {history : List (Stretch σ)}

/-- A history is told stretch by stretch. -/
theorem stretch_induction {motive : List (Stretch σ) → Prop} (nil : motive [])
    (cons : ∀ past turn state world, motive past → motive (⟨turn, state, world,
      (latest start past).give behave turn (context.withState state) world⟩ :: past))
    (h : History behave context start history) : motive history := by
  induction h with
  | first turn state world => exact cons [] turn state world nil
  | @next last past _ _ turn state world ih => exact cons (last :: past) turn state world ih

/-- A history leaves the members as its visits do. -/
theorem members_latest (h : History behave context start history) :
    (latest start history).members =
      Visit.membersLeft start.members (log behave context start history) := by
  refine h.stretch_induction (motive := fun history => (latest start history).members =
    Visit.membersLeft start.members (log behave context start history)) rfl ?_
  intro past turn state world ih
  rw [log, Visit.membersLeft_append, ← ih]
  exact members_give ..

theorem plan_latest (h : History behave context start history) :
    (latest start history).plan = start.plan :=
  h.stretch_induction (motive := fun history => (latest start history).plan = start.plan) rfl
    fun _ _ _ _ ih => (plan_give ..).trans ih

/-- The visits of a log are consecutive. -/
theorem consecutive_log (h : History behave context start history) :
    Visit.Consecutive start.members (log behave context start history) := by
  induction h with
  | first turn state world => exact consecutive_visits ..
  | next h _ turn state world ih =>
    refine ih.append ?_
    rw [← h.members_latest]
    exact consecutive_visits ..

theorem of_mem_log (h : History behave context start history) {visit : Visit σ}
    (hmem : visit ∈ log behave context start history) :
    ∃ stretch ∈ history, visit.Of behave start.plan context stretch := by
  refine (h.stretch_induction (motive := fun history => (latest start history).plan = start.plan ∧
    ∀ visit ∈ log behave context start history, ∃ stretch ∈ history,
      visit.Of behave start.plan context stretch)
    ⟨rfl, fun _ hmem => absurd hmem List.not_mem_nil⟩ ?_).2 visit hmem
  rintro past turn state world ⟨hplan, ih⟩
  refine ⟨(plan_give ..).trans hplan, fun visit hmem => ?_⟩
  rcases List.mem_append.1 hmem with hpast | hnew
  · obtain ⟨stretch, hstretch, hvisit⟩ := ih visit hpast
    exact ⟨stretch, List.mem_cons_of_mem _ hstretch, hvisit⟩
  · obtain ⟨hscope, hafter, hkept⟩ := of_mem_visits hnew
    exact ⟨_, List.mem_cons_self, hplan ▸ hscope, hafter, hkept⟩

/-- Of whoever is visited in a stretch of a run, those before them have been
visited in it. -/
theorem front_of_mem_log {Q : Member σ → Prop} (h : History behave context start history)
    (hvisit : ∀ visit ∈ log behave context start history,
      visit.after.2.passes start.plan.order → Q visit.after.2) :
    ∀ visit ∈ log behave context start history, ∀ member ∈ visit.front, Q member := by
  refine (h.stretch_induction (motive := fun history => (latest start history).plan = start.plan ∧
    ((∀ visit ∈ log behave context start history,
        visit.after.2.passes start.plan.order → Q visit.after.2) →
      ∀ visit ∈ log behave context start history, ∀ member ∈ visit.front, Q member))
    ⟨rfl, fun _ _ hmem => absurd hmem List.not_mem_nil⟩ ?_).2 hvisit
  rintro past turn state world ⟨hplan, ih⟩
  refine ⟨(plan_give ..).trans hplan, fun hall visit hmem => ?_⟩
  rw [log, List.forall_mem_append] at hall
  rcases List.mem_append.1 hmem with hpast | hnew
  · exact ih hall.1 visit hpast
  · exact front_of_mem_visits (hplan.symm ▸ hall.2) visit hnew

/-- What is so of all who are visited in a parallel run, is so of all members at
the end of every stretch, up to the end of the run. -/
theorem forall_members {workers : Nat} {Q : Member σ → Prop}
    (horder : start.plan.order = .parallel workers) (hfresh : start.stage = .fresh)
    (h : History behave context start history)
    (hvisit : ∀ visit ∈ log behave context start history, Q visit.after.2) :
    ∀ stretch ∈ history, stretch.step.result = none →
      ∀ member ∈ stretch.step.run.members, Q member := by
  have hstretch : ∀ (run : Run σ) turn current world, run.plan = start.plan →
      run.stage ≠ .closed → (run.give behave turn current world).result = none →
      (∀ visit ∈ run.visits behave turn current world, Q visit.after.2) →
      ∀ member ∈ (run.give behave turn current world).run.members, Q member := by
    intro run turn current world hplan hstage hnone hall
    obtain ⟨floor, hentry⟩ := (entry_of_none hstage hnone).1
    rw [members_give]
    rw [visits_of_entry hentry] at hall ⊢
    refine Member.forall_membersLeft_visits (fun member => ?_) hall
      fun _ hmem => absurd hmem List.not_mem_nil
    simp [Member.passes, hplan, horder]
  -- A run that is given a further stretch is not closed.
  suffices hsuffices : (∀ stretch ∈ history, stretch.step.result = none →
      ∀ member ∈ stretch.step.run.members, Q member) ∧
      (latest start history).plan = start.plan ∧ ∀ last, history.head? = some last →
        last.step.result = none → last.step.run.stage ≠ .closed from hsuffices.1
  induction h with
  | first turn state world =>
    have hopen : start.stage ≠ .closed := by simp [hfresh]
    simp only [log, latest, List.nil_append, List.forall_mem_singleton] at hvisit ⊢
    refine ⟨fun hnone => hstretch start turn _ world rfl hopen hnone hvisit, plan_give .., ?_⟩
    rintro _ ⟨⟩ hnone
    exact (entry_of_none hopen hnone).2
  | @next last past h hresult turn state world ih =>
    rw [log, List.forall_mem_append] at hvisit
    obtain ⟨hpast, hplan, hlast⟩ := ih hvisit.1
    have hopen := hlast last rfl hresult
    refine ⟨List.forall_mem_cons.2 ⟨fun hnone =>
      hstretch _ turn _ world hplan hopen hnone hvisit.2, hpast⟩, (plan_give ..).trans hplan, ?_⟩
    rintro _ ⟨⟩ hnone
    exact (entry_of_none hopen hnone).2

/-- A run that is not over after a stretch is under way. -/
theorem stage_of_none {last : Stretch σ} {past : List (Stretch σ)}
    (h : History behave context start (last :: past)) (hfresh : start.stage = .fresh)
    (hresult : last.step.result = none) : ∃ gate own, last.step.run.stage = .open gate own := by
  have hstretch : ∀ (run : Run σ) turn current world, run.stage ≠ .closed →
      (run.give behave turn current world).result = none →
      ∃ gate own, (run.give behave turn current world).run.stage = .open gate own := by
    intro run turn current world hstage hnone
    obtain ⟨floor, hentry⟩ := (entry_of_none hstage hnone).1
    rw [give_of_entry hentry, visitAll_eq] at hnone ⊢
    split at hnone
    · exact ⟨_, _, rfl⟩
    · cases hnone
  generalize hhistory : last :: past = history at h
  induction h generalizing last past with
  | first turn state world =>
    cases hhistory
    exact hstretch start turn _ world (by simp [hfresh]) hresult
  | @next earlier before h hopen turn state world ih =>
    cases hhistory
    obtain ⟨gate, own, hstage⟩ := ih hopen rfl
    exact hstretch _ turn _ world (by simp [hstage]) hresult

/-- What is so when a run is opened, and what every visit goes on with, of the visits so
far, and whatever happens between two stretches keeps, is so at every visit and at the end
of every stretch. It may be about the context in which the run is given the stretch.
`S` says what the first stretch finds, and `R` what the next one finds as the
one before it has left it. -/
theorem log_account {P : List (Visit σ) → Context → Floor → List (Member σ) → Prop}
    {S : KeyMap String → World → Prop} {R : KeyMap String → World → KeyMap String → World → Prop}
    (hfresh : start.stage = .fresh)
    (hkeyed : ∀ before current floor members, P before current floor members →
      floor.keyed = members.any fun member => member.definition.outputKey.isSome)
    (hopen : ∀ state world floor, S state world →
      start.open (context.withState state) world = .ok floor →
      P [] (context.withState state) floor start.members)
    (hvisit : ∀ visit ∈ log behave context start history, ∀ before,
      P before visit.scope.context visit.floor visit.members →
      P (before ++ [visit]) visit.scope.context visit.after.1 visit.left)
    (hfirst : ∀ first, history.getLast? = some first → S first.state first.world)
    (hrely : history.IsChain fun later earlier =>
      R earlier.step.state earlier.step.world later.state later.world)
    (hresume : ∀ before current floor members state world, P before current floor members →
      R floor.state floor.world state world →
      P before (context.withState state) { floor with state, world } members)
    (h : History behave context start history) :
    (∀ visit ∈ log behave context start history,
      ∃ before, P before visit.scope.context visit.floor visit.members) ∧
      (∀ stretch ∈ history, ∃ before,
        Comes (P before (context.withState stretch.state)) start context stretch) ∧
      ∀ last, history.head? = some last →
        Arrives (P (log behave context start history) (context.withState last.state)) start.plan
            context.session.id last.step ∨
          history = [last] ∧ log behave context start history = [] ∧ ∃ refusal,
            start.open (context.withState last.state) last.world = .error refusal ∧
            last.step =
              ⟨{ start with stage := .closed }, last.state, refusal.2,
                some (.error refusal.1)⟩ := by
  induction h with
  | first turn state world =>
    have hopened := fun floor => hopen state world floor (hfirst _ rfl)
    simp only [log, latest, List.nil_append] at hvisit ⊢
    rw [List.forall_mem_singleton]
    cases hresult : start.open (context.withState state) world with
    | error refusal =>
      obtain ⟨hlog, hstep⟩ :
          start.visits behave turn (context.withState state) world = [] ∧ _ :=
        give_of_refused hfresh hresult
      refine ⟨by simp [hlog], ⟨[], .refused refusal.1 refusal.2 hresult hstep⟩, ?_⟩
      rintro _ ⟨⟩
      exact .inr ⟨rfl, hlog, refusal, hresult, hstep⟩
    | ok floor =>
      obtain ⟨hvisits, harrives⟩ := give_account [] (entry_of_open hfresh hresult) hvisit
        (hopened floor hresult)
      rw [List.nil_append] at harrives
      exact ⟨hvisits, ⟨_, .visited harrives⟩, by rintro _ ⟨⟩; exact .inl harrives⟩
  | @next last past h hresult turn state world ih =>
    rw [log, List.forall_mem_append] at hvisit ⊢
    rw [List.isChain_cons_cons] at hrely
    obtain ⟨hpast, hstretches, hlast⟩ := ih hvisit.1 (by simpa using hfirst) hrely.2
    rcases hlast last rfl with (⟨floor, members, hP, -, hstep⟩ | ⟨_, _, _, _, -, -, hstep⟩) |
      ⟨-, -, _, -, hstep⟩
    · -- The next stretch begins where this one ended, but for what is outside of the run.
      have hentry : last.step.run.entry (context.withState state) world =
          some { floor with state, world } := by
        simp only [entry, hstep, isKeyed, ← hkeyed _ _ floor members hP]
        rfl
      have hnext : P (log behave context start (last :: past)) (context.withState state)
          { floor with state, world } last.step.run.members := by
        have hrely := hrely.1
        rw [hstep] at hrely ⊢
        exact hresume _ _ floor members state world hP hrely
      obtain ⟨hvisits, hnew⟩ := give_account _ hentry hvisit.2 hnext
      have hplan : last.step.run.plan = start.plan := by rw [hstep]
      rw [hplan] at hnew
      exact ⟨⟨hpast, hvisits⟩, List.forall_mem_cons.2 ⟨⟨_, .visited hnew⟩, hstretches⟩,
        fun latest hlatest => by obtain rfl := Option.some.inj hlatest; exact .inl hnew⟩
    · rw [hstep] at hresult
      cases hresult
    · rw [hstep] at hresult
      cases hresult

/-- What is so when a run is opened, and what every visit and whatever happens
between two stretches keep, holds at every visit and at the end of every
stretch. It may be about the context in which the run is given the stretch.
`S` says what the first stretch finds, and `R` what the next one finds as the
one before it has left it. -/
theorem log_invariant {P : Context → Floor → List (Member σ) → Prop}
    {S : KeyMap String → World → Prop} {R : KeyMap String → World → KeyMap String → World → Prop}
    (hfresh : start.stage = .fresh)
    (hkeyed : ∀ current floor members, P current floor members →
      floor.keyed = members.any fun member => member.definition.outputKey.isSome)
    (hopen : ∀ state world floor, S state world →
      start.open (context.withState state) world = .ok floor →
      P (context.withState state) floor start.members)
    (hvisit : ∀ visit ∈ log behave context start history,
      P visit.scope.context visit.floor visit.members →
      P visit.scope.context visit.after.1 visit.left)
    (hfirst : ∀ first, history.getLast? = some first → S first.state first.world)
    (hrely : history.IsChain fun later earlier =>
      R earlier.step.state earlier.step.world later.state later.world)
    (hresume : ∀ current floor members state world, P current floor members →
      R floor.state floor.world state world →
      P (context.withState state) { floor with state, world } members)
    (h : History behave context start history) :
    (∀ visit ∈ log behave context start history,
      P visit.scope.context visit.floor visit.members) ∧
      ∀ stretch ∈ history, Comes (P (context.withState stretch.state)) start context stretch := by
  obtain ⟨hvisits, hstretches, -⟩ := h.log_account (P := fun _ => P) hfresh (fun _ => hkeyed) hopen
    (fun visit hmem _ => hvisit visit hmem) hfirst hrely (fun _ => hresume)
  exact ⟨fun visit hmem => (hvisits visit hmem).choose_spec,
    fun stretch hmem => (hstretches stretch hmem).choose_spec⟩

/-- The same for what does not depend on the values that the stretches find. -/
theorem log_induction {P : Context → Floor → List (Member σ) → Prop} {R : World → World → Prop}
    (hfresh : start.stage = .fresh)
    (hkeyed : ∀ current floor members, P current floor members →
      floor.keyed = members.any fun member => member.definition.outputKey.isSome)
    (hopen : ∀ state world floor, start.open (context.withState state) world = .ok floor →
      P (context.withState state) floor start.members)
    (hvisit : ∀ visit ∈ log behave context start history,
      P visit.scope.context visit.floor visit.members →
      P visit.scope.context visit.after.1 visit.left)
    (hrely : history.IsChain fun later earlier => R earlier.step.world later.world)
    (hresume : ∀ current floor members state world, P current floor members →
      R floor.world world → P (context.withState state) { floor with state, world } members)
    (h : History behave context start history) :
    (∀ visit ∈ log behave context start history,
      P visit.scope.context visit.floor visit.members) ∧
      ∀ stretch ∈ history, Comes (P (context.withState stretch.state)) start context stretch :=
  h.log_invariant (S := fun _ _ => True) (R := fun _ before _ after => R before after) hfresh hkeyed
    (fun state world floor _ => hopen state world floor) hvisit (fun _ _ => trivial) hrely hresume

end History

end Run

end Coordination
