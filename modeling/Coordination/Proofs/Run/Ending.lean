import Mathlib.Logic.Relation
import Coordination.Proofs.Run.Agreement
import Coordination.Proofs.Run.Line

/-!
# Runs that come to an end

A task terminates if it comes to an end whenever everybody goes on for long
enough (`Terminates`), as every body does (`Leaf.acc_dwindles`). A run of such
tasks side by side comes to an end too. While it is not over, one of its members
is under way or has a slot waiting for it, so a stretch in which everybody goes
on brings one of them further (`Run.give_moves`), and none can be brought further
for ever (`Run.acc_moves`).

* `Member.acc_nears`, `Run.acc_moves`: members that cannot go on for ever;
* `Member.visit_nears`, `Member.visits_moves`: what a visit and a stretch bring further;
* `Run.History.comes_to_end`: every history of a parallel run leads on to an end.
-/

namespace Coordination

variable {σ : Type}

/-! ## Tasks that terminate -/

/-- The turn in which everybody goes on. -/
def Turn.everyone : Turn := ⟨fun _ _ => true, fun _ => true⟩

/-- What is left of a task after a stretch in which everybody goes on, if the task
is not at its end then. -/
def Dwindles (behave : σ → Poll σ) (later task : σ) : Prop :=
  ∃ context world, (behave task .everyone context world).outcome = .pending ∧
    (behave task .everyone context world).process = later

/-- Whatever has become of a task, it comes to an end if everybody goes on. -/
def Terminates (behave : σ → Poll σ) (task : σ) : Prop :=
  ∀ traced, Traced.Follows behave task traced → Acc (Dwindles behave) traced.task

namespace Leaf

/-- In such a stretch a body goes on from where it waits. -/
theorem poll_everyone (leaf : Leaf) (context : Context) (world : World) :
    leaf.poll .everyone context world = leaf.body.advance context world [] := by
  unfold Leaf.poll
  split <;> rfl

theorem acc_of_advance {body : Body}
    (h : ∀ context world events, (body.advance context world events).outcome = .pending →
      Acc (Dwindles Leaf.poll) (body.advance context world events).process) (due : Option Nat) :
    Acc (Dwindles Leaf.poll) ⟨body, due⟩ := by
  refine .intro _ ?_
  rintro _ ⟨context, world, hpending, rfl⟩
  rw [poll_everyone] at hpending ⊢
  exact h context world [] hpending

theorem acc_advance {body : Body} (context : Context) (world : World) (events : List Event)
    (h : (body.advance context world events).outcome = .pending) :
    Acc (Dwindles Leaf.poll) (body.advance context world events).process := by
  induction body generalizing context world events with
  | finish => cases h
  | fail error rest => cases h
  | pause millis rest ih => exact acc_of_advance ih _
  | emit event rest ih => exact ih context world (events ++ [event]) h
  | look next ih => exact ih context context world events h
  | write key value rest ih => exact ih (context.set key value) world events h
  | note task text rest ih => exact ih context (world.note context.session.id task text) events h
  | operate op next ih =>
    exact ih (world.operate op).1 context (world.operate op).2 events h

/-- A body has finitely many steps. -/
theorem acc_dwindles (leaf : Leaf) : Acc (Dwindles Leaf.poll) leaf :=
  acc_of_advance acc_advance leaf.due

end Leaf

theorem Leaf.terminates (leaf : Leaf) : Terminates Leaf.poll leaf :=
  fun traced _ => traced.task.acc_dwindles

/-! ## Members -/

namespace Member

/-- How far a member has come from where it was: to the line, on with its task, or
to its end. -/
inductive Nears (behave : σ → Poll σ) (later member : Member σ) : Prop
  | comes (hphase : member.phase = .idle) (hwaits : later.phase = .waiting)
      (hprocess : later.process = member.process)
  | goesOn (hunsettled : member.phase.settlement? = none) (hrunning : later.phase.isRunning)
      (hprocess : Dwindles behave later.process member.process)
  | settles (hunsettled : member.phase.settlement? = none)
      (hsettled : later.phase.settlement?.isSome)

section Nears

variable {behave : σ → Poll σ}

theorem acc_nears_of_settled {member : Member σ} (h : member.phase.settlement?.isSome) :
    Acc (Nears behave) member := by
  refine .intro _ fun later hnears => ?_
  cases hnears with
  | comes hphase => simp [hphase, Phase.settlement?] at h
  | goesOn hunsettled | settles hunsettled => simp [hunsettled] at h

theorem acc_nears_of_come {task : σ} (hacc : Acc (Dwindles behave) task) {member : Member σ}
    (hprocess : member.process = task) (hcome : member.phase ≠ .idle) :
    Acc (Nears behave) member := by
  induction hacc generalizing member with
  | intro task _ ih =>
    subst hprocess
    refine .intro _ fun later hnears => ?_
    cases hnears with
    | comes hphase => exact absurd hphase hcome
    | goesOn _ hrunning hdwindles =>
      refine ih later.process hdwindles rfl ?_
      rintro hidle
      simp [hidle, Phase.isRunning] at hrunning
    | settles _ hsettled => exact acc_nears_of_settled hsettled

/-- A member does not go on for ever if its task does not. -/
theorem acc_nears {member : Member σ} (hacc : Acc (Dwindles behave) member.process) :
    Acc (Nears behave) member := by
  by_cases hidle : member.phase = .idle
  · refine .intro _ fun later hnears => ?_
    cases hnears with
    | comes _ hwaits hprocess =>
      exact acc_nears_of_come hacc hprocess (by simp [hwaits])
    | goesOn _ hrunning hdwindles =>
      refine acc_nears_of_come (hacc.inv hdwindles) rfl ?_
      rintro hphase
      simp [hphase, Phase.isRunning] at hrunning
    | settles _ hsettled => exact acc_nears_of_settled hsettled
  · exact acc_nears_of_come hacc rfl hidle

variable (behave) {scope : Scope} (hturn : scope.turn = .everyone) (index : Nat) (floor : Floor)
  (member : Member σ)
include hturn

theorem proceed_nears (hunsettled : member.phase.settlement? = none) (access : Access)
    (events : List Event) :
    Nears behave (proceed scope index (behave member.process) floor member access events).2
      member := by
  have hbelow : scope.turn.below index = .everyone := by rw [hturn]; rfl
  cases access with
  | own draft context =>
    simp only [proceed, hbelow]
    split
    next hpending => exact .goesOn hunsettled rfl ⟨context, floor.world, hpending, rfl⟩
    next => exact .settles hunsettled (settled_succeed ..)
    next => exact .settles hunsettled (settled_fail ..)
  | shared instruction =>
    simp only [proceed, hbelow]
    split
    next hpending => exact .goesOn hunsettled rfl ⟨_, floor.world, hpending, rfl⟩
    next => exact .settles hunsettled (settled_succeed ..)
    next => exact .settles hunsettled (settled_fail ..)

theorem start_nears (hunsettled : member.phase.settlement? = none) :
    Nears behave (start scope index (behave member.process) floor member).2 member := by
  unfold start
  split
  · simp only
    split
    · exact .settles hunsettled (settled_fail ..)
    · split
      · exact .settles hunsettled (settled_fail ..)
      · exact proceed_nears behave hturn index _ member hunsettled _ _
  · split
    · exact .settles hunsettled (settled_fail ..)
    · exact proceed_nears behave hturn index floor member hunsettled _ _

/-- In such a stretch only those do not come further who have settled, or wait
without a slot. -/
theorem visit_nears :
    Nears behave (visit scope index (behave member.process) floor member).2 member ∨
      visit scope index (behave member.process) floor member = (floor, member) ∧
        (member.phase.settlement?.isSome ∨
          member.phase = .waiting ∧ index ∉ floor.gate.handed) := by
  unfold visit
  cases hphase : member.phase with
  | idle =>
    have hunsettled : member.phase.settlement? = none := by rw [hphase]; rfl
    simp only
    split
    · rw [snd_freeSlot]
      exact .inl (start_nears behave hturn index _ member hunsettled)
    · exact .inl (.comes hphase rfl rfl)
  | waiting =>
    have hunsettled : member.phase.settlement? = none := by rw [hphase]; rfl
    have hadmits : scope.turn.admits [index] = true := by rw [hturn]; rfl
    simp only [hadmits, if_true]
    by_cases hhanded : index ∈ floor.gate.handed
    · simp only [Gate.claim, if_pos hhanded, snd_freeSlot]
      exact .inl (start_nears behave hturn index _ member hunsettled)
    · simp only [Gate.claim, if_neg hhanded]
      exact .inr ⟨trivial, .inr ⟨trivial, hhanded⟩⟩
  | running access events =>
    simp only [snd_freeSlot]
    exact .inl (proceed_nears behave hturn index floor member (by rw [hphase]; rfl) _ _)
  | settled settlement => exact .inr ⟨rfl, .inl rfl⟩

end Nears

end Member

/-! ## Runs -/

namespace Run

/-- One of the members has come further. -/
def Moves (behave : σ → Poll σ) (later members : List (Member σ)) : Prop :=
  ∃ (index : Nat) (member next : Member σ), members[index]? = some member ∧
    next.Nears behave member ∧ later = members.set index next

/-- None of the members goes on for ever if no task does. -/
theorem acc_moves {behave : σ → Poll σ} {members : List (Member σ)}
    (h : ∀ member ∈ members, Acc (Dwindles behave) member.process) :
    Acc (Moves behave) members := by
  induction members with
  | nil =>
    refine .intro _ ?_
    rintro _ ⟨index, member, next, hget, -⟩
    cases hget
  | cons first rest ih =>
    rw [List.forall_mem_cons] at h
    have hrest := ih h.2
    have hfirst := Member.acc_nears h.1
    clear ih h
    -- Either the first member comes further, or one of the rest does.
    induction hfirst generalizing rest with
    | intro first _ ihfirst =>
      induction hrest with
      | intro rest hacc ihrest =>
        refine .intro _ ?_
        rintro _ ⟨index, member, next, hget, hnears, rfl⟩
        cases index with
        | zero =>
          obtain rfl : first = member := by simpa using hget
          exact ihfirst next hnears rest (.intro rest hacc)
        | succ index => exact ihrest _ ⟨index, member, next, hget, hnears, rfl⟩

end Run

namespace Member

/-- In a stretch in which everybody goes on, some member comes further, or all
have settled or wait without a slot. -/
theorem visits_moves (behave : σ → Poll σ) (scope : Scope) {workers : Nat}
    (horder : scope.plan.order = .parallel workers) (hturn : scope.turn = .everyone)
    (front : List (Member σ)) (floor : Floor) (rest : List (Member σ)) :
    let left := Visit.membersLeft (front ++ rest) (visits behave scope front floor rest)
    Relation.TransGen (Run.Moves behave) left (front ++ rest) ∨
      left = front ++ rest ∧ ∀ (index : Nat) (member : Member σ), rest[index]? = some member →
        member.phase.settlement?.isSome ∨
          member.phase = .waiting ∧ front.length + index ∉ floor.gate.handed := by
  induction rest generalizing front floor with
  | nil => exact .inr ⟨rfl, fun _ _ hget => by cases hget⟩
  | cons member rest ih =>
    have hvisit := visit_nears behave hturn front.length floor member
    have hpasses : ∀ member : Member σ, member.passes scope.plan.order := by
      simp [passes, horder]
    simp only [visits, Visit.membersLeft_cons, Visit.left, visitBy, horder]
    simp only [← horder, hpasses, if_true]
    generalize visit scope front.length (behave member.process) floor member = after at hvisit ⊢
    rw [List.append_cons front after.2 rest]
    rcases hvisit with hnears | ⟨rfl, hstays⟩
    · have hmoves : Run.Moves behave (front ++ [after.2] ++ rest) (front ++ member :: rest) :=
        ⟨front.length, member, after.2, by simp, hnears, by simp⟩
      rcases ih (front ++ [after.2]) after.1 with hlater | ⟨hsame, -⟩
      · exact .inl (hlater.tail hmoves)
      · rw [hsame]
        exact .inl (.single hmoves)
    · rw [List.append_cons front member rest]
      rcases ih (front ++ [member]) floor with hlater | ⟨hsame, hothers⟩
      · exact .inl hlater
      · refine .inr ⟨hsame, fun index other hget => ?_⟩
        cases index with
        | zero =>
          obtain rfl : member = other := by simpa using hget
          exact hstays
        | succ index =>
          have := hothers index other hget
          rwa [List.length_append, List.length_singleton, Nat.add_assoc, Nat.add_comm 1] at this

end Member

namespace Run

/-- A stretch in which everybody goes on brings a parallel run further in which
some member is under way, or waits with a slot handed to it. -/
theorem give_moves {behave : σ → Poll σ} {run : Run σ} {workers : Nat} {gate : Gate Nat}
    {own : Option Ledger} (horder : run.plan.order = .parallel workers)
    (hstage : run.stage = .open gate own) {index : Nat} {member : Member σ}
    (hget : run.members[index]? = some member)
    (hbusy : member.phase.isRunning ∨ member.phase = .waiting ∧ index ∈ gate.handed)
    (context : Context) (world : World) :
    Relation.TransGen (Moves behave) (run.give behave .everyone context world).run.members
      run.members := by
  have hentry : run.entry context world =
      some ⟨context.state, run.isKeyed, own, gate, world⟩ := by
    rw [entry, hstage]
  rw [members_give, visits_of_entry hentry]
  rcases Member.visits_moves behave ⟨run.plan, context, .everyone⟩ horder rfl []
    ⟨context.state, run.isKeyed, own, gate, world⟩ run.members with hmoves | ⟨-, hstays⟩
  · exact hmoves
  · have hstands := hstays index member hget
    rw [List.length_nil, Nat.zero_add] at hstands
    rcases hstands with hsettled | ⟨hwaits, hnot⟩
    · rcases hbusy with hrunning | ⟨hwaits, -⟩
      · cases hphase : member.phase <;>
          simp [hphase, Phase.isRunning, Phase.settlement?] at hrunning hsettled
      · simp [hwaits, Phase.settlement?] at hsettled
    · rcases hbusy with hrunning | ⟨-, hhanded⟩
      · simp [hwaits, Phase.isRunning] at hrunning
      · exact absurd hhanded hnot

/-! ## Histories -/

/-- Whether a stretch goes on where another one ended: everybody goes on, nobody
has written into the session in between, and the surroundings have changed so. -/
structure Resumed (surroundings : World → World) (later earlier : Stretch σ) : Prop where
  turn : later.turn = .everyone
  state : later.state = earlier.step.state
  world : later.world = surroundings earlier.step.world

section Histories

variable {behave : σ → Poll σ} {workflow : Workflow σ} {workers : Nat} {context : Context}
  {last : Stretch σ} {past : List (Stretch σ)}

/-- The members of a run always carry out its tasks. -/
theorem History.carries {history : List (Stretch (Traced σ))}
    (h : History (Traced.poll behave) context (ofWorkflow workflow.traced) history) :
    Carries behave workflow (latest (ofWorkflow workflow.traced) history).members := by
  refine h.stretch_induction
    (motive := fun history => Carries behave workflow
      (latest (ofWorkflow workflow.traced) history).members)
    (carries_ofWorkflow behave workflow) fun past turn state world ih => ?_
  rw [latest, members_give]
  cases hentry :
      (latest (ofWorkflow workflow.traced) past).entry (context.withState state) world with
  | none => simpa [visits, hentry] using ih
  | some floor =>
    rw [visits_of_entry hentry]
    rw [← List.nil_append (latest _ past).members] at ih ⊢
    refine (Member.visits_induction (P := fun _ members => Carries behave workflow members)
      (fun visit hmem hP => ?_) ih).2
    obtain ⟨-, hafter⟩ := Member.of_mem_visits hmem
    rw [visit.left_eq_set]
    exact hP.set visit.getElem?_members (hafter ▸ (Member.visitBy_visited ..).polled)

/-- While a parallel run is not over, a stretch in which everybody goes on brings
it further. -/
theorem History.moves_of_none (h : History behave context (ofWorkflow workflow) (last :: past))
    (horder : workflow.plan.order = .parallel workers)
    (hresult : last.step.result = none) (current : Context) (world : World) :
    Relation.TransGen (Moves behave)
      (last.step.run.give behave .everyone current world).run.members last.step.run.members := by
  have hplan : last.step.run.plan = workflow.plan := h.plan_latest
  obtain ⟨floor, -, hstage, index, member, hget, hbusy⟩ :=
    h.busy horder List.mem_cons_self hresult
  exact give_moves (hplan ▸ horder) hstage hget hbusy current world

/-- A parallel run of tasks that terminate comes to its end if everybody goes on
and nobody writes into its session. -/
theorem History.comes_to_end (h : History behave context (ofWorkflow workflow) (last :: past))
    (horder : workflow.plan.order = .parallel workers)
    (hterminates : ∀ (index : Nat) (definition : Definition) (task : σ),
      workflow.members[index]? = some (definition, task) → Terminates behave task)
    (surroundings : World → World) :
    ∃ further final, History behave context (ofWorkflow workflow) (further ++ last :: past) ∧
      (further ++ [last]).IsChain (Resumed surroundings) ∧
      (further ++ [last]).head? = some final ∧ final.step.result.isSome := by
  cases hresult : last.step.result with
  | some result => exact ⟨[], last, h, List.isChain_singleton _, rfl, by simp [hresult]⟩
  | none =>
    have hacc : Acc (Relation.TransGen (Moves behave)) last.step.run.members := by
      refine (acc_moves fun member hmem => ?_).transGen
      obtain ⟨tlast, tpast, htraced, rfl, rfl⟩ := h.exists_traced_cons
      obtain ⟨index, hget⟩ := List.mem_iff_getElem?.1 hmem
      obtain ⟨tmember, htmember, rfl⟩ := Option.map_eq_some_iff.1
        ((List.getElem?_map ..).symm.trans hget)
      obtain ⟨task, htask, hfollows⟩ :=
        htraced.carries.task index tmember htmember
      exact hterminates index _ task htask tmember.process hfollows
    generalize hmembers : last.step.run.members = members at hacc
    induction hacc generalizing last past with
    | intro members _ ih =>
      subst hmembers
      obtain ⟨next, hnext⟩ : ∃ next : Stretch σ, next = ⟨.everyone, last.step.state,
        surroundings last.step.world, last.step.run.give behave .everyone
          (context.withState last.step.state) (surroundings last.step.world)⟩ := ⟨_, rfl⟩
      have hhistory : History behave context (ofWorkflow workflow) (next :: last :: past) :=
        hnext ▸ .next h hresult _ _ _
      have hresumed : Resumed surroundings next last := by rw [hnext]; exact ⟨rfl, rfl, rfl⟩
      cases hended : next.step.result with
      | some result =>
        exact ⟨[next], next, hhistory, List.isChain_pair.2 hresumed, rfl, by simp [hended]⟩
      | none =>
        have hmoves := h.moves_of_none horder hresult
          (context.withState last.step.state) (surroundings last.step.world)
        obtain ⟨further, final, hfurther, hchain, hhead, hfinal⟩ :=
          ih next.step.run.members (by rw [hnext]; exact hmoves) hhistory hended rfl
        refine ⟨further ++ [next], final, by simpa using hfurther, ?_, ?_, hfinal⟩
        · rw [List.append_assoc]
          exact List.isChain_split.2 ⟨hchain, List.isChain_pair.2 hresumed⟩
        · rw [← hhead]
          cases further <;> rfl

end Histories

end Run

end Coordination
