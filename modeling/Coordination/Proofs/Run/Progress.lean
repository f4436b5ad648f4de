import Coordination.Proofs.Run.Ending
import Coordination.Proofs.Run.Starts

/-!
# Slots are bounded and none is left idle

A run may be driven: whatever has come of it so far says what it is given next
(`Run.drive`). If whoever is let in comes to an end, and whoever is handed a slot
comes back for it (`Run.Fair`), then more and more members start and settle, so the
run is over at last (`Run.Fair.exists_isOver`).

* `Run.busy_driven`: a run that is not over is not stuck;
* `Run.History.conserving`: the slots of a run from its start to wherever it has come;
* `Run.parallel_conserves_work`: both together.
-/

namespace Coordination

variable {σ : Type}

/-- What a run is given for a stretch: a turn, the values of its session and the
surroundings. -/
structure Prompt where
  turn : Turn
  state : KeyMap String
  world : World

/-- Says what a run is given next, by what has come of it so far. -/
abbrev Driver (σ : Type) := List (Stretch σ) → Prompt

namespace Run

/-- Whether a history ends a run. -/
def isOver (history : List (Stretch σ)) : Bool := history.head?.any (·.step.result.isSome)

theorem isOver_cons {last : Stretch σ} {past : List (Stretch σ)} :
    isOver (last :: past) = false ↔ last.step.result = none := by
  simp [isOver]

section Drive

variable (behave : σ → Poll σ) (context : Context) (start : Run σ) (driver : Driver σ)

/-- The stretch that a run is given next. -/
def prompted (past : List (Stretch σ)) : Stretch σ :=
  let prompt := driver past
  ⟨prompt.turn, prompt.state, prompt.world, (latest start past).give behave prompt.turn
    (context.withState prompt.state) prompt.world⟩

/-- The history of a run that is given so many stretches, or fewer if it is over before. -/
def drive : Nat → List (Stretch σ)
  | 0 => []
  | count + 1 =>
    let past := drive count
    if isOver past then past else prompted behave context start driver past :: past

/-- The run as so many stretches have left it. -/
def driven (count : Nat) : Run σ := latest start (drive behave context start driver count)

/-- Whoever is let in comes to an end, and whoever is handed a slot comes back for it. -/
structure Fair : Prop where
  finishes : ∀ (count index : Nat) (member : Member σ),
    (driven behave context start driver count).members[index]? = some member →
    member.phase.isRunning →
    ∃ later, count ≤ later ∧
      reached Phase.isSettled (driven behave context start driver later).members index
  returns : ∀ (count index : Nat) (gate : Gate Nat) (own : Option Ledger),
    (driven behave context start driver count).stage = .open gate own → index ∈ gate.handed →
    ∃ later, count ≤ later ∧
      (driver (drive behave context start driver later)).turn.admits [index]

end Drive

section Fair

variable {behave : σ → Poll σ} {workflow : Workflow σ} {workers : Nat} {context : Context}
  {driver : Driver σ}

theorem History.prompted {start : Run σ} {past : List (Stretch σ)}
    (h : History behave context start past) (hopen : isOver past = false) (driver : Driver σ) :
    History behave context start (prompted behave context start driver past :: past) := by
  cases h with
  | first => exact .next (.first _ _ _) (isOver_cons.1 hopen) _ _ _
  | next h hnone => exact .next (.next h hnone _ _ _) (isOver_cons.1 hopen) _ _ _

theorem drive_succ {start : Run σ} {count : Nat}
    (hopen : isOver (drive behave context start driver count) = false) :
    drive behave context start driver (count + 1) =
      Run.prompted behave context start driver (drive behave context start driver count) ::
        drive behave context start driver count := by
  rw [drive]
  simp [hopen]

/-- What has come of a run that is driven is a history of it. -/
theorem history_drive (behave : σ → Poll σ) (context : Context) (start : Run σ)
    (driver : Driver σ) (count : Nat) :
    History behave context start (drive behave context start driver (count + 1)) := by
  induction count with
  | zero => exact .first _ _ _
  | succ count ih =>
    rw [drive]
    split
    · exact ih
    next hopen => exact ih.prompted (by simpa using hopen) driver

theorem log_drive_mono (behave : σ → Poll σ) (context : Context) (start : Run σ)
    (driver : Driver σ) {count later : Nat} (hle : count ≤ later) :
    log behave context start (drive behave context start driver count) <+:
      log behave context start (drive behave context start driver later) := by
  induction later, hle using Nat.le_induction with
  | base => exact List.prefix_rfl
  | succ later _ ih =>
    rw [drive]
    split
    · exact ih
    · exact ih.trans (List.prefix_append _ _)

section Lasting

variable {start : Run σ} (hstart : start = ofWorkflow workflow) {p : Phase → Bool}
  (hlasting : Lasting p)
include hstart hlasting

/-- Whenever a member gets somewhere, more have been brought there. -/
theorem countP_brings_lt {count later index : Nat} (hle : count ≤ later)
    (hbefore : reached p (driven behave context start driver (count + 1)).members index = false)
    (hafter : reached p (driven behave context start driver (later + 1)).members index = true) :
    (log behave context start (drive behave context start driver (count + 1))).countP
        (Visit.brings p) <
      (log behave context start (drive behave context start driver (later + 1))).countP
        (Visit.brings p) := by
  subst hstart
  have hcount := (history_drive behave context (ofWorkflow workflow) driver
    count).countP_bringsAt hlasting index
  have hlater := (history_drive behave context (ofWorkflow workflow) driver
    later).countP_bringsAt hlasting index
  obtain ⟨added, hadded⟩ := log_drive_mono behave context (ofWorkflow workflow) driver
    (Nat.add_le_add_right hle 1)
  rw [driven] at hbefore hafter
  rw [hbefore] at hcount
  rw [← hadded, List.countP_append, hcount, hafter, Bool.toNat_true, Bool.toNat_false,
    Nat.zero_add] at hlater
  rw [← hadded, List.countP_append]
  obtain ⟨visit, hmem, hbrings⟩ := List.countP_pos_iff.1 (hlater ▸ Nat.one_pos)
  rw [Visit.bringsAt, Bool.and_eq_true] at hbrings
  exact Nat.lt_add_of_pos_right (List.countP_pos_iff.2 ⟨visit, hmem, hbrings.1⟩)

end Lasting

section Endless

variable {start : Run σ} (hstart : start = ofWorkflow workflow)
  (horder : workflow.plan.order = .parallel workers)
  (hnever : ∀ count, isOver (drive behave context start driver count) = false)
include hstart horder hnever

/-- A run that is never over is not stuck at any time: somebody is under way, or has
a slot handed to it. -/
theorem busy_driven (count : Nat) : ∃ index : Nat,
    (∃ member, (driven behave context start driver (count + 1)).members[index]? = some member ∧
      member.phase.isRunning) ∨
    (driven behave context start driver (count + 1)).Calls index ∧
      reached Phase.hasStarted (driven behave context start driver (count + 1)).members index =
        false := by
  subst hstart
  have h := history_drive behave context (ofWorkflow workflow) driver count
  have hopen := hnever (count + 1)
  rw [driven]
  rw [drive_succ (hnever count)] at h hopen ⊢
  obtain ⟨floor, -, hstage, index, member, hget, hbusy⟩ :=
    h.busy horder List.mem_cons_self (isOver_cons.1 hopen)
  refine ⟨index, hbusy.imp (fun hrunning => ⟨member, hget, hrunning⟩) fun hcalled => ?_⟩
  obtain ⟨hwaits, hhanded⟩ := hcalled
  refine ⟨⟨floor.gate, floor.own, hstage, member, hget, .inr ⟨hwaits, hhanded⟩⟩, ?_⟩
  rw [reached, latest, hget, Option.any_some, hwaits]
  rfl

/-- Whoever has a slot handed to it waits for nothing but to be asked. -/
theorem Calls.driven {place count later : Nat} (hle : count + 1 ≤ later)
    (h : (driven behave context start driver (count + 1)).Calls place) :
    (Run.driven behave context start driver later).Calls place ∧
      ((driver (drive behave context start driver later)).turn.admits [place] →
        reached Phase.hasStarted (Run.driven behave context start driver (later + 1)).members
          place) := by
  have hstep : ∀ before, (Run.driven behave context start driver (before + 1)).Calls place →
      (Run.driven behave context start driver (before + 1 + 1)).Calls place ∧
        ((driver (drive behave context start driver (before + 1))).turn.admits [place] →
          reached Phase.hasStarted
            (Run.driven behave context start driver (before + 1 + 1)).members place) := by
    intro before hcalls
    have hplan := (history_drive behave context start driver before).plan_latest
    have hparallel : (Run.driven behave context start driver (before + 1)).plan.order =
        .parallel workers := by
      rw [Run.driven, hplan, hstart]
      exact horder
    have hopen := hnever (before + 1 + 1)
    rw [Run.driven, drive_succ (hnever (before + 1))]
    rw [drive_succ (hnever (before + 1))] at hopen
    obtain ⟨hstarts, hkeeps⟩ := hcalls.give hparallel behave _ _ _
    exact ⟨hkeeps (isOver_cons.1 hopen), hstarts⟩
  have hcalls : (Run.driven behave context start driver later).Calls place := by
    induction later, hle using Nat.le_induction with
    | base => exact h
    | succ later hle ih =>
      obtain ⟨before, rfl⟩ : ∃ before, later = before + 1 := ⟨later - 1, by omega⟩
      exact (hstep before ih).1
  obtain ⟨before, rfl⟩ : ∃ before, later = before + 1 := ⟨later - 1, by omega⟩
  exact ⟨hcalls, (hstep before hcalls).2⟩

/-- Sooner or later more members have started, or have settled. -/
theorem Fair.exists_more (hfair : Fair behave context start driver) (count : Nat) :
    ∃ later, count ≤ later ∧ ∃ p, (p = Phase.hasStarted ∨ p = Phase.isSettled) ∧
      (log behave context start (drive behave context start driver (count + 1))).countP
          (Visit.brings p) <
        (log behave context start (drive behave context start driver (later + 1))).countP
          (Visit.brings p) := by
  obtain ⟨index, ⟨member, hget, hrunning⟩ | ⟨hcalls, hnot⟩⟩ :=
    busy_driven hstart horder hnever count
  · obtain ⟨later, hle, hsettled⟩ := hfair.finishes (count + 1) index member hget hrunning
    obtain ⟨later, rfl⟩ : ∃ before, later = before + 1 := ⟨later - 1, by omega⟩
    refine ⟨later, by omega, _, .inr rfl,
      countP_brings_lt hstart lasting_isSettled (by omega) ?_ hsettled⟩
    rw [reached, hget, Option.any_some]
    cases hphase : member.phase <;> simp [hphase, Phase.isRunning] at hrunning
    rfl
  · obtain ⟨gate, own, hstage, member, hget, hstarted | ⟨-, hhanded⟩⟩ := id hcalls
    · simp [reached, hget, hstarted] at hnot
    · obtain ⟨later, hle, hadmits⟩ := hfair.returns (count + 1) index gate own hstage hhanded
      refine ⟨later, by omega, _, .inl rfl,
        countP_brings_lt hstart lasting_hasStarted (by omega) hnot ?_⟩
      exact (Calls.driven hstart horder hnever hle hcalls).2 hadmits

end Endless

/-- A run of which, as long as it is not over, more and more members start or settle,
is over at last: there are only so many. -/
theorem exists_isOver_of_more
    (hmore : (∀ count, isOver (drive behave context (ofWorkflow workflow) driver count) = false) →
      ∀ count, ∃ later, count ≤ later ∧ ∃ p, (p = Phase.hasStarted ∨ p = Phase.isSettled) ∧
        (log behave context (ofWorkflow workflow)
            (drive behave context (ofWorkflow workflow) driver (count + 1))).countP
            (Visit.brings p) <
          (log behave context (ofWorkflow workflow)
            (drive behave context (ofWorkflow workflow) driver (later + 1))).countP
            (Visit.brings p)) :
    ∃ count, isOver (drive behave context (ofWorkflow workflow) driver count) := by
  by_contra hnot
  have hnever : ∀ count, isOver (drive behave context (ofWorkflow workflow) driver count) =
      false := by simpa using hnot
  obtain ⟨made, hmade⟩ : ∃ made : (Phase → Bool) → Nat → Nat, ∀ p count, made p count =
      (log behave context (ofWorkflow workflow)
        (drive behave context (ofWorkflow workflow) driver (count + 1))).countP
          (Visit.brings p) := ⟨_, fun _ _ => rfl⟩
  have hmono : ∀ p count later, count ≤ later → made p count ≤ made p later := by
    intro p count later hle
    rw [hmade, hmade]
    exact (log_drive_mono behave context (ofWorkflow workflow) driver
      (Nat.add_le_add_right hle 1)).sublist.countP_le
  -- Starts and settlements become more and more, but there are only so many members.
  have hmany : ∀ goal, ∃ count,
      goal ≤ made Phase.hasStarted count + made Phase.isSettled count := by
    intro goal
    induction goal with
    | zero => exact ⟨0, Nat.zero_le _⟩
    | succ goal ih =>
      obtain ⟨count, hgoal⟩ := ih
      obtain ⟨later, hle, p, hp, hlt⟩ := hmore hnever count
      rw [← hmade, ← hmade] at hlt
      have hstarted := hmono Phase.hasStarted count later hle
      have hsettled := hmono Phase.isSettled count later hle
      refine ⟨later, ?_⟩
      rcases hp with rfl | rfl <;> omega
  obtain ⟨count, hcount⟩ := hmany (2 * workflow.members.length + 1)
  have h := history_drive behave context (ofWorkflow workflow) driver count
  have hstarted := h.countP_brings_le lasting_hasStarted
  have hsettled := h.countP_brings_le lasting_isSettled
  rw [← hmade] at hstarted hsettled
  omega

/-- A run in which whoever is let in comes to an end, and whoever is handed a slot
comes back for it, is over at last. -/
theorem Fair.exists_isOver (hfair : Fair behave context (ofWorkflow workflow) driver)
    (horder : workflow.plan.order = .parallel workers) :
    ∃ count, isOver (drive behave context (ofWorkflow workflow) driver count) :=
  exists_isOver_of_more fun hnever => hfair.exists_more rfl horder hnever

/-- A run that is over is driven no further. -/
theorem drive_of_isOver {start : Run σ} {count : Nat}
    (hover : isOver (drive behave context start driver count)) (further : Nat) :
    drive behave context start driver (count + further) =
      drive behave context start driver count := by
  induction further with
  | zero => rfl
  | succ further ih =>
    show drive behave context start driver (count + further + 1) = _
    rw [drive]
    simp only [ih, hover, if_true]

/-- A driver is fair that lets everybody ask for a slot, if the run is over after a number of
stretches and all its members have settled then. -/
theorem fair_of_isOver (count : Nat)
    (hover : isOver (drive behave context (ofWorkflow workflow) driver count))
    (hall : ∀ index < workflow.members.length, reached Phase.isSettled
      (latest (ofWorkflow workflow)
        (drive behave context (ofWorkflow workflow) driver count)).members index)
    (hadmits : ∀ past index, (driver past).turn.admits [index]) :
    Fair behave context (ofWorkflow workflow) driver where
  finishes := by
    intro earlier index member hget _
    refine ⟨count + earlier, Nat.le_add_left _ _, ?_⟩
    rw [driven, drive_of_isOver hover]
    refine hall index ?_
    have hlt := (List.getElem?_eq_some_iff.1 hget).1
    cases earlier with
    | zero => simpa [driven, drive, latest, ofWorkflow] using hlt
    | succ earlier => rwa [driven, (history_drive ..).length_latest] at hlt
  returns := fun earlier index _ _ _ _ => ⟨earlier, Nat.le_refl _, hadmits _ index⟩

end Fair

/-! ## The run as a whole -/

/-- The slots of a parallel run, from its start to wherever it has come. -/
structure Conserving (behave : σ → Poll σ) (context : Context) (workflow : Workflow σ)
    (workers : Nat) (history : List (Stretch σ)) : Prop where
  /-- At every moment of every visit no more members are under way than there are
  slots, and none of these is left idle while somebody waits for one. -/
  moments : ∀ visit ∈ log behave context (ofWorkflow workflow) history,
    ∀ moment ∈ visit.moments, moment.Conserves workers
  /-- Whoever does its work keeps the slot to the end of the visit, or gives it back
  having settled. -/
  keeps : ∀ visit ∈ log behave context (ofWorkflow workflow) history, visit.works →
    visit.after.1.gate = if visit.after.2.phase.isSettled then
      visit.gateWithin.release visit.index else visit.gateWithin
  /-- So it is between stretches, and somebody is under way or has a slot handed to it. -/
  between : ∀ stretch ∈ history, stretch.step.result = none →
    ∃ gate own, stretch.step.run.stage = .open gate own ∧
      Moment.Conserves workers ⟨gate, posts stretch.step.run.members⟩ ∧
      (.working ∈ posts stretch.step.run.members ∨ gate.handed ≠ [])
  /-- No member starts twice. -/
  once : ∀ index, (log behave context (ofWorkflow workflow) history).countP
    (Visit.startsAt index) ≤ 1
  /-- Once the run is over, each has started, unless the run was not opened. -/
  starts : ∀ last past, history = last :: past → last.step.result.isSome →
    (∃ error, (ofWorkflow workflow).open (context.withState last.state) last.world =
      .error error) ∨
    ∀ index < workflow.members.length,
      (log behave context (ofWorkflow workflow) history).countP (Visit.startsAt index) = 1

section Conserving

variable {behave : σ → Poll σ} {workflow : Workflow σ} {workers : Nat} {context : Context}
  {history : List (Stretch σ)}

/-- The slots of a parallel run at every moment of a visit. -/
theorem History.moments_conserve (h : History behave context (ofWorkflow workflow) history)
    (horder : workflow.plan.order = .parallel workers) {visit : Visit σ}
    (hmem : visit ∈ log behave context (ofWorkflow workflow) history) :
    ∀ moment ∈ visit.moments, moment.Conserves workers := by
  intro moment hmoment
  obtain ⟨stretch, -, hof⟩ := h.of_mem_log hmem
  have hregulated := (h.regulated horder).1 visit hmem
  have hleft := hregulated.visited hof horder ((h.come horder).2 visit hmem)
  rw [Visit.moments, List.cons_append, List.mem_cons, List.mem_append,
    List.mem_singleton] at hmoment
  rcases hmoment with rfl | hwithin | rfl
  · exact hregulated.conserves
  · split at hwithin
    next hworks =>
      rw [List.mem_singleton] at hwithin
      exact hwithin ▸ hregulated.conserves_within (hof.queues horder) hworks
    next => cases hwithin
  · exact hleft.conserves

/-- Once a parallel run is over that was opened, all its members have settled. -/
theorem History.settled_of_over {last : Stretch σ} {past : List (Stretch σ)}
    (h : History behave context (ofWorkflow workflow) (last :: past))
    (horder : workflow.plan.order = .parallel workers) (hover : last.step.result.isSome) :
    (∃ error, (ofWorkflow workflow).open (context.withState last.state) last.world =
      .error error) ∨
    last.step.run.members.length = workflow.members.length ∧
      ∀ member ∈ last.step.run.members, member.phase.settlement?.isSome := by
  rcases (h.regulated horder).2 last List.mem_cons_self with ⟨error, world, hopen, -⟩ |
    ⟨⟨_, _, _, -, hstep⟩ | ⟨floor, after, members, result, hregulated, hconclude, hstep⟩⟩
  · exact .inl ⟨_, hopen⟩
  · simp [hstep] at hover
  · rw [show (ofWorkflow workflow).plan.order = .parallel workers from horder] at hconclude
    generalize (result, after) = concluded at hconclude
    rw [hstep]
    cases concluded_of_conclude hconclude with
    | parallel _ hall =>
      exact .inr ⟨by simpa using congrArg List.length hregulated.definitions, hall⟩

theorem History.conserving (h : History behave context (ofWorkflow workflow) history)
    (horder : workflow.plan.order = .parallel workers) :
    Conserving behave context workflow workers history where
  moments := fun _ hmem => h.moments_conserve horder hmem
  keeps := by
    intro visit hmem hworks
    obtain ⟨stretch, -, hof⟩ := h.of_mem_log hmem
    have hafter := hof.after
    rw [Member.visitBy, hof.scope, show (⟨(ofWorkflow workflow).plan, _, _⟩ : Scope).plan.order =
      _ from horder, ← hof.scope] at hafter
    exact Member.gate_visit hafter hworks
  between := by
    intro stretch hmem hresult
    obtain ⟨floor, hregulated, hstage, index, member, hget, hbusy⟩ := h.busy horder hmem hresult
    refine ⟨floor.gate, floor.own, hstage, hregulated.conserves, ?_⟩
    rcases hbusy with hrunning | ⟨-, hhanded⟩
    · left
      rw [← Phase.post_beq_working, beq_iff_eq] at hrunning
      exact List.mem_map.2 ⟨member, List.mem_of_getElem? hget, hrunning⟩
    · exact .inr (List.ne_nil_of_mem hhanded)
  once := fun index => (h.countP_bringsAt lasting_hasStarted index).trans_le (Bool.toNat_le _)
  starts := by
    rintro last past rfl hover
    refine (h.settled_of_over horder hover).imp_right ?_
    rintro ⟨hlength, hall⟩ index hlt
    have hstarted := Member.hasStarted_of_settled (hall _ (List.getElem_mem (hlength ▸ hlt)))
    refine (h.countP_bringsAt lasting_hasStarted index).trans ?_
    rw [latest, reached, List.getElem?_eq_getElem (hlength ▸ hlt), Option.any_some, hstarted]
    rfl

end Conserving

/-- Slots are bounded, and none is left idle. In every history of a parallel run,
with output keys or without, and whatever its tasks do, no more members are between
their admission and the record of their end than there are slots, and while a member
waits to whom none was handed, all slots are held or handed over. So a run in which
whoever is let in comes to an end cannot be stuck while members wait: it is over at
last, and every member has started just once. -/
theorem parallel_conserves_work (behave : σ → Poll σ) (context : Context)
    (workflow : Workflow σ) {workers : Nat} (horder : workflow.plan.order = .parallel workers) :
    (∀ history, History behave context (ofWorkflow workflow) history →
      Conserving behave context workflow workers history) ∧
    ∀ driver, Fair behave context (ofWorkflow workflow) driver →
      ∃ count, isOver (drive behave context (ofWorkflow workflow) driver (count + 1)) ∧
        History behave context (ofWorkflow workflow)
          (drive behave context (ofWorkflow workflow) driver (count + 1)) := by
  refine ⟨fun history h => h.conserving horder, fun driver hfair => ?_⟩
  obtain ⟨count, hover⟩ := hfair.exists_isOver horder
  cases count with
  | zero => cases hover
  | succ count => exact ⟨count, hover, history_drive ..⟩

/-- Two sub-tasks that wait, with one slot between them. -/
def ferry : Workflow Leaf where
  plan := ⟨"ferry", "default", .parallel 1, 100, false⟩
  members :=
    [(⟨"one", none, some "a", none⟩, .ofBody (.pause 5 (.emit (.text "one" "over") .finish))),
      (⟨"two", none, none, none⟩, .ofBody (.pause 5 .finish))]

/-- The session of a ferry. -/
def ferryContext : Context := ⟨⟨"s", "u", "a", .empty⟩, 0, none⟩

/-- Everybody goes on, and nothing else happens. -/
def ferryDriver : Driver Leaf := fun past =>
  ⟨.everyone, .empty, (past.head?.map (·.step.world)).getD (.start 100)⟩

/-- The ferry after so many stretches. -/
abbrev ferryAfter (count : Nat) : List (Stretch Leaf) :=
  drive Leaf.poll ferryContext (ofWorkflow ferry) ferryDriver count

theorem fair_ferry : Fair Leaf.poll ferryContext (ofWorkflow ferry) ferryDriver :=
  fair_of_isOver 3 (by decide +kernel)
    (show ∀ index < 2, reached Phase.isSettled
      (latest (ofWorkflow ferry) (ferryAfter 3)).members index by decide +kernel)
    fun _ _ => rfl

theorem parallel_conserves_work_ferry : ferry.plan.order = .parallel 1 ∧
    Conserving Leaf.poll ferryContext ferry 1 (ferryAfter 1) ∧
    posts (latest (ofWorkflow ferry) (ferryAfter 1)).members = [.working, .waiting] ∧
    Fair Leaf.poll ferryContext (ofWorkflow ferry) ferryDriver ∧
    ∃ count, isOver (ferryAfter (count + 1)) ∧
      Conserving Leaf.poll ferryContext ferry 1 (ferryAfter (count + 1)) := by
  obtain ⟨hconserves, hends⟩ := parallel_conserves_work Leaf.poll ferryContext ferry rfl
  obtain ⟨count, hover, h⟩ := hends ferryDriver fair_ferry
  exact ⟨rfl, hconserves _ (history_drive ..), by decide +kernel, fair_ferry, count, hover,
    hconserves _ h⟩

end Run

end Coordination
