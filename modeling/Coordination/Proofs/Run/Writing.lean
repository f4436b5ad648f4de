import Coordination.Proofs.Run.Nesting

/-!
# Who writes under a key

A task may write under a key into the session that it works on: a body by itself, a
workflow without output keys through its sub-tasks, and one with output keys by
publishing (`Task.Writes`). Whatever else sub-tasks of the latter write goes to sessions
of their own. A task that may not write under a key leaves the value there as it is, in
every stretch (`Task.retains`).

* `Run.History.retains_published`: a run with output keys changes the values of these alone;
* `Run.History.retains_shared`: one without them changes what its tasks change.
-/

namespace Coordination

variable {σ : Type} {key : String}

/-! ## Bodies -/

/-- Whether a body may write under a key into its session. -/
def Body.Writes (key : String) : Body → Prop
  | .finish | .fail .. => False
  | .emit _ rest | .pause _ rest | .note _ _ rest => rest.Writes key
  | .look next => ∃ context, (next context).Writes key
  | .write written _ rest => written = key ∨ rest.Writes key
  | .operate _ next => ∃ reply, (next reply).Writes key

theorem Body.advance_retains {body : Body} (h : ¬ body.Writes key) (context : Context)
    (world : World) (events : List Event) :
    let advance := body.advance context world events
    advance.state.get? key = context.state.get? key ∧
      (advance.outcome = .pending → ¬ advance.process.body.Writes key) := by
  induction body generalizing context world events with
  | finish => exact ⟨rfl, fun hpending => by cases hpending⟩
  | fail error rest => exact ⟨rfl, fun hpending => by cases hpending⟩
  | pause millis rest => exact ⟨rfl, fun _ => h⟩
  | emit event rest ih => exact ih h context world _
  | look next ih => exact ih context (fun hwrites => h ⟨context, hwrites⟩) context world events
  | note task text rest ih => exact ih h context _ events
  | operate op next ih => exact ih _ (fun hwrites => h ⟨_, hwrites⟩) context _ events
  | write written value rest ih =>
    simp only [Writes, not_or] at h
    obtain ⟨hstate, hrest⟩ := ih h.2 (context.set written value) world events
    refine ⟨hstate.trans ?_, hrest⟩
    exact KeyMap.get?_insert_of_ne _ _ h.1

theorem Leaf.poll_retains {leaf : Leaf} (h : ¬ leaf.body.Writes key) (turn : Turn)
    (context : Context) (world : World) :
    let advance := leaf.poll turn context world
    advance.state.get? key = context.state.get? key ∧
      (advance.outcome = .pending → ¬ advance.process.body.Writes key) := by
  unfold Leaf.poll
  split
  · exact Body.advance_retains h context world []
  · split
    · exact Body.advance_retains h context world []
    · exact ⟨rfl, fun _ => h⟩

/-! ## Tasks -/

/-- Whether a stretch left the value under a key in the session as it was. -/
def Exchange.Retains (key : String) (exchange : Exchange σ) : Prop :=
  exchange.advance.state.get? key = exchange.context.state.get? key

/-- Whether every stretch of a task leaves the value under a key as it is, whatever
happens in the session between two of them. -/
def Retains (behave : σ → Poll σ) (key : String) (task : σ) : Prop :=
  ∀ start traced last, Course behave False task start traced last → last.Retains key

/-- It may be left open whether a task is alone in its session. -/
theorem Course.forget {behave : σ → Poll σ} {alone : Prop} {task : σ} {start : Context}
    {traced : Traced σ} {last : Exchange σ} (h : Course behave alone task start traced last) :
    Course behave False task start traced last := by
  induction h with
  | first turn world => exact .first turn world
  | next _ hpending turn state world _ ih => exact ih.next hpending turn state world False.elim

/-- A task that is alone in its session leaves a value there as it found it when it was
begun, if every stretch does. -/
theorem Retains.leaves {behave : σ → Poll σ} {task : σ} (h : Retains behave key task)
    {start : Context} {traced : Traced σ} {last : Exchange σ}
    (hcourse : Course behave True task start traced last) :
    last.advance.state.get? key = start.state.get? key := by
  induction hcourse with
  | first turn world => exact h _ _ _ (.first turn world)
  | @next traced last hcourse hpending turn state world halone ih =>
    have hretains := h _ _ _ (hcourse.next hpending turn state world halone).forget
    rw [halone trivial] at hretains ⊢
    exact Eq.trans hretains ih

theorem retains_leaf {leaf : Leaf} (h : ¬ leaf.body.Writes key) :
    Retains Process.poll key (.leaf leaf) := by
  intro start traced last hcourse
  suffices hsuffices : last.Retains key ∧ ∃ later : Leaf, traced.task = .leaf later ∧
      (last.advance.outcome = .pending → ¬ later.body.Writes key) from hsuffices.1
  induction hcourse with
  | first turn world =>
    obtain ⟨hstate, hlater⟩ := leaf.poll_retains h turn start world
    exact ⟨hstate, _, rfl, hlater⟩
  | @next traced last _ hpending turn state world _ ih =>
    obtain ⟨-, later, htask, hwrites⟩ := ih
    obtain ⟨hstate, hlater⟩ :=
      later.poll_retains (hwrites hpending) turn (start.withState state) world
    have hpoll : Process.poll traced.task turn (start.withState state) world =
        Process.ofLeaf (later.poll turn (start.withState state) world) := by
      rw [htask]
      rfl
    simp only [Exchange.Retains, Traced.poll, hpoll]
    exact ⟨hstate, _, rfl, hlater⟩

namespace Run

section Histories

variable {behave : σ → Poll σ} {workflow : Workflow σ} {context : Context}
  {last : Stretch (Traced σ)} {past : List (Stretch (Traced σ))}

/-- A run with output keys and a ledger of its own publishes under these keys alone. -/
theorem History.retains_published (hcheck : workflow.check = .ok ())
    (hkeyed : workflow.isKeyed = true) (hown : workflow.plan.sharesLedger = false)
    (hkey : key ∉ workflow.outputKeys)
    (h : History (Traced.poll behave) context (ofWorkflow workflow.traced) (last :: past)) :
    last.step.state.get? key = last.state.get? key := by
  cases hresult : last.step.result with
  | none => rw [h.state_of_none hkeyed last List.mem_cons_self hresult]
  | some result =>
    obtain ⟨floor, report, -, hserving, -, -, hstate, hclosing⟩ :=
      h.closing hcheck (fun _ => hown) hresult
    obtain ⟨record, hrecord, haccord⟩ := (hserving.underway hkeyed).accord
    have hnone : record.outputs.get? key = none := by
      refine Option.eq_none_iff_forall_ne_some.2 fun value hvalue => hkey ?_
      obtain ⟨index, definition, settlement, hsettled, -, houtput, -⟩ :=
        (haccord.outputs key value).1 hvalue
      obtain ⟨member, hget, rfl, -⟩ := settledAt_iff.1 hsettled
      obtain ⟨task, htask, -⟩ := hserving.carries.task index member hget
      exact List.mem_filterMap.2 ⟨_, List.mem_of_getElem? htask, houtput⟩
    obtain ⟨now, hreported⟩ := hclosing.record
    rw [hserving.keyed, hkeyed, if_pos rfl, hrecord, Option.map_some] at hreported
    have houtputs : (report.outputs.getD .empty).get? key = none := by
      rw [Report.outputs, hreported]
      exact hnone
    rw [hclosing.state, hstate hkeyed]
    split
    · rw [KeyMap.get?_overlay, houtputs, Option.none_or]
    · rfl

/-- A visit in a session that the members share leaves a value there as it is, if all
tasks do. -/
theorem Standing.retains {maxValueBytes : Nat} {V : Nat → KeyMap String → Prop}
    {visit : Visit (Traced σ)} {stretch : Stretch (Traced σ)}
    (h : Standing behave False (workflow.terms maxValueBytes context) workflow V visit.members)
    (hserving : Serving behave workflow maxValueBytes context visit.floor visit.members)
    (hof : visit.Of (Traced.poll behave) workflow.plan context stretch)
    (hvalues : visit.starts →
      V visit.index (visit.floor.values (workflow.terms maxValueBytes context)))
    (hshared : workflow.isKeyed = false)
    (htasks : ∀ member ∈ workflow.members, Retains behave key member.2) :
    visit.after.1.state.get? key = visit.floor.state.get? key := by
  have hunkeyed : ¬ workflow.isKeyed = true := by simp [hshared]
  obtain ⟨_, -, hbefore⟩ := h visit.index visit.member visit.getElem?_members
  have hgives := hof.visited.gives (hserving.keyed.trans hshared)
    fun access events hphase => hbefore.shared_of hshared hphase
  have hleft := h.visited hserving hof (fun hkeyed => absurd hkeyed hunkeyed)
    (fun hkeyed => absurd hkeyed hunkeyed) hvalues False.elim
  obtain ⟨task, htask, hstands⟩ :=
    hleft visit.index visit.after.2 (by simp [Visit.left, Visit.index])
  cases hgives with
  | nothing hstate => rw [hstate]
  | stretch exchange hlast hfound hstate =>
    suffices hretains : exchange.Retains key by rw [hstate, hretains, hfound]
    have htask := htasks _ (List.mem_of_getElem? htask)
    cases hstands with
    | unstarted _ hprocess => simp [hprocess, Traced.fresh] at hlast
    | unfilled _ _ _ _ hprocess => simp [hprocess, Traced.fresh] at hlast
    | underway _ _ _ _ _ _ hcourse =>
      obtain rfl := Option.some.inj (hcourse.getLast?.symm.trans hlast)
      exact htask _ _ _ hcourse
    | settled _ _ _ _ _ hcourse =>
      obtain rfl := Option.some.inj (hcourse.getLast?.symm.trans hlast)
      exact htask _ _ _ hcourse

/-- A run without output keys leaves a value as it is, if all its tasks do. -/
theorem History.retains_shared (hcheck : workflow.check = .ok ())
    (hshared : workflow.isKeyed = false)
    (htasks : ∀ member ∈ workflow.members, Retains behave key member.2)
    (h : History (Traced.poll behave) context (ofWorkflow workflow.traced) (last :: past)) :
    last.step.state.get? key = last.state.get? key := by
  have hguarded := guarded_of_shared behave hshared context.session.id (last :: past)
  obtain ⟨-, hstretches⟩ := h.standing
    (P := fun current floor _ => floor.state.get? key = current.state.get? key)
    (S := fun _ => True) (R := fun _ _ => True) False hcheck hguarded
    (fun _ _ => trivial) (List.pairwise_of_forall fun _ _ => trivial).isChain
    (fun _ _ _ halone => halone.elim)
    (fun _ _ _ _ hopened => by rw [state_open hopened])
    (fun visit hmem hserving hstanding hP => by
      obtain ⟨stretch, -, hof⟩ := h.of_mem_log hmem
      exact (hstanding.retains hserving hof (fun hstarts => ⟨visit, hmem, rfl, hstarts, rfl⟩)
        hshared htasks).trans hP)
    (fun _ _ _ _ _ _ _ => rfl)
  obtain ⟨floor, ⟨-, -, hstate⟩, hleft, -⟩ :=
    (hstretches last List.mem_cons_self).state_shared hcheck hshared fun _ _ hP => hP.1.keyed
  rw [hleft]
  exact hstate

end Histories

end Run

/-! ## Trees -/

/-- Whether a task may write under a key into the session that it works on. -/
inductive Task.Writes (key : String) : Task Body → Prop
  | leaf (body : Body) (h : body.Writes key) : Writes key (.leaf body)
  /-- A workflow publishes under its output keys. From the shared ledger it may get others. -/
  | published (workflow : Workflow (Task Body)) (hkeyed : workflow.isKeyed = true)
      (h : key ∈ workflow.outputKeys ∨ workflow.plan.sharesLedger = true) :
    Writes key (.workflow workflow)
  | shared (workflow : Workflow (Task Body)) (hkeyed : workflow.isKeyed = false)
      (member : Definition × Task Body) (hmem : member ∈ workflow.members)
      (h : Writes key member.2) : Writes key (.workflow workflow)

/-- A workflow leaves a value as it is under which it does not publish, if it publishes
anything, and which its tasks leave as it is, if not. -/
theorem Workflow.retains {workflow : Workflow (Task Body)} (hcheck : workflow.check = .ok ())
    (hpublished : workflow.isKeyed = true →
      key ∉ workflow.outputKeys ∧ workflow.plan.sharesLedger = false)
    (hshared : workflow.isKeyed = false →
      ∀ member ∈ workflow.processes.members, Retains Process.poll key member.2) :
    Retains Process.poll key (.workflow (.ofWorkflow workflow.processes)) := by
  intro start traced last hcourse
  obtain ⟨stretch, past, hcarried⟩ := hcourse.run
  obtain ⟨latest, earlier, hnotes, rfl, -⟩ := hcarried.history.exists_traced_cons
  have hcheck' := check_processes.trans hcheck
  suffices hretains : latest.step.state.get? key = latest.state.get? key by
    rw [hcarried.last, Exchange.Retains, Stretch.exchange, Process.state_ofStep]
    exact hretains
  cases hkeyed : workflow.isKeyed with
  | true =>
    obtain ⟨hkey, hown⟩ := hpublished hkeyed
    exact hnotes.retains_published hcheck' (isKeyed_processes.trans hkeyed) hown
      (outputKeys_processes ▸ hkey)
  | false =>
    exact hnotes.retains_shared hcheck' (isKeyed_processes.trans hkeyed) (hshared hkeyed)

mutual

/-- A task that may not write under a key leaves the value there as it is. -/
theorem Task.retains : (task : Task Body) → task.check = .ok () → ¬ task.Writes key →
    Retains Process.poll key (Process.ofTask task)
  | .leaf body, _, h => retains_leaf fun hwrites => h (.leaf body hwrites)
  | .workflow ⟨plan, members⟩, hcheck, h => by
    obtain ⟨hmembers, hworkflow⟩ := check_workflow hcheck
    refine Workflow.retains hworkflow (fun hkeyed => ?_) fun hshared => ?_
    · refine ⟨fun hkey => h (.published ⟨plan, members⟩ hkeyed (.inl hkey)), ?_⟩
      exact Bool.eq_false_iff.2 fun hshares => h (.published ⟨plan, members⟩ hkeyed (.inr hshares))
    · exact Task.retains_of_mem members hmembers
        fun member hmem hwrites => h (.shared ⟨plan, members⟩ hshared member hmem hwrites)
  termination_by structural task => task

theorem Task.retains_of_mem : (members : List (Definition × Task Body)) →
    Task.checkMembers members = .ok () → (∀ member ∈ members, ¬ member.2.Writes key) →
    ∀ member ∈ Process.ofMembers members, Retains Process.poll key member.2
  | [], _, _ => fun _ hmem => absurd hmem List.not_mem_nil
  | (definition, task) :: rest, hcheck, h => by
    obtain ⟨htask, hrest⟩ := Task.checkMembers_cons hcheck
    rw [List.forall_mem_cons] at h
    exact List.forall_mem_cons.2
      ⟨Task.retains task htask h.1, Task.retains_of_mem rest hrest h.2⟩
  termination_by structural members => members

end

end Coordination
