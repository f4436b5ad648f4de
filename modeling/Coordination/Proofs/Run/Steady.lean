import Coordination.Proofs.Run.Course

/-!
# Tasks that heed only what they are given

A task may come to the same end whatever happens beside it: `Determined`, if the
context in which it is begun alone decides on that, and `Steady`, if the values
that it finds there at some keys do not matter. A body is so if it neither looks
at these values nor at the shared ledger (`Body.Ignores`): then it comes to what
it would come to without waiting (`Body.result`), in whatever stretches.

* `Body.advance_leads`, `Body.result_of_course`: what a stretch makes of a body, and what a
  course of a body comes to;
* `Body.Ignores.steady`, `Body.Ignores.determined`: so its end is decided.
-/

namespace Coordination

variable {σ : Type}

/-- A task that is begun in either of two contexts, and is alone there, yields
the same events if it comes to an end, and comes to the same. -/
def Concurs (behave : σ → Poll σ) (task : σ) (start start' : Context) : Prop :=
  ∀ traced traced' last last', Course behave True task start traced last →
    Course behave True task start' traced' last' →
    last.advance.outcome ≠ .pending → last'.advance.outcome ≠ .pending →
    traced.events = traced'.events ∧ last.advance.outcome = last'.advance.outcome

/-- The contexts are the same, but for the values of the session at some keys. -/
def Context.AgreesOff (keys : List String) (a b : Context) : Prop :=
  ∃ state, b = a.withState state ∧ ∀ key, key ∉ keys → state.get? key = a.state.get? key

/-- What a task comes to does not depend on the values that its session holds at
first at some keys. -/
def Steady (behave : σ → Poll σ) (keys : List String) (task : σ) : Prop :=
  ∀ start start' : Context, start.AgreesOff keys start' → Concurs behave task start start'

/-- What a task comes to, and the values that it leaves, depend on the context
alone in which it is begun. -/
def Determined (behave : σ → Poll σ) (task : σ) : Prop :=
  ∀ start traced traced' last last', Course behave True task start traced last →
    Course behave True task start traced' last' →
    last.advance.outcome ≠ .pending → last'.advance.outcome ≠ .pending →
    traced.events = traced'.events ∧ last.advance.outcome = last'.advance.outcome ∧
      last.advance.state = last'.advance.state

namespace Context.AgreesOff

variable {keys : List String} {a b : Context}

theorem set (h : a.AgreesOff keys b) (key value : String) :
    (a.set key value).AgreesOff keys (b.set key value) := by
  obtain ⟨state, rfl, hagree⟩ := h
  refine ⟨state.insert key value, rfl, fun k hk => ?_⟩
  simp only [Context.set, Context.state, Context.withState, KeyMap.get?_insert]
  rw [hagree k hk]
  rfl

/-- Contexts that agree at all keys are the same. -/
theorem eq_of_nil (h : a.AgreesOff [] b) : a = b := by
  obtain ⟨state, rfl, hagree⟩ := h
  have hsame : a.state = state := KeyMap.ext_get? fun key => (hagree key List.not_mem_nil).symm
  rw [← hsame]
  rfl

end Context.AgreesOff

/-! ## Bodies -/

namespace Body

/-- A body does the same whatever its session holds at some keys, and leaves the
shared ledger alone. -/
def Ignores (keys : List String) : Body → Prop
  | finish | fail .. => True
  | emit _ rest | pause _ rest | write _ _ rest | note _ _ rest => rest.Ignores keys
  | look next => (∀ a b : Context, a.AgreesOff keys b → next a = next b) ∧
    ∀ context, (next context).Ignores keys
  | operate .. => False

/-- What a body comes to that does not wait: its events, its end, and the values
that it leaves. Nothing is said of one that operates on the shared ledger. -/
def result (context : Context) : Body → List Event × Outcome × KeyMap String
  | finish | operate .. => ([], .ended, context.state)
  | fail error _ => ([], .failed error, context.state)
  | emit event rest => (rest.result context).map (event :: ·) id
  | pause _ rest | note _ _ rest => rest.result context
  | look next => (next context).result context
  | write key value rest => rest.result (context.set key value)

/-- What a stretch makes of a body: what is left comes to what the body comes to. -/
inductive Leads (keys : List String) (context : Context) (body : Body) (events : List Event)
    (advance : Advance Leaf) : Prop
  | waits (yielded : List Event) (hpending : advance.outcome = .pending)
      (hevents : advance.events = events ++ yielded)
      (hignores : advance.process.body.Ignores keys)
      (hresult : body.result context =
        (advance.process.body.result (context.withState advance.state)).map (yielded ++ ·) id)
  | ends (yielded : List Event) (hended : advance.outcome ≠ .pending)
      (hevents : advance.events = events ++ yielded)
      (hresult : body.result context = (yielded, advance.outcome, advance.state))

/-- A body that leads on to another one, in the same or in another context, goes
on as that does. -/
theorem Leads.of_result {keys : List String} {context context' : Context} {body body' : Body}
    {events : List Event} {advance : Advance Leaf} (h : Leads keys context' body' events advance)
    (hcontext : ∀ state, context'.withState state = context.withState state)
    (hresult : body.result context = body'.result context') :
    Leads keys context body events advance := by
  cases h with
  | waits yielded hpending hevents hignores hleft =>
    rw [hcontext, ← hresult] at hleft
    exact .waits yielded hpending hevents hignores hleft
  | ends yielded hended hevents hleft =>
    rw [← hresult] at hleft
    exact .ends yielded hended hevents hleft

theorem advance_leads {keys : List String} (context : Context) (world : World)
    (events : List Event) {body : Body} (h : body.Ignores keys) :
    Leads keys context body events (body.advance context world events) := by
  induction body generalizing context world events with
  | finish => exact .ends [] (by simp [advance]) (by simp [advance]) rfl
  | fail error rest => exact .ends [] (by simp [advance]) (by simp [advance]) rfl
  | pause millis rest => exact .waits [] rfl (by simp [advance]) h rfl
  | emit event rest ih =>
    cases ih context world (events ++ [event]) h with
    | waits yielded hpending hevents hignores hresult =>
      refine .waits (event :: yielded) hpending ?_ hignores ?_
      · rw [advance, hevents, List.append_assoc]
        rfl
      · rw [result, hresult]
        rfl
    | ends yielded hended hevents hresult =>
      refine .ends (event :: yielded) hended ?_ ?_
      · rw [advance, hevents, List.append_assoc]
        rfl
      · rw [result, hresult]
        rfl
  | look next ih =>
    exact (ih context context world events (h.2 context)).of_result (fun _ => rfl) rfl
  | write key value rest ih =>
    exact (ih (context.set key value) world events h).of_result (fun _ => rfl) rfl
  | note task text rest ih =>
    exact (ih context (world.note context.session.id task text) events h).of_result
      (fun _ => rfl) rfl
  | operate op next => exact h.elim

theorem poll_leads {keys : List String} (leaf : Leaf) (turn : Turn) (context : Context)
    (world : World) (h : leaf.body.Ignores keys) :
    Leads keys context leaf.body [] (leaf.poll turn context world) := by
  unfold Leaf.poll
  split
  · exact advance_leads context world [] h
  · split
    · exact advance_leads context world [] h
    · exact .waits [] rfl rfl h rfl

/-- A stretch after another. -/
theorem Leads.trans {keys : List String} {context : Context} {body : Body}
    {first second : Advance Leaf} (h : Leads keys context body [] first)
    (hpending : first.outcome = .pending)
    (hnext : first.process.body.Ignores keys →
      Leads keys (context.withState first.state) first.process.body [] second) :
    Leads keys context body [] { second with events := first.events ++ second.events } := by
  cases h with
  | ends _ hended => exact absurd hpending hended
  | waits before _ hbefore hignores hresult =>
    rw [hbefore]
    cases hnext hignores with
    | waits yielded hwaits hevents hignores' hleft =>
      rw [hleft] at hresult
      refine .waits (before ++ yielded) hwaits (by simp [hevents]) hignores' (hresult.trans ?_)
      simp [Prod.map, Context.withState]
    | ends yielded hended hevents hleft =>
      rw [hleft] at hresult
      exact .ends (before ++ yielded) hended (by simp [hevents]) hresult

/-- So does a course. -/
theorem leads_of_course {keys : List String} {body : Body} (h : body.Ignores keys)
    {start : Context} {traced : Traced Leaf} {last : Exchange Leaf}
    (hcourse : Course Leaf.poll True (.ofBody body) start traced last) :
    Leads keys start body []
      { last.advance with process := traced.task, events := traced.events } := by
  induction hcourse with
  | first turn world =>
    have hleads := poll_leads (.ofBody body) turn start world h
    simp only [Traced.poll, Traced.events, Traced.fresh, List.nil_append, List.flatMap_cons,
      List.flatMap_nil, List.append_nil]
    exact hleads
  | @next traced last hcourse hpending turn state world halone ih =>
    obtain rfl := halone trivial
    have hleads := ih.trans hpending fun hignores =>
      poll_leads traced.task turn (start.withState last.advance.state) world hignores
    simpa [Traced.poll, Traced.events] using hleads

theorem result_of_course {keys : List String} {body : Body} (h : body.Ignores keys)
    {start : Context} {traced : Traced Leaf} {last : Exchange Leaf}
    (hcourse : Course Leaf.poll True (.ofBody body) start traced last)
    (hended : last.advance.outcome ≠ .pending) :
    body.result start = (traced.events, last.advance.outcome, last.advance.state) := by
  cases leads_of_course h hcourse with
  | waits _ hpending => exact absurd hpending hended
  | ends yielded _ hevents hresult =>
    obtain rfl : traced.events = yielded := hevents
    exact hresult

/-- What a body yields and comes to does not depend on what it ignores. -/
theorem Ignores.result_congr {keys : List String} {body : Body} (h : body.Ignores keys)
    {a b : Context} (hagree : a.AgreesOff keys b) :
    (body.result a).1 = (body.result b).1 ∧ (body.result a).2.1 = (body.result b).2.1 := by
  induction body generalizing a b with
  | finish | fail => exact ⟨rfl, rfl⟩
  | emit event rest ih =>
    obtain ⟨hevents, houtcome⟩ := ih h hagree
    exact ⟨congrArg (event :: ·) hevents, houtcome⟩
  | pause _ rest ih | note _ _ rest ih => exact ih h hagree
  | look next ih =>
    simp only [result, ← h.1 a b hagree]
    exact ih a (h.2 a) hagree
  | write key value rest ih => exact ih h (hagree.set key value)
  | operate => exact h.elim

/-- A body is steady as to all that it ignores. -/
theorem Ignores.steady {keys : List String} {body : Body} (h : body.Ignores keys) :
    Steady Leaf.poll keys (.ofBody body) := by
  intro start start' hagree traced traced' last last' hcourse hcourse' hended hended'
  have hsame := h.result_congr hagree
  rw [result_of_course h hcourse hended, result_of_course h hcourse' hended'] at hsame
  exact hsame

/-- A body that leaves the shared ledger alone is determined. -/
theorem Ignores.determined {body : Body} (h : body.Ignores []) :
    Determined Leaf.poll (.ofBody body) := by
  intro start traced traced' last last' hcourse hcourse' hended hended'
  have hresult := result_of_course h hcourse hended
  rw [result_of_course h hcourse' hended'] at hresult
  simp only [Prod.mk.injEq] at hresult
  exact ⟨hresult.1.symm, hresult.2.1.symm, hresult.2.2.symm⟩

end Body

end Coordination
