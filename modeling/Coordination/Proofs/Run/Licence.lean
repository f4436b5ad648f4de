import Coordination.Body
import Coordination.Proofs.Journal.Level
import Coordination.Proofs.Ledger.Entry

/-!
# What may be done to the surroundings

Tasks change their surroundings in few ways: they take time stamps, give notices, leave
notes, make measurements and operate on the shared ledger. A `Licence` says which
measurements may be made and which operations carried out, and `World.Becomes` that
surroundings have come of others within it.

* `World.Becomes.invariant`: what the operations allowed keep of the ledger is kept, and
  the journal goes on with measurements as they make them;
* `Leaf.poll_becomes`: a body does what its operations are.
-/

namespace Coordination

/-- What tasks may do to their surroundings. -/
structure Licence where
  measurement : Measurement → Prop
  op : Ledger.Op → Prop

namespace World

/-- Surroundings that have come of others within a licence. -/
inductive Becomes (licence : Licence) (before : World) : World → Prop
  | refl : Becomes licence before before
  | stamp {after : World} (h : Becomes licence before after) : Becomes licence before after.stamp.2
  | notice {after : World} (h : Becomes licence before after) (notice : Notice) :
    Becomes licence before (after.notice notice)
  | note {after : World} (h : Becomes licence before after) (sessionId task text : String) :
    Becomes licence before (after.note sessionId task text)
  | measure {after : World} (h : Becomes licence before after) (measurements : List Measurement)
      (hallowed : ∀ measurement ∈ measurements, licence.measurement measurement) :
    Becomes licence before (after.measure measurements)
  | operate {after : World} (h : Becomes licence before after) (op : Ledger.Op)
      (hallowed : licence.op op) : Becomes licence before (after.operate op).2

/-- The journal of surroundings has gone on with these measurements. -/
def Measures (before after : World) (measured : List Measurement) : Prop :=
  after.journal.measurements = before.journal.measurements ++ measured

theorem Measures.refl (world : World) : world.Measures world [] := (List.append_nil _).symm

theorem Measures.trans {a b c : World} {first second : List Measurement}
    (h : a.Measures b first) (h' : b.Measures c second) : a.Measures c (first ++ second) := by
  rw [Measures, h', h, List.append_assoc]

theorem measures_measure (world : World) (measurements : List Measurement) :
    world.Measures (world.measure measurements) measurements := rfl

@[simp] theorem measure_nil (world : World) : world.measure [] = world := by
  simp [measure, Journal.measure]

@[simp] theorem measure_measure (world : World) (first second : List Measurement) :
    (world.measure first).measure second = world.measure (first ++ second) := by
  simp [measure, Journal.measure]

namespace Becomes

variable {licence : Licence} {a b c : World}

theorem trans (h : a.Becomes licence b) (h' : b.Becomes licence c) : a.Becomes licence c := by
  induction h' with
  | refl => exact h
  | stamp _ ih => exact ih.stamp
  | notice _ notice ih => exact ih.notice notice
  | note _ sessionId task text ih => exact ih.note sessionId task text
  | measure _ measurements hallowed ih => exact ih.measure measurements hallowed
  | operate _ op hallowed ih => exact ih.operate op hallowed

/-- What the operations allowed keep of the ledger is kept, and the journal goes on with
measurements of which `Q` holds if it holds of those that are made and of those that go
with the operations. -/
theorem invariant {I : Ledger → Prop} {Q : Measurement → Prop} (h : a.Becomes licence b)
    (hmeasurement : ∀ measurement, licence.measurement measurement → Q measurement)
    (hop : ∀ ledger now op, licence.op op → I ledger → I (ledger.apply now op).2 ∧
      ∀ measurement ∈ ledger.measurementsOf now op, Q measurement)
    (hledger : I a.ledger) :
    I b.ledger ∧ ∃ measured, a.Measures b measured ∧ ∀ measurement ∈ measured, Q measurement := by
  induction h with
  | refl => exact ⟨hledger, [], .refl a, fun _ hmem => absurd hmem List.not_mem_nil⟩
  | stamp _ ih | notice _ _ ih | note _ _ _ _ ih => exact ih
  | measure _ measurements hallowed ih =>
    obtain ⟨hkept, measured, hmeasures, hall⟩ := ih
    refine ⟨hkept, _, hmeasures.trans (measures_measure _ measurements), ?_⟩
    exact List.forall_mem_append.2 ⟨hall, fun measurement hmem =>
      hmeasurement measurement (hallowed measurement hmem)⟩
  | @operate after _ op hallowed ih =>
    obtain ⟨hkept, measured, hmeasures, hall⟩ := ih
    obtain ⟨hafter, hmade⟩ := hop after.ledger after.stamp.1 op hallowed hkept
    have hlater : after.Measures (after.operate op).2
        (after.ledger.measurementsOf after.stamp.1 op) := rfl
    exact ⟨hafter, _, hmeasures.trans hlater, List.forall_mem_append.2 ⟨hall, hmade⟩⟩

end Becomes

end World

/-! ## Bodies -/

/-- Whether all operations of a body are such. -/
def Body.Performs (p : Ledger.Op → Prop) : Body → Prop
  | .finish => True
  | .fail _ rest | .emit _ rest | .pause _ rest | .write _ _ rest | .note _ _ rest =>
    rest.Performs p
  | .look next => ∀ context, (next context).Performs p
  | .operate op next => p op ∧ ∀ reply, (next reply).Performs p

theorem Body.Performs.imp {p q : Ledger.Op → Prop} {body : Body} (h : body.Performs p)
    (hpq : ∀ op, p op → q op) : body.Performs q := by
  induction body with
  | finish => trivial
  | fail _ _ ih | emit _ _ ih | pause _ _ ih | write _ _ _ ih | note _ _ _ ih => exact ih h
  | look next ih => exact fun context => ih context (h context)
  | operate op next ih => exact ⟨hpq op h.1, fun reply => ih reply (h.2 reply)⟩

theorem Body.performs_of_forall {p : Ledger.Op → Prop} (h : ∀ op, p op) (body : Body) :
    body.Performs p := by
  induction body with
  | finish => trivial
  | fail _ _ ih | emit _ _ ih | pause _ _ ih | write _ _ _ ih | note _ _ _ ih => exact ih
  | look next ih => exact ih
  | operate op next ih => exact ⟨h op, ih⟩

variable {licence : Licence}

theorem Body.advance_becomes {body : Body} (h : body.Performs licence.op) (context : Context)
    (world : World) (events : List Event) :
    let advance := body.advance context world events
    advance.process.body.Performs licence.op ∧ world.Becomes licence advance.world := by
  induction body generalizing context world events with
  | finish => exact ⟨trivial, .refl⟩
  | fail error rest => exact ⟨h, .refl⟩
  | pause millis rest => exact ⟨h, .refl⟩
  | emit event rest ih => exact ih h context world _
  | look next ih => exact ih context (h context) context world events
  | write key value rest ih => exact ih h _ world events
  | note task text rest ih =>
    obtain ⟨hrest, hbecomes⟩ := ih h context (world.note context.session.id task text) events
    exact ⟨hrest, .trans (World.Becomes.refl.note context.session.id task text) hbecomes⟩
  | operate op next ih =>
    obtain ⟨hrest, hbecomes⟩ := ih (world.operate op).1 (h.2 _) context (world.operate op).2 events
    exact ⟨hrest, .trans (World.Becomes.refl.operate op h.1) hbecomes⟩

/-- A body does to its surroundings what its operations do. -/
theorem Leaf.poll_becomes {leaf : Leaf} (h : leaf.body.Performs licence.op) (turn : Turn)
    (context : Context) (world : World) :
    let advance := leaf.poll turn context world
    advance.process.body.Performs licence.op ∧ world.Becomes licence advance.world := by
  unfold Leaf.poll
  split
  · exact Body.advance_becomes h context world []
  · split
    · exact Body.advance_becomes h context world []
    · exact ⟨h, .refl⟩

end Coordination
