import Coordination.Proofs.Context.Ids
import Coordination.Proofs.Run.Measuring
import Coordination.Proofs.Run.Moments
import Coordination.Proofs.Run.Seats
import Coordination.Proofs.Run.Within

/-!
# Runs that keep apart in one ledger

A member of a run with output keys works in a session that is named after its place, and so
do the runs below it. If its bodies leave the records of the family alone, all that its
stretches do in the shared ledger is done to records of its own family
(`World.Becomes.sameAt`). So nobody but the run itself touches its record, and nobody but the
member those of the sessions below it (`Run.Lodged`).

* `Run.Lodged.visited`: a visit;
* `Run.History.lodged`: the moments of a run whose record nobody else touches.
-/

namespace Coordination

variable {σ : Type}

/-! ## Ledgers -/

namespace Ledger

/-- Whether two ledgers hold the same records at these ids. -/
def SameAt (ids : String → Prop) (before after : Ledger) : Prop :=
  ∀ id, ids id → after.get? id = before.get? id

variable {ids ids' : String → Prop} {a b c : Ledger}

theorem SameAt.refl (ids : String → Prop) (ledger : Ledger) : SameAt ids ledger ledger :=
  fun _ _ => rfl

theorem SameAt.trans (h : SameAt ids a b) (h' : SameAt ids b c) : SameAt ids a c :=
  fun id hid => (h' id hid).trans (h id hid)

theorem SameAt.mono (h : SameAt ids a b) (hids : ∀ id, ids' id → ids id) : SameAt ids' a b :=
  fun id hid => h id (hids id hid)

/-- Whether an operation leaves the record of an id as it is, in every ledger. -/
def Op.Leaves (id : String) (op : Op) : Prop :=
  ∀ (ledger : Ledger) now, (ledger.apply now op).2.get? id = ledger.get? id

theorem Op.leaves_of_ne {id : String} {op : Op} (h : op.id? ≠ some id) : op.Leaves id :=
  fun ledger now => by rw [get?_apply, if_neg h]

/-- What a run does as its members settle concerns its own record. -/
theorem Noted.sameAt {id : String} (h : Noted id a b) (hid : ¬ ids id) : SameAt ids a b := by
  have hleaves : ∀ op : Op, op.id? = some id → ∀ now, SameAt ids a (a.apply now op).2 := by
    intro op hop now other hother
    refine Op.leaves_of_ne (fun hsame => hid ?_) a now
    obtain rfl := Option.some.inj (hop.symm.trans hsame)
    exact hother
  cases h with
  | unchanged => exact .refl ids a
  | commit now draft value => exact hleaves (.commit id draft value) rfl now
  | recordFailure now draft error => exact hleaves (.recordFailure id draft error) rfl now

end Ledger

/-! ## What is done below a place -/

/-- The ids of a family that are not in the one below a place. -/
def Context.Aside (root : String) (index : Nat) (id : String) : Prop :=
  Context.Family root id ∧ ¬ Context.Family (Context.childId root index) id

/-- What may be done below a place: nothing to the records of the rest of the family. -/
def Licence.below (root : String) (index : Nat) : Licence where
  measurement := fun _ => True
  op := fun op => ∀ id, Context.Aside root index id → op.Leaves id

theorem World.Becomes.sameAt {root : String} {index : Nat} {before after : World}
    (h : before.Becomes (.below root index) after) :
    before.ledger.SameAt (Context.Aside root index) after.ledger := by
  intro id haside
  refine (h.invariant (I := fun ledger => ledger.get? id = before.ledger.get? id)
    (Q := fun _ => True) (fun _ _ => trivial) (fun ledger now op hleaves hsame => ?_) rfl).1
  exact ⟨(hleaves id haside ledger now).trans hsame, fun _ _ => trivial⟩

/-- A tree of tasks whose bodies leave a family alone keeps to the family below its place. -/
theorem Process.below_ofTask {root : String} {task : Task Body}
    (hbodies : task.All (Body.Performs fun op => ∀ id, Context.Family root id → op.Leaves id))
    (index : Nat) :
    (ofTask task).Within (.below root index) (Context.Family (Context.childId root index)) := by
  refine within_ofTask (hbodies.workflows fun workflow id hid => ⟨fun _ _ => trivial, ?_⟩)
    (hbodies.imp fun body hbody => hbody.imp fun op hop id haside => hop id haside.1)
  intro op hop other haside
  have hother : id ≠ other := by
    rintro rfl
    exact haside.2 hid
  refine Ledger.Op.leaves_of_ne ?_
  cases hop <;> exact fun hsame => hother (Option.some.inj hsame)

/-! ## Stretches of one task -/

/-- Only these stretches have touched the records of these ids. -/
structure Exchange.Sole (ids : String → Prop) (before : Ledger) (past : List (Exchange σ))
    (after : Ledger) : Prop where
  first : ∀ first, past.head? = some first → before.SameAt ids first.world.ledger
  between : past.IsChain fun earlier later =>
    earlier.advance.world.ledger.SameAt ids later.world.ledger
  last : (Exchange.ledgerLeft before past).SameAt ids after

namespace Exchange.Sole

variable {ids : String → Prop} {before ledger after : Ledger} {past exchanges : List (Exchange σ)}

theorem nil (h : before.SameAt ids after) : Sole (σ := σ) ids before [] after where
  first := nofun
  between := .nil
  last := h

theorem trans (h : Sole ids before past ledger) (h' : ledger.SameAt ids after) :
    Sole ids before past after :=
  ⟨h.first, h.between, h.last.trans h'⟩

/-- One stretch more, or none. -/
theorem append (h : Sole ids before past ledger) (honce : exchanges.length ≤ 1)
    (hworld : ∀ exchange ∈ exchanges, exchange.world.ledger = ledger)
    (hafter : (Exchange.ledgerLeft ledger exchanges).SameAt ids after) :
    Sole ids before (past ++ exchanges) after := by
  match exchanges, honce with
  | [], _ =>
    rw [List.append_nil]
    exact h.trans hafter
  | [exchange], _ =>
    have hfound : (Exchange.ledgerLeft before past).SameAt ids exchange.world.ledger := by
      rw [hworld exchange List.mem_cons_self]
      exact h.last
    refine ⟨fun first hfirst => ?_, ?_, ?_⟩
    · cases past with
      | nil =>
        obtain rfl := Option.some.inj hfirst
        exact hfound
      | cons => exact h.first first hfirst
    · refine List.isChain_append.2 ⟨h.between, .singleton _, ?_⟩
      intro earlier hearlier later hlater
      obtain rfl : exchange = later := by simpa using hlater
      rw [Exchange.ledgerLeft, hearlier] at hfound
      exact hfound
    · rw [Exchange.ledgerLeft, List.getLast?_concat]
      exact hafter

end Exchange.Sole

/-! ## Members in their lodgings -/

/-- A member of a run works at its task in the session of its place and in those below, and
neither it touches the record of the run, nor anybody else those of its sessions. -/
structure Member.Lodged (id : String) (index : Nat) (before ledger : Ledger) (task : Process)
    (member : Member (Traced Process)) : Prop
    extends member.Seated Process.poll (Context.childId id index) task where
  within : member.process.task.Within (.below id index)
    (Context.Family (Context.childId id index))
  spares : member.process.Spares id
  sole : Exchange.Sole (Context.Family (Context.childId id index)) before member.process.past ledger

theorem Member.Lodged.trans {id : String} {index : Nat} {before ledger after : Ledger}
    {task : Process} {member : Member (Traced Process)}
    (h : member.Lodged id index before ledger task)
    (hsame : ledger.SameAt (Context.Family (Context.childId id index)) after) :
    member.Lodged id index before after task :=
  { h with sole := h.sole.trans hsame }

namespace Run

/-- A run with output keys that uses the shared ledger, and found it as `before`, keeps its
members in their lodgings. -/
structure Lodged (workflow : Workflow Process) (id : String) (before : Ledger) (floor : Floor)
    (members : List (Member (Traced Process))) : Prop
    extends Apart Process.poll workflow floor members where
  lodged : ∀ (index : Nat) (member : Member (Traced Process)), members[index]? = some member →
    ∃ task, workflow.members[index]? = some (member.definition, task) ∧
      member.Lodged id index before floor.world.ledger task

variable {workflow : Workflow Process} {context : Context} {before : Ledger}

theorem Lodged.resume {id : String} {floor : Floor} {members : List (Member (Traced Process))}
    (h : Lodged workflow id before floor members) (state : KeyMap String) {world : World}
    (hsame : floor.world.ledger.SameAt (Context.Family id) world.ledger) :
    Lodged workflow id before { floor with state, world } members where
  toApart := h.toApart.resume state world
  lodged := by
    intro index member hget
    obtain ⟨task, htask, hlodged⟩ := h.lodged index member hget
    exact ⟨task, htask, hlodged.trans (hsame.mono fun _ hid => hid.of_childId)⟩

section Visit

variable {visit : Visit (Traced Process)} {stretch : Stretch (Traced Process)}

/-- What a visit does in the shared ledger to the family of its run concerns the record of the
run and the family below the place of the member. -/
theorem Lodged.visited_member
    (h : Lodged workflow context.session.id before visit.floor visit.members)
    (hof : visit.Of (Traced.poll Process.poll) workflow.plan context stretch) :
    (visit.floor.world.ledger.SameAt (fun id => Context.Aside context.session.id visit.index id ∧
        id ≠ context.session.id) visit.after.1.world.ledger) ∧
      ∃ task, workflow.members[visit.index]? = some (visit.after.2.definition, task) ∧
        visit.after.2.Lodged context.session.id visit.index before visit.after.1.world.ledger
          task := by
  have hget := visit.getElem?_members
  obtain ⟨task, htask, hlodged⟩ := h.lodged _ _ hget
  have hid : visit.scope.context.session.id = context.session.id := by rw [hof.scope]; rfl
  have hrunning : ∀ access events, visit.member.phase = .running access events →
      access.sessionId context.session.id = Context.childId context.session.id visit.index := by
    intro access events hphase
    obtain ⟨draft, start, state, last, rfl, hstart, -⟩ := hlodged.running access events hphase
    exact hstart
  obtain ⟨opening, closing, htold⟩ : ∃ opening closing, Member.Told Process.poll
      (fun target => target = Context.childId context.session.id visit.index) visit.scope
      visit.floor visit.member visit.after visit.exchanges opening closing :=
    hof.told (by rw [h.keyed]; rfl) hrunning
  -- What the task is given it does below its place.
  have hbelow : ∀ exchange ∈ visit.exchanges,
      exchange.world.ledger.SameAt (Context.Aside context.session.id visit.index)
          exchange.advance.world.ledger ∧
        exchange.advance.process.Within (.below context.session.id visit.index)
          (Context.Family (Context.childId context.session.id visit.index)) := by
    intro exchange hexchange
    obtain ⟨hadvance, -, hsession⟩ := htold.works exchange hexchange
    obtain ⟨hbecomes, hwithin⟩ := hlodged.within.poll (fun _ index hfamily => hfamily.childId index)
      exchange.turn exchange.context exchange.world (hsession ▸ .refl _)
    rw [hadvance]
    exact ⟨hbecomes.sameAt, hwithin⟩
  have hleft : visit.floor.world.ledger.SameAt (Context.Aside context.session.id visit.index)
      (Exchange.ledgerLeft visit.floor.world.ledger visit.exchanges) :=
    Exchange.ledgerLeft_of (.refl _ _) fun exchange hexchange =>
      (htold.works exchange hexchange).2.1 ▸ (hbelow exchange hexchange).1
  have hnoted := htold.ledger
  rw [hid] at hnoted
  refine ⟨(hleft.mono fun _ haside => haside.1).trans (hnoted.sameAt fun hself => hself.2 rfl),
    task, hof.visited.polled.1.symm ▸ htask, ?_⟩
  refine ⟨?_, ?_, ?_, ?_⟩
  · rw [← hid] at hlodged ⊢
    exact hlodged.toSeated.visited h.keyed hof.visited
  · rw [htold.task]
    exact Exchange.taskLeft_of hlodged.within fun exchange hexchange =>
      (hbelow exchange hexchange).2
  · rw [Traced.Spares, htold.past, List.forall_mem_append]
    exact ⟨hlodged.spares, fun exchange hexchange => (hbelow exchange hexchange).1 _
      ⟨.refl _, Context.not_family_childId _ _⟩⟩
  · rw [htold.past]
    exact hlodged.sole.append htold.once
      (fun exchange hexchange => (htold.works exchange hexchange).2.1)
      (hnoted.sameAt (Context.not_family_childId _ _))

/-- So a visit keeps all members in their lodgings. -/
theorem Lodged.visited
    (h : Lodged workflow context.session.id before visit.floor visit.members)
    (hof : visit.Of (Traced.poll Process.poll) workflow.plan context stretch) :
    Lodged workflow context.session.id before visit.after.1 visit.left := by
  obtain ⟨hsame, hmember⟩ := h.visited_member hof
  refine ⟨(h.toApart.visited hof).1, fun index member hget => ?_⟩
  rw [visit.left_eq_set, List.getElem?_set] at hget
  split at hget
  next hindex =>
    split at hget
    · obtain rfl := Option.some.inj hget
      exact hindex ▸ hmember
    · cases hget
  next hother =>
    obtain ⟨task, htask, hlodged⟩ := h.lodged index member hget
    refine ⟨task, htask, hlodged.trans (hsame.mono fun id hfamily => ?_)⟩
    refine ⟨⟨hfamily.of_childId, ?_⟩, ?_⟩
    · exact fun hsame => hother (hsame.place_inj hfamily)
    · rintro rfl
      exact Context.not_family_childId _ _ hfamily

end Visit

/-! ## Histories -/

/-- The members of a run that has just been opened are in their lodgings. -/
theorem lodged_open {world : World} {floor : Floor} (hkeyed : workflow.isKeyed = true)
    (hmembers : ∀ member ∈ workflow.members, ∀ index, member.2.Within
      (.below context.session.id index)
      (Context.Family (Context.childId context.session.id index)))
    (h : (ofWorkflow workflow.traced).open context world = .ok floor) :
    Lodged workflow context.session.id world.ledger floor (ofWorkflow workflow.traced).members := by
  obtain ⟨hapart, -⟩ := apart_open Process.poll hkeyed h
  refine ⟨hapart, fun index member hget => ?_⟩
  obtain ⟨definition, task, htask, rfl⟩ := getElem?_members_ofWorkflow hget
  have hopened : world.ledger.SameAt
      (Context.Family (Context.childId context.session.id index)) floor.world.ledger := by
    have hopens := open_shared h
    generalize floor.world.ledger = ledger at hopens ⊢
    cases hopens with
    | unchanged => exact .refl _ _
    | created _ _ now =>
      refine fun id hfamily => Ledger.Op.leaves_of_ne (fun hsame => ?_) world.ledger now
      obtain rfl := Option.some.inj hsame
      exact Context.not_family_childId _ _ hfamily
  exact ⟨task, htask, Member.seated_fresh .., hmembers _ (List.mem_of_getElem? htask) index,
    fun _ hmem => absurd hmem List.not_mem_nil, .nil hopened⟩

/-- The records of these ids are left to a run: there are none of them when it begins, and
nobody else touches them between two of its stretches. -/
structure Reserved (ids : String → Prop) (history : List (Stretch σ)) : Prop where
  free : ∀ first, history.getLast? = some first →
    ∀ id, ids id → first.world.ledger.get? id = none
  between : history.IsChain fun later earlier =>
    earlier.step.world.ledger.SameAt ids later.world.ledger

section Histories

variable {history : List (Stretch (Traced Process))} {first : Stretch (Traced Process)}
  (hkeyed : workflow.isKeyed = true)
  (h : History (Traced.poll Process.poll) context (ofWorkflow workflow.traced) history)
  (hmembers : ∀ member ∈ workflow.members, ∀ index, member.2.Within
    (.below context.session.id index) (Context.Family (Context.childId context.session.id index)))
  (hreserved : Reserved (Context.Family context.session.id) history)
include hkeyed h hmembers hreserved

/-- At the end of every stretch the members of a run are in their lodgings. -/
theorem History.lodged (hfirst : history.getLast? = some first) :
    ∀ stretch ∈ history, Comes (Lodged workflow context.session.id first.world.ledger)
      (ofWorkflow workflow.traced) context stretch := by
  refine (h.log_invariant
    (P := fun _ floor members =>
      Lodged workflow context.session.id first.world.ledger floor members)
    (S := fun _ world => world = first.world)
    (R := fun _ earlier _ later =>
      earlier.ledger.SameAt (Context.Family context.session.id) later.ledger)
    rfl ?_ ?_ ?_ ?_ hreserved.between ?_).2
  · exact fun _ floor members hP => hP.keyed.trans (hP.carries.any_isSome.trans hkeyed).symm
  · rintro state world floor rfl hopen
    exact @lodged_open _ (context.withState state) _ _ hkeyed hmembers hopen
  · rintro visit hmem hP
    obtain ⟨stretch, -, hof⟩ := h.of_mem_log hmem
    exact hP.visited hof
  · intro earliest hearliest
    obtain rfl : first = earliest := Option.some.inj (hfirst.symm.trans hearliest)
    rfl
  · exact fun _ _ _ state world hP hsame => hP.resume state hsame

/-- So nobody else touches the record of the run. -/
theorem History.undisturbed : Undisturbed context.session.id history where
  between := hreserved.between.imp fun _ _ hsame => hsame _ (.refl _)
  within := by
    intro stretch hstretch member hmem
    obtain ⟨first, hfirst⟩ : ∃ first, history.getLast? = some first :=
      ⟨_, List.getLast?_eq_some_getLast (List.ne_nil_of_mem hstretch)⟩
    obtain ⟨index, hget⟩ := List.mem_iff_getElem?.1 hmem
    rcases (h.lodged hkeyed hmembers hreserved hfirst stretch hstretch).members with hfresh |
      ⟨_, hlodged⟩
    · rw [hfresh] at hget
      obtain ⟨definition, task, -, rfl⟩ := getElem?_members_ofWorkflow hget
      exact fun _ hpast => absurd hpast List.not_mem_nil
    · obtain ⟨_, -, hmember⟩ := hlodged.lodged index member hget
      exact hmember.spares

end Histories

end Run

end Coordination
