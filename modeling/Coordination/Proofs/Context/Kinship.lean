import Coordination.Proofs.Context.Lineage

/-!
# Which contexts share what

Each way to make a context from another hands on its session, its invocation
or both, and always its user and application. So the session of a context is
the label of its birth along all links but `child`, and its invocation the one
along all but `fromShared` (`Lineage.Tells`, kept by every step: `Tells.apply`).

* `contexts_kin`: which contexts see the writes of which, and what a context has
  in common with those that it is connected to.
-/

namespace Coordination

/-! ## Reading and writing through a name -/

namespace Sharing

variable {sharing : Sharing} {name : String} {handle : Handle} {session : Session}

theorem context?_of_get? (hhandle : sharing.handles.get? name = some handle)
    (hsession : sharing.sessions[handle.session]? = some session) :
    sharing.context? name = some ⟨session, handle.invocation, handle.instruction⟩ := by
  simp [context?, hhandle, hsession]

theorem context?_of_get?_none (hhandle : sharing.handles.get? name = none) :
    sharing.context? name = none := by
  simp [context?, hhandle]

theorem context?_addSession (sharing : Sharing) (name : String) (session : Session)
    (invocation : Nat) (instruction : Option String) :
    (sharing.addSession name session invocation instruction).context? name =
      some ⟨session, invocation, instruction⟩ := by
  have hhandle : (sharing.addSession name session invocation instruction).handles.get? name =
      some ⟨sharing.sessions.length, invocation, instruction⟩ := KeyMap.get?_insert_self _ _ _
  exact context?_of_get? hhandle List.getElem?_concat_length

/-- A write through one name is read through another that refers to the same
session. -/
theorem context?_change {writer reader : String} {written read : Handle}
    (hwriter : sharing.handles.get? writer = some written)
    (hreader : sharing.handles.get? reader = some read)
    (hsession : sharing.sessions[read.session]? = some session)
    (f : KeyMap String → KeyMap String) :
    (sharing.change writer f).context? reader =
      some ⟨if written.session = read.session then { session with state := f session.state }
        else session, read.invocation, read.instruction⟩ := by
  simp only [change, hwriter]
  refine context?_of_get? hreader ?_
  rw [List.getElem?_modify, hsession]
  split <;> rfl

end Sharing

namespace Lineage

/-! ## What a lineage tells -/

/-- Whether a context descends from a root over a session of this user and this
application. -/
def Owned (births : List Birth) (place : Nat) (session : Session) : Prop :=
  ∃ root, births[root]? = some (.root session.user session.app) ∧ Descends births root place

/-- Handles, one for each birth, such that the names of the lineage refer to
those of the sharing. Their sessions and invocations are the labels of births. -/
structure Tells (lineage : Lineage) (sharing : Sharing) (handles : List Handle) : Prop where
  sessions : Labelled Link.SharesSession lineage.births (handles.map (·.session))
  invocations : Labelled Link.SharesInvocation lineage.births (handles.map (·.invocation))
  invocation_lt : ∀ handle ∈ handles, handle.invocation < sharing.invocations
  names : ∀ name, sharing.handles.get? name = (lineage.names.get? name).bind (handles[·]?)
  places : ∀ name place, lineage.names.get? name = some place → place < handles.length
  owned : ∀ place handle, handles[place]? = some handle →
    ∃ session, sharing.sessions[handle.session]? = some session ∧
      Owned lineage.births place session

theorem Owned.append {births : List Birth} {place : Nat} {session : Session}
    (h : Owned births place session) (birth : Birth) :
    Owned (births ++ [birth]) place session := by
  obtain ⟨root, hroot, hdescends⟩ := h
  exact ⟨root, getElem?_concat_eq_some_iff.2 (.inl hroot), hdescends.append⟩

/-- A context is owned like the one it was made from. -/
theorem Owned.derived {births : List Birth} {parent : Nat} {session : Session}
    (h : Owned births parent session) (link : Link) :
    Owned (births ++ [.derived link parent]) births.length session := by
  obtain ⟨root, hroot, hdescends⟩ := h
  refine ⟨root, getElem?_concat_eq_some_iff.2 (.inl hroot), hdescends.append.tail ?_⟩
  exact ⟨link, List.getElem?_concat_length, trivial⟩

namespace Tells

variable {lineage : Lineage} {sharing : Sharing} {handles : List Handle}

theorem length_eq (h : Tells lineage sharing handles) :
    handles.length = lineage.births.length := by
  simpa using h.sessions.length_eq

theorem session_notMem (h : Tells lineage sharing handles) :
    sharing.sessions.length ∉ handles.map (·.session) := by
  intro hmem
  obtain ⟨handle, hhandle, heq⟩ := List.mem_map.1 hmem
  obtain ⟨place, hplace⟩ := List.mem_iff_getElem?.1 hhandle
  obtain ⟨session, hsession, -⟩ := h.owned place handle hplace
  have := (List.getElem?_eq_some_iff.1 hsession).1
  omega

theorem invocation_notMem (h : Tells lineage sharing handles) :
    sharing.invocations ∉ handles.map (·.invocation) := by
  intro hmem
  obtain ⟨handle, hhandle, heq⟩ := List.mem_map.1 hmem
  have := h.invocation_lt handle hhandle
  omega

theorem get?_none (h : Tells lineage sharing handles) {name : String}
    (hname : lineage.names.get? name = none) : sharing.handles.get? name = none := by
  rw [h.names, hname]
  rfl

/-- What a name refers to. -/
theorem of_get? (h : Tells lineage sharing handles) {name : String} {place : Nat}
    (hname : lineage.names.get? name = some place) :
    ∃ handle session, handles[place]? = some handle ∧
      sharing.handles.get? name = some handle ∧
      sharing.sessions[handle.session]? = some session ∧
      Owned lineage.births place session := by
  have hlt := h.places name place hname
  have hplace : handles[place]? = some handles[place] := List.getElem?_eq_getElem hlt
  obtain ⟨session, hsession, howned⟩ := h.owned place _ hplace
  exact ⟨_, session, hplace, by rw [h.names, hname]; exact hplace, hsession, howned⟩

theorem sessions_iff (h : Tells lineage sharing handles) {i j : Nat} {a b : Handle}
    (ha : handles[i]? = some a) (hb : handles[j]? = some b) :
    Connected lineage.births Link.SharesSession i j ↔ a.session = b.session :=
  h.sessions.connected_iff (by rw [List.getElem?_map, ha]; rfl) (by rw [List.getElem?_map, hb]; rfl)

theorem invocations_iff (h : Tells lineage sharing handles) {i j : Nat} {a b : Handle}
    (ha : handles[i]? = some a) (hb : handles[j]? = some b) :
    Connected lineage.births Link.SharesInvocation i j ↔ a.invocation = b.invocation :=
  h.invocations.connected_iff (by rw [List.getElem?_map, ha]; rfl)
    (by rw [List.getElem?_map, hb]; rfl)

/-! ## Step by step -/

/-- One more birth, whose handle has the right labels and a session of its owner. -/
theorem bear (h : Tells lineage sharing handles) {birth : Birth} {handle : Handle}
    {session : Session} {later : Sharing} {name : String}
    (hsessions : Labelled Link.SharesSession (lineage.births ++ [birth])
      (handles.map (·.session) ++ [handle.session]))
    (hinvocations : Labelled Link.SharesInvocation (lineage.births ++ [birth])
      (handles.map (·.invocation) ++ [handle.invocation]))
    (hcount : sharing.invocations ≤ later.invocations)
    (hlt : handle.invocation < later.invocations)
    (hhandles : later.handles = sharing.handles.insert name handle)
    (hearlier : sharing.sessions <+: later.sessions)
    (hsession : later.sessions[handle.session]? = some session)
    (howned : Owned (lineage.births ++ [birth]) lineage.births.length session) :
    Tells (lineage.bear name birth) later (handles ++ [handle]) where
  sessions := by simpa [Lineage.bear] using hsessions
  invocations := by simpa [Lineage.bear] using hinvocations
  invocation_lt := by
    intro other hmem
    rcases List.mem_append.1 hmem with hmem | hmem
    · exact Nat.lt_of_lt_of_le (h.invocation_lt other hmem) hcount
    · exact List.mem_singleton.1 hmem ▸ hlt
  names := by
    intro other
    rw [hhandles, KeyMap.get?_insert, Lineage.bear, KeyMap.get?_insert]
    split
    · simp [← h.length_eq]
    · rw [h.names]
      cases hother : lineage.names.get? other with
      | none => rfl
      | some place => exact (List.getElem?_append_left (h.places other place hother)).symm
  places := by
    intro other place hother
    rw [Lineage.bear, KeyMap.get?_insert] at hother
    rw [List.length_append, List.length_singleton]
    split at hother
    · obtain rfl := Option.some.inj hother
      rw [h.length_eq]
      exact Nat.lt_succ_self _
    · exact Nat.lt_succ_of_lt (h.places other place hother)
  owned := by
    intro place other hplace
    rcases getElem?_concat_eq_some_iff.1 hplace with hbefore | ⟨rfl, rfl⟩
    · obtain ⟨held, hheld, howned⟩ := h.owned place other hbefore
      obtain ⟨more, hmore⟩ := hearlier
      refine ⟨held, ?_, howned.append birth⟩
      rw [← hmore, List.getElem?_append_left (List.getElem?_eq_some_iff.1 hheld).1, hheld]
    · exact ⟨session, hsession, h.length_eq ▸ howned⟩

/-- A context of a new session and a new invocation. -/
theorem new (h : Tells lineage sharing handles) (name : String) (session : Session) :
    Tells (lineage.bear name (.root session.user session.app))
      ({ sharing with invocations := sharing.invocations + 1 }.addSession name session
        sharing.invocations none)
      (handles ++ [⟨sharing.sessions.length, sharing.invocations, none⟩]) :=
  h.bear (.fresh h.sessions (fun _ _ hbirth => nomatch hbirth) h.session_notMem)
    (.fresh h.invocations (fun _ _ hbirth => nomatch hbirth) h.invocation_notMem)
    (Nat.le_succ _) (Nat.lt_succ_self _) rfl (List.prefix_append _ _)
    List.getElem?_concat_length ⟨_, List.getElem?_concat_length, .refl⟩

variable {source : String} {parent : Nat} {handle : Handle}

/-- A context of a new invocation in the session of another. -/
theorem fromShared (h : Tells lineage sharing handles)
    (hsource : lineage.names.get? source = some parent)
    (hhandle : sharing.handles.get? source = some handle) (name : String) :
    Tells (lineage.bear name (.derived .fromShared parent))
      ({ sharing with invocations := sharing.invocations + 1 }.bind name
        ⟨handle.session, sharing.invocations, none⟩)
      (handles ++ [⟨handle.session, sharing.invocations, none⟩]) := by
  obtain ⟨held, session, hplace, hheld, hsession, howned⟩ := h.of_get? hsource
  obtain rfl : held = handle := Option.some.inj (hheld.symm.trans hhandle)
  refine h.bear (.inherits h.sessions ?_ ?_) (.fresh h.invocations ?_ h.invocation_notMem)
    (Nat.le_succ _) (Nat.lt_succ_self _) rfl List.prefix_rfl hsession (howned.derived _)
  · simp [Link.SharesSession]
  · rw [List.getElem?_map, hplace]
    rfl
  · rintro link place ⟨⟩
    exact fun hadmits => hadmits rfl

/-- A context of the session and the invocation of another. -/
theorem copy (h : Tells lineage sharing handles)
    (hsource : lineage.names.get? source = some parent)
    (hhandle : sharing.handles.get? source = some handle) (name : String) {link : Link}
    (hsession : link.SharesSession) (hinvocation : link.SharesInvocation)
    (instruction : Option String) :
    Tells (lineage.bear name (.derived link parent))
      (sharing.bind name { handle with instruction })
      (handles ++ [{ handle with instruction }]) := by
  obtain ⟨held, session, hplace, hheld, hget, howned⟩ := h.of_get? hsource
  obtain rfl : held = handle := Option.some.inj (hheld.symm.trans hhandle)
  refine h.bear (.inherits h.sessions hsession ?_) (.inherits h.invocations hinvocation ?_)
    (Nat.le_refl _) (h.invocation_lt held (List.mem_of_getElem? hplace)) rfl List.prefix_rfl hget
    (howned.derived _)
  · rw [List.getElem?_map, hplace]
    rfl
  · rw [List.getElem?_map, hplace]
    rfl

/-- A context of the invocation of another, in a new session of the same owner. -/
theorem child (h : Tells lineage sharing handles)
    (hsource : lineage.names.get? source = some parent)
    (hhandle : sharing.handles.get? source = some handle) {session : Session}
    (hsession : sharing.sessions[handle.session]? = some session) (name id : String)
    (state : KeyMap String) :
    Tells (lineage.bear name (.derived .child parent))
      (sharing.addSession name { session with id, state } handle.invocation none)
      (handles ++ [⟨sharing.sessions.length, handle.invocation, none⟩]) := by
  obtain ⟨held, owner, hplace, hheld, howner, howned⟩ := h.of_get? hsource
  obtain rfl : held = handle := Option.some.inj (hheld.symm.trans hhandle)
  obtain rfl : owner = session := Option.some.inj (howner.symm.trans hsession)
  refine h.bear (.fresh h.sessions ?_ h.session_notMem) (.inherits h.invocations ?_ ?_)
    (Nat.le_refl _) (h.invocation_lt held (List.mem_of_getElem? hplace)) rfl
    (List.prefix_append _ _) List.getElem?_concat_length (howned.derived _)
  · rintro link place ⟨⟩
    exact fun hadmits => hadmits rfl
  · simp [Link.SharesInvocation]
  · rw [List.getElem?_map, hplace]
    rfl

/-- A write makes no birth. -/
theorem change (h : Tells lineage sharing handles) (name : String)
    (f : KeyMap String → KeyMap String) : Tells lineage (sharing.change name f) handles := by
  unfold Sharing.change
  split
  · exact h
  · next written _ =>
    refine { h with owned := fun place handle hplace => ?_ }
    obtain ⟨session, hsession, howned⟩ := h.owned place handle hplace
    by_cases heq : written.session = handle.session
    · refine ⟨{ session with state := f session.state }, ?_, howned⟩
      simp [hsession, heq]
    · refine ⟨session, ?_, howned⟩
      simp [hsession, heq]

/-- A step that makes a context from another makes none if there is no other. -/
theorem derive (h : Tells lineage sharing handles) {name source : String} {link : Link}
    {later : Sharing} (hnone : sharing.handles.get? source = none → later = sharing)
    (hsome : ∀ parent handle, lineage.names.get? source = some parent →
      sharing.handles.get? source = some handle →
      ∃ more, Tells (lineage.bear name (.derived link parent)) later (handles ++ more)) :
    ∃ more, Tells (lineage.derive name link source) later (handles ++ more) := by
  cases hsource : lineage.names.get? source with
  | none =>
    refine ⟨[], ?_⟩
    simpa only [Lineage.derive, hsource, hnone (h.get?_none hsource), List.append_nil] using h
  | some parent =>
    obtain ⟨handle, -, -, hhandle, -, -⟩ := h.of_get? hsource
    rw [derive_of_get? hsource]
    exact hsome parent handle hsource hhandle

/-- Every step keeps to what the lineage tells, and the handles of the births
so far stay as they are. -/
theorem apply (h : Tells lineage sharing handles) (step : Sharing.Step) :
    ∃ more, Tells (lineage.apply step) (sharing.apply step) (handles ++ more) := by
  cases step with
  | new name id user app state => exact ⟨_, h.new name ⟨id, user, app, state⟩⟩
  | set name key value =>
    exact ⟨[], (List.append_nil handles).symm ▸ h.change name (·.insert key value)⟩
  | extend name values =>
    exact ⟨[], (List.append_nil handles).symm ▸ h.change name (·.overlay values)⟩
  | look => exact ⟨[], (List.append_nil handles).symm ▸ h⟩
  | fromShared name source =>
    refine h.derive (fun hnone => ?_) fun parent handle hsource hhandle => ?_
    · simp only [Sharing.apply, hnone]
    · simp only [Sharing.apply, hhandle]
      exact ⟨_, h.fromShared hsource hhandle name⟩
  | shallowCopy name source =>
    refine h.derive (fun hnone => ?_) fun parent handle hsource hhandle => ?_
    · simp only [Sharing.apply, hnone]
    · simp only [Sharing.apply, hhandle]
      have hcopied := h.copy hsource hhandle name Link.shares_shallowCopy.1
        Link.shares_shallowCopy.2 none
      exact ⟨_, hcopied⟩
  | clone name source =>
    refine h.derive (fun hnone => ?_) fun parent handle hsource hhandle => ?_
    · simp only [Sharing.apply, hnone]
    · simp only [Sharing.apply, hhandle]
      have hcopied := h.copy hsource hhandle name Link.shares_clone.1 Link.shares_clone.2
        handle.instruction
      exact ⟨_, hcopied⟩
  | withInstruction name source instruction =>
    refine h.derive (fun hnone => ?_) fun parent handle hsource hhandle => ?_
    · simp only [Sharing.apply, hnone]
    · simp only [Sharing.apply, hhandle]
      have hcopied := h.copy hsource hhandle name Link.shares_withInstruction.1
        Link.shares_withInstruction.2 instruction
      exact ⟨_, hcopied⟩
  | child name source id state =>
    refine h.derive (fun hnone => ?_) fun parent handle hsource hhandle => ?_
    · simp only [Sharing.apply, Sharing.context?_of_get?_none hnone]
    · obtain ⟨held, session, -, hheld, hsession, -⟩ := h.of_get? hsource
      simp only [Sharing.apply, Sharing.context?_of_get? hheld hsession]
      exact ⟨_, h.child hsource hheld hsession name id _⟩

theorem empty : Tells Lineage.empty Sharing.empty [] where
  sessions := .nil
  invocations := .nil
  invocation_lt := fun _ hmem => (List.not_mem_nil hmem).elim
  names := fun _ => rfl
  places := fun _ _ hname => nomatch hname
  owned := fun _ _ hplace => nomatch hplace

/-- So it is after any steps. -/
theorem run (h : Tells lineage sharing handles) (steps : List Sharing.Step) :
    ∃ more, Tells (lineage.run steps) (sharing.run steps) (handles ++ more) := by
  induction steps generalizing lineage sharing handles with
  | nil => exact ⟨[], (List.append_nil handles).symm ▸ h⟩
  | cons step steps ih =>
    obtain ⟨more, hstep⟩ := h.apply step
    obtain ⟨rest, hsteps⟩ := ih hstep
    exact ⟨more ++ rest, List.append_assoc handles more rest ▸ hsteps⟩

/-- What is read through a name. -/
theorem read (h : Tells lineage sharing handles) {name : String} {place : Nat}
    {context : Context} (hname : lineage.names.get? name = some place)
    (hcontext : sharing.context? name = some context) :
    ∃ handle, handles[place]? = some handle ∧
      sharing.sessions[handle.session]? = some context.session ∧
      context.invocation = handle.invocation ∧
      Owned lineage.births place context.session := by
  obtain ⟨handle, session, hplace, hhandle, hsession, howned⟩ := h.of_get? hname
  rw [Sharing.context?_of_get? hhandle hsession, Option.some.injEq] at hcontext
  subst hcontext
  exact ⟨handle, hplace, hsession, rfl, howned⟩

theorem isSome_context? (h : Tells lineage sharing handles) (name : String) :
    (sharing.context? name).isSome = (lineage.names.get? name).isSome := by
  cases hname : lineage.names.get? name with
  | none => rw [Sharing.context?_of_get?_none (h.get?_none hname)]; rfl
  | some place =>
    obtain ⟨handle, session, -, hhandle, hsession, -⟩ := h.of_get? hname
    rw [Sharing.context?_of_get? hhandle hsession]
    rfl

/-- A write through a name is read through the names of the births connected to its
own by links that hand on sessions, and through no other. -/
theorem context?_change (h : Tells lineage sharing handles) {writer reader : String} {i j : Nat}
    {context : Context} (hwriter : lineage.names.get? writer = some i)
    (hreader : lineage.names.get? reader = some j)
    (hcontext : sharing.context? reader = some context) (f : KeyMap String → KeyMap String) :
    (Connected lineage.births Link.SharesSession i j →
        (sharing.change writer f).context? reader = some (context.withState (f context.state))) ∧
      (¬ Connected lineage.births Link.SharesSession i j →
        (sharing.change writer f).context? reader = some context) := by
  obtain ⟨written, -, hi, hwritten, -, -⟩ := h.of_get? hwriter
  obtain ⟨read, session, hj, hread, hsession, -⟩ := h.of_get? hreader
  rw [Sharing.context?_of_get? hread hsession, Option.some.injEq] at hcontext
  subst hcontext
  rw [h.sessions_iff hi hj, Sharing.context?_change hwritten hread hsession f]
  refine ⟨fun heq => ?_, fun hne => ?_⟩
  · rw [if_pos heq]
    rfl
  · rw [if_neg hne]

/-- The session of a child is none of those before, and its birth keeps its label:
so no later link connects it with its parent. -/
theorem apart (h : Tells lineage sharing handles) {source : String} {parent : Nat}
    (hsource : lineage.names.get? source = some parent) (name : String)
    (later : List Sharing.Step) :
    ¬ Connected ((lineage.bear name (.derived .child parent)).run later).births
      Link.SharesSession parent lineage.births.length := by
  obtain ⟨handle, session, hplace, hhandle, hsession, -⟩ := h.of_get? hsource
  obtain ⟨more, hlater⟩ := (h.child hsource hhandle hsession name session.id session.state).run later
  have hparent : (handles ++ [⟨sharing.sessions.length, handle.invocation, none⟩] ++ more)[parent]? =
      some handle := by
    rw [List.append_assoc, List.getElem?_append_left (List.getElem?_eq_some_iff.1 hplace).1, hplace]
  have hchild : (handles ++ [⟨sharing.sessions.length, handle.invocation, none⟩] ++
      more)[lineage.births.length]? = some ⟨sharing.sessions.length, handle.invocation, none⟩ := by
    rw [← h.length_eq, List.getElem?_append_left (by simp), List.getElem?_concat_length]
  rw [hlater.sessions_iff hparent hchild]
  exact Nat.ne_of_lt (List.getElem?_eq_some_iff.1 hsession).1

end Tells

end Lineage

/-! ## Any steps -/

/-- The lineage of steps. -/
def lineageOf (steps : List Sharing.Step) : Lineage := Lineage.empty.run steps

/-- Whether two births are related after steps: connected by any links but `child`. -/
def Related (steps : List Sharing.Step) : Nat → Nat → Prop :=
  Connected (lineageOf steps).births Link.SharesSession

/-- What contexts share after steps, and what they do not. -/
structure Kin (steps : List Sharing.Step) : Prop where
  /-- The names that have a context are those with a birth. -/
  named : ∀ name, ((Sharing.empty.run steps).context? name).isSome =
    ((lineageOf steps).names.get? name).isSome
  /-- Related contexts refer to one session, and so read the same state. -/
  together : ∀ name other i j context context', (lineageOf steps).names.get? name = some i →
    (lineageOf steps).names.get? other = some j →
    (Sharing.empty.run steps).context? name = some context →
    (Sharing.empty.run steps).context? other = some context' →
    Related steps i j → context.session = context'.session
  /-- What is set through a context is read through those related to it, and
  nothing changes for any other. -/
  set : ∀ writer reader i j context key value, (lineageOf steps).names.get? writer = some i →
    (lineageOf steps).names.get? reader = some j →
    (Sharing.empty.run steps).context? reader = some context →
    (Related steps i j → (Sharing.empty.run (steps ++ [.set writer key value])).context? reader =
        some (context.set key value)) ∧
      (¬ Related steps i j →
        (Sharing.empty.run (steps ++ [.set writer key value])).context? reader = some context)
  /-- The same goes for many values at once. -/
  extend : ∀ writer reader i j context values, (lineageOf steps).names.get? writer = some i →
    (lineageOf steps).names.get? reader = some j →
    (Sharing.empty.run steps).context? reader = some context →
    (Related steps i j → (Sharing.empty.run (steps ++ [.extend writer values])).context? reader =
        some (context.withState (context.state.overlay values))) ∧
      (¬ Related steps i j →
        (Sharing.empty.run (steps ++ [.extend writer values])).context? reader = some context)
  /-- A child starts with the values that it was given, or else with those of its
  parent as they stand, -/
  child : ∀ name source id state context,
    (Sharing.empty.run steps).context? source = some context →
    (Sharing.empty.run (steps ++ [.child name source id state])).context? name =
      some (context.child id (state.getD context.state))
  /-- and is related to its parent at no later moment. -/
  apart : ∀ name source id state parent, (lineageOf steps).names.get? source = some parent →
    ∃ child, (lineageOf (steps ++ [.child name source id state])).names.get? name = some child ∧
      ∀ later, ¬ Related (steps ++ [.child name source id state] ++ later) parent child
  /-- A context has the user and the application of the one root that it descends from. -/
  owner : ∀ name place context, (lineageOf steps).names.get? name = some place →
    (Sharing.empty.run steps).context? name = some context →
    ∃ root, (lineageOf steps).births[root]? =
          some (.root context.session.user context.session.app) ∧
        Descends (lineageOf steps).births root place ∧
      ∀ other user app, (lineageOf steps).births[other]? = some (.root user app) →
        Descends (lineageOf steps).births other place → other = root
  /-- Contexts belong to one invocation if they are connected by any links but
  `fromShared`, and only then. -/
  invocation : ∀ name other i j context context', (lineageOf steps).names.get? name = some i →
    (lineageOf steps).names.get? other = some j →
    (Sharing.empty.run steps).context? name = some context →
    (Sharing.empty.run steps).context? other = some context' →
    (context.invocation = context'.invocation ↔
      Connected (lineageOf steps).births Link.SharesInvocation i j)

/-- What is shared is what the links between contexts hand on. -/
theorem contexts_kin (steps : List Sharing.Step) : Kin steps := by
  obtain ⟨handles, htells⟩ := Lineage.Tells.empty.run steps
  replace htells : (lineageOf steps).Tells (Sharing.empty.run steps) handles := htells
  have hrun : ∀ step, Sharing.empty.run (steps ++ [step]) =
      (Sharing.empty.run steps).apply step := fun step => List.foldl_append
  constructor
  case named => exact htells.isSome_context?
  case together =>
    intro name other i j context context' hname hother hcontext hcontext' hrelated
    obtain ⟨a, ha, hsession, -⟩ := htells.read hname hcontext
    obtain ⟨b, hb, hsession', -⟩ := htells.read hother hcontext'
    rw [(htells.sessions_iff ha hb).1 hrelated, hsession'] at hsession
    exact (Option.some.inj hsession).symm
  case set =>
    intro writer reader i j context key value hwriter hreader hcontext
    rw [hrun]
    exact htells.context?_change hwriter hreader hcontext (·.insert key value)
  case extend =>
    intro writer reader i j context values hwriter hreader hcontext
    rw [hrun]
    exact htells.context?_change hwriter hreader hcontext (·.overlay values)
  case child =>
    intro name source id state context hcontext
    simp only [hrun, Sharing.apply, hcontext]
    exact Sharing.context?_addSession _ _ _ _ _
  case apart =>
    intro name source id state parent hsource
    have hchild : lineageOf (steps ++ [.child name source id state]) =
        (lineageOf steps).bear name (.derived .child parent) :=
      (Lineage.run_append _ _ _).trans (Lineage.derive_of_get? hsource name .child)
    refine ⟨(lineageOf steps).births.length, ?_, fun later => ?_⟩
    · rw [hchild]
      exact KeyMap.get?_insert_self _ _ _
    · have hlater := Lineage.run_append Lineage.empty (steps ++ [.child name source id state]) later
      rw [Related, lineageOf, hlater, ← lineageOf, hchild]
      exact htells.apart hsource name later
  case owner =>
    intro name place context hname hcontext
    obtain ⟨-, -, -, -, root, hroot, hdescends⟩ := htells.read hname hcontext
    exact ⟨root, hroot, hdescends, fun other user app hother hplace =>
      hdescends.root_unique hroot hother hplace⟩
  case invocation =>
    intro name other i j context context' hname hother hcontext hcontext'
    obtain ⟨a, ha, -, hinvocation, -⟩ := htells.read hname hcontext
    obtain ⟨b, hb, -, hinvocation', -⟩ := htells.read hother hcontext'
    rw [htells.invocations_iff ha hb, hinvocation, hinvocation']

end Coordination
