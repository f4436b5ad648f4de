import Coordination.Context

/-!
# Contexts that share sessions

Contexts by name, where several may refer to one session. A write through one
of them is seen through all that refer to its session, and through no other.
Sessions are numbered in the order in which they are made, and so are
invocations.
-/

namespace Coordination

/-- A context that refers to a session by its number. -/
structure Handle where
  session : Nat
  invocation : Nat
  instruction : Option String
  deriving DecidableEq, Repr

/-- Sessions, and the contexts that refer to them by name. -/
structure Sharing where
  sessions : List Session
  handles : KeyMap Handle
  /-- The number of invocations so far. -/
  invocations : Nat
  deriving DecidableEq, Repr

namespace Sharing

/-- No session and no context. -/
def empty : Sharing := ⟨[], .empty, 0⟩

/-- What can be done with contexts. Results go by the first name of a step. -/
inductive Step where
  /-- A context of a new session and a new invocation. -/
  | new (name id user app : String) (state : KeyMap String)
  /-- A context of a new invocation in the session of another. -/
  | fromShared (name source : String)
  | shallowCopy (name source : String)
  | clone (name source : String)
  /-- A context of a new session, with the given values or those of the other. -/
  | child (name source id : String) (state : Option (KeyMap String))
  | withInstruction (name source : String) (instruction : Option String)
  | set (name key value : String)
  | extend (name : String) (state : KeyMap String)
  | look (name : String)
  deriving DecidableEq, Repr

/-- The name that a step is about. -/
def Step.name : Step → String
  | new name .. | fromShared name _ | shallowCopy name _ | clone name _ | child name ..
  | withInstruction name .. | set name .. | extend name _ | look name => name

/-- The context of a name, with its session as it stands. -/
def context? (sharing : Sharing) (name : String) : Option Context := do
  let handle ← sharing.handles.get? name
  let session ← sharing.sessions[handle.session]?
  return ⟨session, handle.invocation, handle.instruction⟩

/-- The same sessions with a handle for a name. -/
def bind (sharing : Sharing) (name : String) (handle : Handle) : Sharing :=
  { sharing with handles := sharing.handles.insert name handle }

/-- One more session, and a handle on it. -/
def addSession (sharing : Sharing) (name : String) (session : Session) (invocation : Nat)
    (instruction : Option String) : Sharing :=
  { sharing with sessions := sharing.sessions ++ [session] }.bind name
    ⟨sharing.sessions.length, invocation, instruction⟩

/-- Changes the values of the session that a name refers to. -/
def change (sharing : Sharing) (name : String) (f : KeyMap String → KeyMap String) : Sharing :=
  match sharing.handles.get? name with
  | none => sharing
  | some handle =>
    { sharing with
      sessions := sharing.sessions.modify handle.session fun session =>
        { session with state := f session.state } }

/-- Carries out a step. A step on a name without a context changes nothing. -/
def apply (sharing : Sharing) : Step → Sharing
  | .new name id user app state =>
    { sharing with invocations := sharing.invocations + 1 }.addSession name ⟨id, user, app, state⟩
      sharing.invocations none
  | .fromShared name source =>
    match sharing.handles.get? source with
    | none => sharing
    | some handle =>
      { sharing with invocations := sharing.invocations + 1 }.bind name
        ⟨handle.session, sharing.invocations, none⟩
  | .shallowCopy name source =>
    match sharing.handles.get? source with
    | none => sharing
    | some handle => sharing.bind name { handle with instruction := none }
  | .clone name source =>
    match sharing.handles.get? source with
    | none => sharing
    | some handle => sharing.bind name handle
  | .child name source id state =>
    match sharing.context? source with
    | none => sharing
    | some context =>
      let child := context.child id (state.getD context.state)
      sharing.addSession name child.session child.invocation child.instruction
  | .withInstruction name source instruction =>
    match sharing.handles.get? source with
    | none => sharing
    | some handle => sharing.bind name { handle with instruction }
  | .set name key value => sharing.change name fun state => state.insert key value
  | .extend name values => sharing.change name fun state => state.overlay values
  | .look _ => sharing

/-- The sessions and contexts after steps. -/
def run (sharing : Sharing) (steps : List Step) : Sharing := steps.foldl apply sharing

end Sharing

end Coordination
