import Coordination.KeyMap

/-!
# Sessions and contexts

A session belongs to a user and an application and holds values by key. A
context is what a sub-task is given to run in: a session, the invocation it
belongs to, and an instruction.
-/

namespace Coordination

/-- The values that a workflow, or one of its sub-tasks, works on. -/
structure Session where
  id : String
  user : String
  app : String
  state : KeyMap String
  deriving DecidableEq, Repr

/-- What a sub-task runs in. -/
structure Context where
  session : Session
  /-- The number of the invocation that the context belongs to. -/
  invocation : Nat
  instruction : Option String
  deriving DecidableEq, Repr

namespace Context

/-- The values of the session. -/
def state (context : Context) : KeyMap String := context.session.state

/-- The context with other values in its session. -/
def withState (context : Context) (state : KeyMap String) : Context :=
  { context with session := { context.session with state } }

/-- The context with a value in its session. -/
def set (context : Context) (key value : String) : Context :=
  context.withState (context.state.insert key value)

/-- The context with another instruction, or none. -/
def withInstruction (context : Context) (instruction : Option String) : Context :=
  { context with instruction }

/-- The context of the same session without an instruction. -/
def shallowCopy (context : Context) : Context := context.withInstruction none

/-- A context of a new session for the same user, application and invocation. -/
def child (context : Context) (id : String) (state : KeyMap String) : Context where
  session := { context.session with id, state }
  invocation := context.invocation
  instruction := none

/-- The session id of a sub-task, made of its workflow's and its place. -/
def childId (parent : String) (index : Nat) : String := s!"{parent}-sub-{index}"

end Context

end Coordination
