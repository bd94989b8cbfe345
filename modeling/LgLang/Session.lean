/-!
# Sessions

A client opens a session by `initialize` and `initialized`, and ends it by `shutdown` and `exit`. Documents and requests
are served only in between, while the session is ready. A message that makes no sense where the session stands is
refused and changes nothing.
-/

namespace LgLang

/-- Where a session stands. -/
inductive SessionState where
  /-- Nothing has been heard from the client. -/
  | uninitialized
  /-- `initialize` was answered; `initialized` is expected. -/
  | initializing
  /-- Requests are served. -/
  | ready
  /-- `shutdown` was answered; only `exit` is expected. -/
  | shuttingDown
  | exited
  deriving DecidableEq, Repr, Inhabited

namespace SessionState

/-- The state in words for people. -/
def label : SessionState → String
  | uninitialized => "Uninitialized"
  | initializing => "Initializing"
  | ready => "Ready"
  | shuttingDown => "Shutting down"
  | exited => "Exited"

/-- Whether documents and requests are served. -/
def isReady (s : SessionState) : Bool :=
  s == ready

end SessionState

/-- The messages that move a session. -/
inductive SessionEvent where
  | initializeRequest
  | initializedNotice
  | shutdownRequest
  | exitNotice
  deriving DecidableEq, Repr

namespace SessionEvent

/-- The method of the message. -/
def method : SessionEvent → String
  | initializeRequest => "initialize"
  | initializedNotice => "initialized"
  | shutdownRequest => "shutdown"
  | exitNotice => "exit"

end SessionEvent

/-- Why a message was refused. -/
inductive SessionError where
  /-- It came before the session was ready. -/
  | notInitialized (method : String)
  /-- It came after `shutdown`. -/
  | shuttingDown (method : String)
  /-- `initialize` came a second time. -/
  | alreadyInitialized
  /-- No other reason fits. -/
  | unexpectedEvent (event : SessionEvent) (state : SessionState)
  deriving DecidableEq, Repr

/-- The name of the reason in machine-readable output. -/
def SessionError.name : SessionError → String
  | notInitialized _ => "NotInitialized"
  | shuttingDown _ => "ShuttingDown"
  | alreadyInitialized => "AlreadyInitialized"
  | unexpectedEvent _ _ => "UnexpectedEvent"

def SessionError.message : SessionError → String
  | notInitialized method => s!"server is not initialized, cannot handle '{method}'"
  | shuttingDown method => s!"server is shutting down, cannot handle '{method}'"
  | alreadyInitialized => "server is already initialized"
  | unexpectedEvent event state => s!"unexpected '{event.method}' while {state.label}"

namespace SessionState

/-- The state that a message leads to, or why it is refused. -/
def next : SessionState → SessionEvent → Except SessionError SessionState
  | _, .exitNotice => .ok exited
  | uninitialized, .initializeRequest => .ok initializing
  | initializing, .initializedNotice => .ok ready
  | ready, .shutdownRequest => .ok shuttingDown
  | initializing, .initializeRequest | ready, .initializeRequest => .error .alreadyInitialized
  | uninitialized, .shutdownRequest | initializing, .shutdownRequest =>
    .error (.notInitialized SessionEvent.shutdownRequest.method)
  | shuttingDown, .initializeRequest | exited, .initializeRequest =>
    .error (.shuttingDown SessionEvent.initializeRequest.method)
  | shuttingDown, .shutdownRequest | exited, .shutdownRequest =>
    .error (.shuttingDown SessionEvent.shutdownRequest.method)
  | state, event => .error (.unexpectedEvent event state)

/-- Whether a request other than `initialize` and `shutdown` is served. -/
def serve (s : SessionState) (method : String) : Except SessionError Unit :=
  match s with
  | ready => .ok ()
  | uninitialized | initializing => .error (.notInitialized method)
  | shuttingDown | exited => .error (.shuttingDown method)

end SessionState

/-- A change of state. -/
structure Transition where
  source : SessionState
  target : SessionState
  event : SessionEvent
  deriving DecidableEq, Repr

/-- The transition as it is shown to people. -/
def Transition.describe (t : Transition) : String :=
  s!"{t.source.label} -> {t.target.label} ({t.event.method})"

/-- The latest transitions, oldest first. -/
structure TransitionHistory where
  capacity : Nat
  transitions : List Transition
  deriving DecidableEq, Repr

namespace TransitionHistory

def empty (capacity : Nat) : TransitionHistory :=
  ⟨capacity, []⟩

/-- Notes a transition and forgets the oldest one when there is no room. -/
def record (h : TransitionHistory) (t : Transition) : TransitionHistory :=
  { h with transitions := (if h.capacity ≤ h.transitions.length then h.transitions.tail else h.transitions) ++ [t] }

/-- One transition per line. -/
def describe (h : TransitionHistory) : String :=
  "\n".intercalate (h.transitions.map Transition.describe)

end TransitionHistory

/-- A session with a client. -/
structure Session where
  state : SessionState
  history : TransitionHistory
  /-- Whether the client went on after a `shutdown` that was accepted. -/
  cleanlyShutDown : Bool
  deriving DecidableEq, Repr

namespace Session

/-- A session that remembers up to `capacity` transitions. -/
def start (capacity : Nat) : Session :=
  ⟨.uninitialized, .empty capacity, false⟩

/-- Moves the session. -/
def apply (s : Session) (event : SessionEvent) : Except SessionError Session :=
  match s.state.next event with
  | .ok state => .ok {
      state
      history := s.history.record ⟨s.state, state, event⟩
      cleanlyShutDown := s.cleanlyShutDown || s.state == .shuttingDown }
  | .error e => .error e

/-- The exit code of the process: zero only after a clean shutdown. -/
def exitCode (s : Session) : Nat :=
  if s.state = .exited ∧ s.cleanlyShutDown then 0 else 1

end Session

end LgLang
