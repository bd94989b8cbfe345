import LgLang.Config.Reader
import LgLang.Server.Capabilities
import LgLang.Server.Notification
import LgLang.Workbench
import LgLang.Workspace.Answer

/-!
# The language server

The server takes the client's messages one after another. Each message is handled at once and as a whole, except that
feature requests are handed to workers. A worker finds its answer at some later time and sends it at another; it sends
a failure instead when it is cancelled before that. Steps of workers and of analysis jobs may come between any two
messages and in any order.
-/

namespace LgLang

namespace Server

/-- The work on a feature request. -/
structure Worker where
  /-- The number of the worker; no other worker of the server has it. -/
  number : Nat
  id : RequestId
  request : FeatureRequest
  cancelled : Bool
  /-- The answer, once it has been found. -/
  answer : Option Json
  /-- The analysis that had to be made for the answer. -/
  made : Option Analysis

end Server

open Server

/-- The state of the server. -/
structure Server where
  session : Session
  bench : Workbench
  /-- The settings that the server was started with. -/
  base : Config
  /-- The workers that have not sent their responses. -/
  workers : List Worker
  /-- For the identifier of a request, the worker that a cancellation reaches. -/
  inFlight : List (RequestId × Nat)
  workerCount : Nat
  /-- Every response, latest first. -/
  responses : List Response

namespace Server

/-- How many changes of the session are remembered. -/
def historyCapacity : Nat := 50

/-- A server that has not heard from its client. -/
def start (base : Config) : Server where
  session := .start historyCapacity
  bench := .start base
  base
  workers := []
  inFlight := []
  workerCount := 0
  responses := []

/-- The messages that the session allows after `exit`: none. -/
def isStopped (s : Server) : Bool :=
  s.session.state == .exited

def workspace (s : Server) : Workspace :=
  s.bench.workspace

/-- How long jobs wait for further changes. -/
def debounce (s : Server) : Nat :=
  s.workspace.config.debounceMs

def respond (s : Server) (id : RequestId) (result : Except Failure Json) : Server :=
  { s with responses := ⟨id, result⟩ :: s.responses }

/-! ## Settings -/

/-- The names of the settings file of a project; the first that exists counts. -/
def settingsFileNames : List String :=
  ["lgtools.yml", "lgtools.yaml"]

/-- The settings in the file of a project folder. One that cannot be read counts as none. -/
def projectLayer (d : Disk) (folder : String) : ConfigLayer :=
  match (settingsFileNames.map fun name => folder ++ "/" ++ name).find? d.isFile with
  | none => .empty
  | some path =>
    match d.readText path with
    | .ok text => (ConfigLayer.ofYamlText? text).getD .empty
    | .error _ => .empty

/-- The settings for a client: those of the server, then the file of the project, then the client's own. -/
def configFor (base : Config) (d : Disk) (client : ClientInfo) : Config :=
  let project := match client.projectFolder?.bind (·.url.filePath?) with
    | some folder => projectLayer d folder
    | none => .empty
  let own := (client.options.bind ConfigLayer.ofJson?).getD .empty
  (base.apply project).apply own

/-! ## Requests -/

/-- Begins the session. -/
def onStart (s : Server) (sur : Surroundings) (id : RequestId) (client : ClientInfo) : Server :=
  match s.session.apply .initializeRequest with
  | .error e => s.respond id (.error (.ofSession e))
  | .ok session =>
    let workspace := { s.workspace with config := configFor s.base sur.disk client }
    { s with session, bench := { s.bench with workspace } }.respond id (.ok startResult)

/-- Marks the workers that a cancellation can reach and that satisfy a condition. -/
def cancelWorkers (s : Server) (which : RequestId → Bool) : Server :=
  let numbers := (s.inFlight.filter fun (id, _) => which id).map (·.2)
  { s with workers := s.workers.map fun w => if numbers.contains w.number then { w with cancelled := true } else w }

/-- Ends the session: all work is given up and all documents are forgotten. -/
def onShutdown (s : Server) (id : RequestId) : Server :=
  match s.session.apply .shutdownRequest with
  | .error e => s.respond id (.error (.ofSession e))
  | .ok session =>
    let bench := s.bench.cancelAll
    let bench := { bench with workspace := bench.workspace.clear }
    ({ s with session, bench }.cancelWorkers fun _ => true).respond id (.ok .null)

/-- Hands a feature request to a worker. -/
def onFeature (s : Server) (id : RequestId) (request : FeatureRequest) : Server :=
  let number := s.workerCount
  { s with
    workerCount := number + 1
    workers := s.workers ++ [⟨number, id, request, false, none, none⟩]
    inFlight := (id, number) :: s.inFlight.filter (·.1 != id) }

/-- Handles a request. -/
def onRequest (s : Server) (sur : Surroundings) (id : RequestId) (method : String) (r : Request) : Server :=
  match r with
  | .start client => s.onStart sur id client
  | .malformed true => s.respond id (.error (.invalidParams method))
  | .shutdown => s.onShutdown id
  | .malformed false | .unknown | .feature _ =>
    -- The session refuses before the method or its parameters are looked at.
    match s.session.state.serve method with
    | .error e => s.respond id (.error (.ofSession e))
    | .ok () =>
      match r with
      | .feature f => s.onFeature id f
      | .unknown => s.respond id (.error (.methodNotFound method))
      | _ => s.respond id (.error (.invalidParams method))

/-! ## Notifications -/

/-- Moves the session by a notification; one that the session refuses is ignored. -/
def onSession (s : Server) (event : SessionEvent) : Server :=
  match s.session.apply event with
  | .ok session => { s with session }
  | .error _ => s

/-- The client is gone: all work is dropped. -/
def stop (s : Server) : Server :=
  { s with bench := s.bench.cancelAll, workers := [], inFlight := [] }

/-- Follows what happens to documents while the session is ready. -/
def onDocument (s : Server) (n : Notification) : Server :=
  let b := s.bench
  let w := s.workspace
  match n with
  -- An opened document is analyzed at once; only what it concerns waits.
  | .didOpen u d =>
    let b := ({ b with workspace := w.openDocument u d }.schedule u 0).1
    { s with bench := b.scheduleDependents u s.debounce }
  | .didChange u version changes =>
    match w.changeDocument u version changes with
    | .error _ => s
    | .ok workspace => { s with bench := { b with workspace }.scheduleWithDependents u s.debounce }
  | .didSave u => { s with bench := { b with workspace := w.saveDocument u } }
  -- The job is given up first, so that nothing is published behind the empty list.
  | .didClose u =>
    let b := b.cancel u
    let b := { b with workspace := w.closeDocument u, publisher := b.publisher.clear u }
    { s with bench := b.scheduleDependents u s.debounce }
  | .didChangeFiles us =>
    let (workspace, concerned) := w.filesChanged us
    { s with bench := { b with workspace }.scheduleEach concerned s.debounce }
  | .cancel id => s.cancelWorkers (· == id)
  | .initialized | .exit | .ignored => s

/-- Handles a notification. -/
def onNotification (s : Server) (n : Notification) : Server :=
  match n with
  | .exit => (s.onSession .exitNotice).stop
  | .initialized => s.onSession .initializedNotice
  | n => if s.session.state.isReady then s.onDocument n else s

/-- Handles a message. After `exit` there are no more messages. -/
def receive (s : Server) (sur : Surroundings) (m : Incoming) : Server :=
  if s.isStopped then s
  else
    match m with
    | .request id method params => s.onRequest sur id method (.ofParams method params)
    | .notification method params => s.onNotification (.ofParams method params)
    | .response => s

/-! ## Steps of workers and jobs -/

def worker? (s : Server) (number : Nat) : Option Worker :=
  s.workers.find? (·.number == number)

/-- A worker finds its answer. -/
def answerStep (s : Server) (sur : Surroundings) (number : Nat) : Server :=
  match s.worker? number with
  | some { request, answer := none, .. } =>
    let a := s.workspace.answer sur request
    { s with
      bench := { s.bench with workspace := a.workspace }
      workers := s.workers.map fun w =>
        if w.number = number then { w with answer := some a.value, made := a.made } else w }
  | _ => s

/-- A worker is done. The identifier of its request no longer reaches any worker. -/
def dismiss (s : Server) (w : Worker) : Server :=
  { s with workers := s.workers.filter (·.number != w.number), inFlight := s.inFlight.filter (·.1 != w.id) }

/-- A worker sends its response, if it has one to send: a failure when it is cancelled, or else its answer. -/
def respondStep (s : Server) (number : Nat) : Server :=
  match s.worker? number with
  | none => s
  | some w =>
    if w.cancelled then (s.dismiss w).respond w.id (.error .cancelled)
    else
      match w.answer with
      | some answer => (s.dismiss w).respond w.id (.ok answer)
      | none => s

/-- The work of a worker breaks off before it has an answer, and the worker tells so, unless it is cancelled. -/
def breakStep (s : Server) (number : Nat) (reason : String) : Server :=
  match s.worker? number with
  | some w =>
    match w.answer with
    | none => (s.dismiss w).respond w.id (.error (if w.cancelled then .cancelled else .internal reason))
    | some _ => s
  | none => s

/-- A step of a job. -/
def jobStep (s : Server) (step : Workbench → Workbench) : Server :=
  { s with bench := step s.bench }

/-- A worker takes its steps. It does not send an answer for which a `blocked` analysis had to be made. -/
def runWorker (s : Server) (sur : Surroundings) (blocked : Analysis → Bool) (number : Nat) : Server :=
  let s := s.answerStep sur number
  -- A cancelled worker answers in any case: it does not wait for its analysis.
  match s.worker? number with
  | some { cancelled := false, made := some a, .. } => if blocked a then s else s.respondStep number
  | _ => s.respondStep number

/-- What happens until the next message: jobs that wait for at most `patience` milliseconds and workers take their
steps, as far as they need no `blocked` analysis. -/
def settle (s : Server) (sur : Surroundings) (patience : Nat) (blocked : Analysis → Bool) : Server :=
  let s := s.jobStep (·.runJobs sur patience blocked)
  s.workers.foldl (fun s w => s.runWorker sur blocked w.number) s

/-! ## What has been sent -/

/-- The responses behind the first `n`, in order. -/
def responsesAfter (s : Server) (n : Nat) : List Response :=
  s.responses.reverse.drop n

end Server

end LgLang
