import LgLang.CommandLine
import LgLang.Json.Reader
import LgLang.Server
import LgLang.Server.Frame
import Std.Data.HashMap

/-!
# The program

`lg` checks files or serves an editor on standard input and output. This module only reads and writes; what is to be
done is decided by `LgLang.CommandLine` and `LgLang.Server`.

The library takes the state of the disk as a value. Here that value holds what has been looked at: a computation is
repeated until it asks for nothing that has not been looked at.
-/

namespace LgLang.Program

/-! ## The disk -/

/-- What has been looked at. -/
structure Seen where
  entries : Std.HashMap String (Except DiskError DiskEntry)
  canonical : Std.HashMap String (Except DiskError String)

def Seen.nothing : Seen :=
  ⟨∅, ∅⟩

/-- A disk that holds only what has been looked at. -/
def Seen.disk (s : Seen) : Disk where
  entry path := s.entries.getD path (.error .notFound)
  canonical path := s.canonical.getD path (.error .notFound)

def diskError : IO.Error → DiskError
  | .noFileOrDirectory _ _ _ => .notFound
  | .inappropriateType _ code _ => if code == 20 then .notADirectory else .isADirectory
  | .illegalOperation code _ => if code == 21 then .isADirectory else .other s!"os error {code}"
  | e => .other (toString e)

def lookAtFile (path : String) : IO (Except DiskError DiskEntry) := do
  if path.toList.contains '\x00' then return .error .nulInName
  try
    let bytes ← IO.FS.readBinFile path
    return .ok (.file (String.fromUTF8? bytes) none)
  catch e =>
    match diskError e with
    | .isADirectory => return .ok .directory
    | e => return .error e

def lookAtPath (path : String) : IO (Except DiskError String) := do
  if path.isEmpty then return .error .notFound
  if path.toList.contains '\x00' then return .error .nulInName
  try
    return .ok (← IO.FS.realPath path).toString
  catch e => return .error (diskError e)

/-- Looks at everything that is asked for, until nothing new is. -/
partial def explore (s : Seen) (asked : Disk → List String) : IO Seen := do
  let new := (asked s.disk).filter fun path => !s.entries.contains path
  if new.isEmpty then return s
  let mut entries := s.entries
  for path in new do
    entries := entries.insert path (← lookAtFile path)
  explore { s with entries } asked

/-- The paths of documents. -/
def paths (us : List Uri) : List String :=
  us.filterMap (·.url.filePath?)

/-! ## Checking -/

/-- The paths that a check of a file asks for. -/
def askedByFile (d : Disk) (path : String) : List String :=
  match d.canonical path with
  | .error _ => []
  | .ok absolute =>
    let u := (Url.ofFilePath absolute).toUri
    match d.readUri u with
    | .error _ => paths [u]
    | .ok text => paths (u :: documentReads (Check.context d) u text)

/-- The paths that a command line asks for. -/
def askedByCommand (c : Option Command) (d : Disk) : List String :=
  match c with
  | some (.check c) => c.config.toList ++ c.files.flatMap (askedByFile d)
  | some (.serve c) => c.config.toList
  | _ => []

/-- The disk as far as a command line asks for it. -/
def diskFor (c : Option Command) : IO Disk := do
  let mut canonical : Std.HashMap String (Except DiskError String) := ∅
  if let some (.check c) := c then
    for path in c.files do
      canonical := canonical.insert path (← lookAtPath path)
  return (← explore ⟨∅, canonical⟩ (askedByCommand c)).disk

/-- Whether reports may use colors. -/
def wantsColor : IO Bool := do
  match ← IO.getEnv "CLICOLOR_FORCE" with
  | some value => if value != "0" then return true
  | none => pure ()
  if (← IO.getEnv "NO_COLOR").isSome then return false
  if (← IO.getEnv "CLICOLOR") == some "0" then return false
  (← IO.getStdout).isTty

/-! ## Messages -/

/-- What comes from the client. -/
inductive Event where
  | message (m : Server.Incoming)
  /-- The client has gone. -/
  | closed
  /-- What came is no message. -/
  | broken
  /-- It is time for a job. -/
  | alarm

/-- Reads header lines; gives the size of the message. -/
partial def readHeader (input : IO.FS.Stream) (size : Option Nat) : IO (Except Event Nat) := do
  let line ← input.getLine
  if line.isEmpty then return .error .closed
  match Server.HeaderLine.ofLine line with
  | .empty => return match size with
    | some n => .ok n
    | none => .error .broken
  | .contentLength n => readHeader input (some n)
  | .other => readHeader input size
  | .malformed => return .error .broken

/-- Reads bytes until there are as many as wanted or the input ends. -/
partial def readBytes (input : IO.FS.Stream) (size : Nat) (bytes : ByteArray) : IO ByteArray := do
  if size ≤ bytes.size then return bytes
  let more ← input.read (size - bytes.size).toUSize
  if more.isEmpty then return bytes
  readBytes input size (bytes ++ more)

/-- Waits for the next message. -/
def readMessage (input : IO.FS.Stream) : IO Event := do
  match ← readHeader input none with
  | .error e => return e
  | .ok size =>
    let bytes ← readBytes input size ByteArray.empty
    match (String.fromUTF8? bytes).bind fun text => (Json.ofText? text).bind Server.Incoming.ofJson? with
    | some m => return .message m
    | none => return .broken

def writeMessage (output : IO.FS.Stream) (j : Json) : IO Unit := do
  output.putStr (Server.frame j.compact)
  output.flush

/-- Writes what a server has sent since an earlier time. -/
def writeNews (output : IO.FS.Stream) (before after : Server) : IO Unit := do
  for r in after.responsesAfter before.responses.length do
    writeMessage output r.toJson
  for p in after.bench.publisher.sentAfter before.bench.publisher.sent.length do
    writeMessage output (Server.notificationJson Workspace.Publication.method (p.params Editor.Notice.toJson))

/-! ## Serving -/

/-- What the server works with when the disk has a given state. -/
def surroundings (d : Disk) : Surroundings :=
  ⟨Expression.builtinEngine, .builtin, d⟩

/-- The paths that the analysis of an open document asks for. -/
def askedByDocument (w : Workspace) (d : Disk) (u : Uri) : List String :=
  match w.documents.get? u with
  | none => []
  | some document => paths (documentReads (w.context (surroundings d)) u document.content)

/-- The paths that the work of a server asks for. -/
def askedByWork (s : Server) (d : Disk) : List String :=
  (s.bench.jobs.unfinished.map (·.uri) ++ s.workers.map (·.request.uri)).flatMap (askedByDocument s.workspace d)

/-- The paths that a message asks for. -/
def askedByMessage (m : Server.Incoming) (_ : Disk) : List String :=
  match m with
  | .request _ method params =>
    match Server.Request.ofParams method params with
    | .start client =>
      match client.projectFolder?.bind (·.url.filePath?) with
      | some folder => Server.settingsFileNames.map fun name => folder ++ "/" ++ name
      | none => []
    | _ => []
  | _ => []

/-- The times at which jobs are due, by their numbers. -/
abbrev Deadlines := List (Nat × Nat)

/-- The deadlines of the unfinished jobs. -/
def deadlines (s : Server) (known : Deadlines) (now : Nat) : Deadlines :=
  s.bench.jobs.unfinished.map fun j => (j.sequence, (known.lookup j.sequence).getD (now + j.delay))

/-- Lets jobs that are due and workers take their steps. -/
def proceed (s : Server) (due : Deadlines) : IO Server := do
  let now ← IO.monoMsNow
  let seen ← explore .nothing (askedByWork s)
  let sur := surroundings seen.disk
  let s := due.foldl (fun s (n, time) => if time ≤ now then s.jobStep (·.runJob sur n) else s) s
  return s.settle sur 0 fun _ => false

/-- The next event: a message, or the time of the first job. -/
def nextEvent (reading : Task Event) (due : Deadlines) : IO Event := do
  match (due.map (·.2)).min? with
  | none => IO.wait reading
  | some time =>
    let wait := time - (← IO.monoMsNow)
    let alarm ← IO.asTask (IO.sleep wait.toUInt32)
    IO.waitAny [reading, alarm.map fun _ => .alarm]

def startReading (input : IO.FS.Stream) : IO (Task Event) := do
  let task ← IO.asTask (readMessage input) .dedicated
  return task.map fun
    | .ok e => e
    | .error _ => .broken

/-- Serves the client until it says `exit` or goes away. Gives the exit code. -/
partial def serve (input output : IO.FS.Stream) (s : Server) (reading : Task Event) (due : Deadlines) : IO Nat := do
  match ← nextEvent reading due with
  | .closed => return s.session.exitCode
  | .broken => return 1
  | .alarm =>
    let after ← proceed s due
    writeNews output s after
    serve input output after reading (deadlines after due (← IO.monoMsNow))
  | .message m =>
    let seen ← explore .nothing (askedByMessage m)
    let received := s.receive (surroundings seen.disk) m
    if received.isStopped then return received.session.exitCode
    let due := deadlines received due (← IO.monoMsNow)
    let after ← proceed received due
    writeNews output s after
    serve input output after (← startReading input) (deadlines after due (← IO.monoMsNow))

/-- Runs the program. -/
def run (args : List String) : IO Nat := do
  let d ← diskFor (CommandLine.command? args)
  match CommandLine.run d (← wantsColor) args with
  | .finish o =>
    (← IO.getStdout).putStr o.output
    for line in o.complaints do
      (← IO.getStderr).putStrLn line
    return o.exitCode
  | .serve config =>
    let input ← IO.getStdin
    serve input (← IO.getStdout) (.start config) (← startReading input) []

end LgLang.Program

def main (args : List String) : IO UInt32 := do
  return (← LgLang.Program.run args).toUInt32
