import LgLang.Workspace
import LgLang.Workspace.Jobs
import LgLang.Workspace.Publisher

/-!
# The workbench

A workspace together with the jobs that analyze its documents and with what has been published of their results. A job
takes three steps: it captures the text of its document, analyzes it, and commits the result. Anything may happen
between the steps. A job whose document has meanwhile another version, or that was cancelled, ends without a result.
-/

namespace LgLang

open Workspace (Job JobStage Jobs Publisher Tag)

/-- A workspace with its jobs and publications. -/
structure Workbench where
  workspace : Workspace
  jobs : Jobs
  publisher : Publisher Editor.Notice

namespace Workbench

def start (config : Config) : Workbench :=
  ⟨.start config, .empty, .empty⟩

/-! ## Asking for jobs -/

/-- Asks for the analysis of a document as it is now, if it is open. Gives the number of the job. -/
def schedule (b : Workbench) (u : Uri) (delay : Nat) : Workbench × Option Nat :=
  match b.workspace.documents.get? u with
  | none => (b, none)
  | some d => ({ b with jobs := b.jobs.schedule u d.version delay }, some (b.jobs.count + 1))

/-- Asks for the analysis of several documents. -/
def scheduleEach (b : Workbench) (us : List Uri) (delay : Nat) : Workbench :=
  us.foldl (fun b u => (b.schedule u delay).1) b

/-- Asks for the analysis of the open documents that depend on a file. -/
def scheduleDependents (b : Workbench) (u : Uri) (delay : Nat) : Workbench :=
  b.scheduleEach (b.workspace.openDependents u) delay

/-- Asks for the analysis of a document and of the open documents that depend on it. -/
def scheduleWithDependents (b : Workbench) (u : Uri) (delay : Nat) : Workbench :=
  (b.schedule u delay).1.scheduleDependents u delay

def cancel (b : Workbench) (u : Uri) : Workbench :=
  { b with jobs := b.jobs.cancel u }

def cancelAll (b : Workbench) : Workbench :=
  { b with jobs := b.jobs.cancelAll }

/-! ## Steps of jobs -/

/-- Whether a document is open at the version that a job is for. -/
def isDue (b : Workbench) (j : Job) : Bool :=
  match b.workspace.documents.get? j.uri with
  | some d => d.version == j.version
  | none => false

def finish (b : Workbench) (n : Nat) : Workbench :=
  { b with jobs := b.jobs.finish n }

/-- A waiting job captures the text of its document. -/
def captureStep (b : Workbench) (n : Nat) : Workbench :=
  match b.jobs.find? n with
  | some { uri, version, cancelled := false, stage := .waiting, .. } =>
    match b.workspace.documents.get? uri with
    | some d => if d.version = version then { b with jobs := b.jobs.setStage n (.captured d.content) } else b.finish n
    | none => b.finish n
  | some { cancelled := true, stage := .waiting, .. } => b.finish n
  | _ => b

/-- A job analyzes the text that it has captured. -/
def analyzeStep (b : Workbench) (s : Surroundings) (n : Nat) : Workbench :=
  match b.jobs.find? n with
  | some { uri, cancelled := false, stage := .captured text, .. } =>
    let (a, workspace) := b.workspace.analyze s uri text
    { b with workspace, jobs := b.jobs.setStage n (.analyzed a) }
  | some { cancelled := true, stage := .captured _, .. } => b.finish n
  | _ => b

/-- The result of a job is kept and published, if it still describes its document and is newer than what is known. -/
def commit (b : Workbench) (j : Job) (a : Analysis) : Workbench :=
  -- The document may have gone on while the job was at work.
  if j.cancelled || !b.isDue j then b
  else
    let tag : Tag := ⟨j.version, j.sequence⟩
    match b.workspace.commit? j.uri tag a with
    | none => b
    | some workspace =>
      { b with workspace, publisher := b.publisher.publish j.uri tag (b.workspace.resultOf a).notices }

/-- A job that has analyzed its document commits the result and ends. -/
def commitStep (b : Workbench) (n : Nat) : Workbench :=
  match b.jobs.find? n with
  | some j =>
    match j.stage with
    | .analyzed a => (b.commit j a).finish n
    | _ => b
  | none => b

/-- A job takes all of its steps at once. -/
def runJob (b : Workbench) (s : Surroundings) (n : Nat) : Workbench :=
  ((b.captureStep n).analyzeStep s n).commitStep n

/-- Every job that waits for at most `patience` milliseconds takes its steps, up to the commit for those whose analysis
is `held` back. -/
def runJobs (b : Workbench) (s : Surroundings) (patience : Nat) (held : Analysis → Bool) : Workbench :=
  (b.jobs.unfinished.filter (·.delay ≤ patience)).foldl (fun b j =>
    let b := (b.captureStep j.sequence).analyzeStep s j.sequence
    match b.jobs.find? j.sequence with
    | some { stage := .analyzed a, .. } => if held a then b else b.commitStep j.sequence
    | _ => b) b

end Workbench

end LgLang
