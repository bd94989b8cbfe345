import LgLang.Proofs.Analysis.Observation
import LgLang.Proofs.Workbench.Scheduling
import LgLang.Proofs.Workbench.Steps
import LgLang.Proofs.Workspace.Publisher
import LgLang.Server

/-!
# Scenes

A scene is a server whose session is ready, the disk beside it, and a record that the server does not have: what every
analysis of a job was made of, and what documents said when its result was committed. Events are the notices of a
client about documents and files, changes of the disk among them, and the steps of jobs; `step` is what the server
does, with the record kept beside it.
-/

namespace LgLang

open Import (answer)
open Workspace (Document Documents Snapshot Snapshots Job Jobs JobStage Tag Change)

/-- What an analysis is made of. -/
structure Basis where
  text : String
  read : Uri → Except SourceError String

namespace Basis

def context (b : Basis) (s : Surroundings) : AnalysisContext where
  sources := { read := b.read }
  engine := s.engine
  functions := s.functions

/-- The analysis of a document. -/
def analysis (b : Basis) (s : Surroundings) (u : Uri) : Analysis :=
  analyzeDocument (b.context s) u b.text

/-- The documents that the analysis asks for. -/
def reads (b : Basis) (s : Surroundings) (u : Uri) : List Uri :=
  documentReads (b.context s) u b.text

/-- A document could not be read. -/
def Fails (b : Basis) (v : Uri) : Prop :=
  ∀ text, b.read v ≠ .ok text

end Basis

/-- A server, what is around it, and the record of its analyses. -/
structure Scene where
  server : Server
  surroundings : Surroundings
  /-- For the number of a job, what its analysis was made of. -/
  basis : Nat → Option Basis
  /-- For the number of a job, what documents said when it committed its result. -/
  committed : Nat → Option (Uri → Except SourceError String)

namespace Scene

/-- What can happen. -/
inductive Event where
  | opened (u : Uri) (document : Document)
  | changed (u : Uri) (version : Int) (changes : List Change)
  | closed (u : Uri)
  /-- The disk changes and the client tells of files. -/
  | filesChanged (disk : Disk) (us : List Uri)
  | captured (n : Nat)
  | analyzed (n : Nat)
  | committed (n : Nat)
  /-- A job takes its three steps at once. -/
  | ran (n : Nat)

def bench (sc : Scene) : Workbench :=
  sc.server.bench

def workspace (sc : Scene) : Workspace :=
  sc.server.bench.workspace

def document? (sc : Scene) (u : Uri) : Option Document :=
  sc.workspace.documents.get? u

/-- The result that is kept for a document. -/
def kept? (sc : Scene) (u : Uri) : Option (Snapshot Workspace.Result) :=
  sc.workspace.snapshots.get? u

/-- What the open documents and the disk say of a document. -/
def read (sc : Scene) : Uri → Except SourceError String :=
  sc.workspace.present sc.surroundings.disk

/-- The analysis of a document from the open documents and the disk alone. -/
def fresh (sc : Scene) (u : Uri) (text : String) : Analysis :=
  (⟨text, sc.read⟩ : Basis).analysis sc.surroundings u

/-- A ready server that has not been told of any document. -/
def start (base : Config) (surroundings : Surroundings) (id : Server.RequestId)
    (client : Server.ClientInfo) : Scene where
  server := ((Server.start base).onStart surroundings id client).onNotification .initialized
  surroundings
  basis _ := none
  committed _ := none

/-- The text that a job is about to analyze. -/
def capturedText? (sc : Scene) (n : Nat) : Option String :=
  match sc.bench.jobs.find? n with
  | some { cancelled := false, stage := .captured text, .. } => some text
  | _ => none

/-- Whether a job is about to commit a result. -/
def hasResult (sc : Scene) (n : Nat) : Bool :=
  match sc.bench.jobs.find? n with
  | some { stage := .analyzed _, .. } => true
  | _ => false

def notify (sc : Scene) (n : Server.Notification) : Scene :=
  { sc with server := sc.server.onNotification n }

def capture (sc : Scene) (n : Nat) : Scene :=
  { sc with server := sc.server.jobStep (·.captureStep n) }

def analyze (sc : Scene) (n : Nat) : Scene :=
  { sc with
    server := sc.server.jobStep (·.analyzeStep sc.surroundings n)
    basis := fun m =>
      if m = n then (sc.capturedText? n).elim (sc.basis n) fun text => some ⟨text, sc.read⟩ else sc.basis m }

def commit (sc : Scene) (n : Nat) : Scene :=
  { sc with
    server := sc.server.jobStep (·.commitStep n)
    committed := fun m => if m = n ∧ sc.hasResult n = true then some sc.read else sc.committed m }

def step (sc : Scene) : Event → Scene
  | .opened u document => sc.notify (.didOpen u document)
  | .changed u version changes => sc.notify (.didChange u version changes)
  | .closed u => sc.notify (.didClose u)
  | .filesChanged disk us =>
    { sc with surroundings := { sc.surroundings with disk } }.notify (.didChangeFiles us)
  | .captured n => sc.capture n
  | .analyzed n => sc.analyze n
  | .committed n => sc.commit n
  | .ran n => ((sc.capture n).analyze n).commit n

def run (sc : Scene) (es : List Event) : Scene :=
  es.foldl step sc

/-- An analysis is the one of a text now: it was made of this text, and each document that it asked for still gives the
same answer. -/
def Agrees (sc : Scene) (b : Basis) (u : Uri) (text : String) : Prop :=
  b.text = text ∧ ∀ v ∈ b.reads sc.surroundings u, answer b.read v = answer sc.read v

theorem analysis_eq_fresh_iff {sc : Scene} {b : Basis} {u : Uri} {text : String} :
    b.analysis sc.surroundings u = sc.fresh u text ↔ sc.Agrees b u text := by
  refine Iff.trans analyzeDocument_eq_iff ?_
  exact and_congr eq_comm (forall₂_congr fun v _ => eq_comm)

/-- A result that is kept for a document was made of a basis. -/
def MadeOf (sc : Scene) (u : Uri) (b : Basis) : Prop :=
  ∃ s, sc.kept? u = some s ∧ sc.basis s.tag.sequence = some b

/-- A file that the server knows of: it is in the cache, or the analysis of a kept result asked for it. -/
def Knows (sc : Scene) (v : Uri) : Prop :=
  sc.workspace.files.contains v = true ∨ ∃ u b, sc.MadeOf u b ∧ v ∈ b.reads sc.surroundings u

/-- The client tells of every file that the server knows of and that has changed on disk. -/
def Announced (sc : Scene) : Event → Prop
  | .filesChanged disk us => ∀ v, sc.Knows v →
    FileCache.entryAt disk v ≠ FileCache.entryAt sc.surroundings.disk v → v ∈ us
  | _ => True

/-- The scenes of a run, each with the event that comes next. -/
def Moment (start : Scene) (es : List Event) (before : Scene) (e : Event) : Prop :=
  ∃ done rest, es = done ++ e :: rest ∧ before = start.run done

end Scene

end LgLang
