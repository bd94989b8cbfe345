import LgLang.Config
import LgLang.Disk.Cache
import LgLang.Editor.Notice
import LgLang.Workspace.Dependencies
import LgLang.Workspace.Documents
import LgLang.Workspace.Snapshots

/-!
# The workspace

Everything that the server knows of a client's documents: the open ones, what each of them depends on, the latest
result for each, the settings, and the files that have been read from disk. An open document hides the file of the same
name. This module also holds how the workspace follows what the client tells of its documents.
-/

namespace LgLang

/-- What the workspace works with but does not own. -/
structure Surroundings where
  engine : Expression.Engine
  functions : Registry
  disk : Disk

namespace Workspace

/-- The result of a finished analysis and the notices made of it. -/
structure Result where
  analysis : Analysis
  notices : List Editor.Notice

end Workspace

/-- What the server knows of a client's documents. -/
structure Workspace where
  documents : Workspace.Documents
  dependencies : Workspace.Dependencies
  snapshots : Workspace.Snapshots Workspace.Result
  files : FileCache
  config : Config

namespace Workspace

/-- A workspace without documents. -/
def start (config : Config) : Workspace :=
  ⟨.empty, .empty, .empty, .empty, config⟩

/-! ## Reading -/

/-- The text of a document: what the client sent if it is open, else what is on disk. -/
def read (w : Workspace) (d : Disk) (u : Uri) : Except SourceError String :=
  match w.documents.get? u with
  | some document => .ok document.content
  | none => (w.files.read d u).1

/-- The workspace after a read. -/
def afterRead (w : Workspace) (d : Disk) (u : Uri) : Workspace :=
  if w.documents.isOpen u then w else { w with files := (w.files.read d u).2 }

/-- The workspace after several reads. -/
def afterReads (w : Workspace) (d : Disk) (us : List Uri) : Workspace :=
  us.foldl (fun w u => w.afterRead d u) w

/-- What an analysis of a document of the workspace works with. -/
def context (w : Workspace) (s : Surroundings) : AnalysisContext where
  sources := { read := w.read s.disk }
  engine := s.engine
  functions := s.functions

/-- Analyzes a text under the name of a document. -/
def analyze (w : Workspace) (s : Surroundings) (u : Uri) (text : String) : Analysis × Workspace :=
  let ctx := w.context s
  let walked := documentWalk ctx u text fun _ => false
  (analyzeWalked ctx u text walked, w.afterReads s.disk walked.log.reads.reverse)

/-- The analysis is the one in the context of the workspace, and what it asks for is read. -/
theorem analyze_eq (w : Workspace) (s : Surroundings) (u : Uri) (text : String) :
    w.analyze s u text =
      (analyzeDocument (w.context s) u text, w.afterReads s.disk (documentReads (w.context s) u text)) := rfl

/-- An analysis of a document as it is now. -/
structure Current where
  analysis : Analysis
  /-- Whether the analysis had to be made; otherwise it is the kept result. -/
  isNew : Bool
  /-- The workspace after what had to be read. -/
  workspace : Workspace

/-- The analysis of an open document as it is now: the latest result if it still holds, or else a new analysis, which is
not kept. -/
def currentAnalysis? (w : Workspace) (s : Surroundings) (u : Uri) : Option Current :=
  match w.documents.get? u with
  | none => none
  | some document =>
    let fresh := fun (_ : Unit) =>
      let (a, after) := w.analyze s u document.content
      some ⟨a, true, after⟩
    match w.snapshots.get? u with
    | some snapshot => if snapshot.isCurrent document.version then some ⟨snapshot.content.analysis, false, w⟩ else fresh ()
    | none => fresh ()

/-! ## Keeping results -/

/-- The open documents that depend on a file, directly or through others, in order. -/
def openDependents (w : Workspace) (u : Uri) : List Uri :=
  (w.dependencies.affected u).filter w.documents.isOpen

/-- Notes that something has changed on which the results of the open dependents of a file rest. -/
def markDependentsStale (w : Workspace) (u : Uri) : Workspace :=
  { w with snapshots := (w.openDependents u).foldl Snapshots.markStale w.snapshots }

/-- The result of an analysis under the settings of the workspace. -/
def resultOf (w : Workspace) (a : Analysis) : Result :=
  ⟨a, Editor.Notice.ofAnalysis w.config a⟩

/-- Keeps the result of an analysis if it is newer than the one before. -/
def commit? (w : Workspace) (u : Uri) (tag : Tag) (a : Analysis) : Option Workspace :=
  (w.snapshots.commit? u ⟨w.resultOf a, tag, false⟩).map fun snapshots =>
    { w with snapshots, dependencies := w.dependencies.replace u a.scope.dependencies }

/-! ## Following the client -/

/-- The client has opened a document. -/
def openDocument (w : Workspace) (u : Uri) (d : Document) : Workspace :=
  { w with documents := w.documents.opened u d }

/-- The client has changed a document. -/
def changeDocument (w : Workspace) (u : Uri) (version : Int) (changes : List Change) :
    Except ChangeError Workspace :=
  match w.documents.change u version changes with
  | .error e => .error e
  | .ok documents =>
    .ok ({ w with documents, snapshots := w.snapshots.markStale u }.markDependentsStale u)

/-- The client has saved a document. -/
def saveDocument (w : Workspace) (u : Uri) : Workspace :=
  { w with files := w.files.invalidate u }

/-- The client has closed a document. From now on its file counts again for the documents that depend on it. -/
def closeDocument (w : Workspace) (u : Uri) : Workspace :=
  { w with
    documents := w.documents.close u
    dependencies := w.dependencies.forget u
    snapshots := w.snapshots.remove u }.markDependentsStale u

/-- A file has changed on disk. Gives the open documents that this concerns. -/
def fileChanged (w : Workspace) (u : Uri) : Workspace × List Uri :=
  let w := { w with files := w.files.invalidate u }
  -- An open document is what the client has sent, whatever is on disk.
  if w.documents.isOpen u then (w, []) else (w.markDependentsStale u, w.openDependents u)

/-- Several files have changed on disk. Gives the open documents that this concerns, in order. -/
def filesChanged (w : Workspace) (us : List Uri) : Workspace × List Uri :=
  let (w, concerned) := us.foldl (fun (w, concerned) u =>
    let (w, more) := w.fileChanged u
    (w, concerned ++ more)) (w, [])
  (w, (Std.TreeSet.ofList concerned).toList)

/-- Forgets all documents, results and files. -/
def clear (w : Workspace) : Workspace :=
  .start w.config

end Workspace

end LgLang
