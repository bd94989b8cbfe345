import LgLang.Import
import LgLang.Syntax.Parser
import Std.Data.TreeSet

/-!
# Walking along imports

The walk starts at the root and follows imports depth first. Every file is loaded at most once, so that cycles end.
The frames of the stack are the files on the way from the root to where the walk is; an import of one of them closes a
cycle. What goes wrong anywhere is reported at the import of the root that led there.

Before each read the walk asks whether it has been cancelled. The answers are given by a function, `cancelled k` being
the answer to question number `k`, and the walk keeps count of its questions and a list of its reads.
-/

namespace LgLang.Import

/-- A file being walked: the index of its next import and the imports from there on. -/
structure Frame where
  file : ScopeFile
  position : Nat
  rest : List Syntax.Import

/-- The frame of a file that has just been loaded. -/
def Frame.enter (f : ScopeFile) : Frame :=
  ⟨f, 0, f.file.imports⟩

/-- What a walk has noted besides the files. Lists are kept with the latest item first. -/
structure Log where
  graph : ImportGraph
  diagnostics : List Diagnostic
  reads : List Uri
  /-- How many times it was asked whether the walk is cancelled. -/
  questions : Nat

/-- The log of a walk that starts after `questions` questions. -/
def Log.start (questions : Nat) : Log :=
  ⟨.empty, [], [], questions⟩

def Log.report (log : Log) (d : Diagnostic) : Log :=
  { log with diagnostics := d :: log.diagnostics }

/-- What a walk works with. -/
structure Env where
  sources : Sources
  cancelled : Nat → Bool
  root : ScopeFile

/-- The span of an import of the root. -/
def Env.rootSpan (env : Env) (via : Nat) : Span :=
  ((env.root.file.imports[via]?).map (·.span)).getD .origin

/-- Why following an import brought nothing. -/
inductive Failure where
  | unresolvable (target : String)
  | source (e : SourceError)

def Failure.code : Failure → DiagnosticCode
  | unresolvable _ => .invalidImport
  | source _ => .unreadableImport

def Failure.message : Failure → String
  | unresolvable target => s!"cannot resolve import target '{target}'"
  | source e => e.message

/-- The finding about an import that brought nothing. When it does not stand in the root, it tells where it does. -/
def failureDiagnostic (env : Env) (via : Nat) (current : ScopeFile) (i : Syntax.Import) (f : Failure) : Diagnostic :=
  if current.isRoot then .warning f.code (env.rootSpan via) f.message
  else
    { severity := .warning, code := f.code, span := env.rootSpan via
      message := s!"{f.message} (imported through {current.uri.displayName})"
      related := [⟨current.uri, i.span, "imported here"⟩] }

/-- The finding about an import that closes a cycle. `path` holds the files from the root to the importing one. -/
def cycleDiagnostic (env : Env) (via : Nat) (current : ScopeFile) (i : Syntax.Import) (path : List Uri)
    (target : Uri) : Diagnostic :=
  let cycle := path.dropWhile (· != target) ++ [target]
  { severity := .information, code := .importCycle, span := env.rootSpan via
    message := "import cycle: " ++ " -> ".intercalate (cycle.map Uri.displayName)
    related := [⟨current.uri, i.span, "cycle closes here"⟩] }

/-- What following an import leads to. -/
inductive Step where
  | cancelled
  /-- Nothing to walk into. -/
  | pass
  /-- A file that has not been walked yet. -/
  | enter (f : ScopeFile)

/-- Follows an import of the file on top of the stack. -/
def follow (env : Env) (stack : List Frame) (visited : Std.TreeSet Uri) (current : ScopeFile) (position : Nat)
    (i : Syntax.Import) (log : Log) : Step × Log :=
  let via := current.via.getD position
  match env.sources.resolve current.uri i.target with
  | none => (.pass, log.report (failureDiagnostic env via current i (.unresolvable i.target)))
  | some target =>
    -- The edge is noted first: a file that cannot be read is imported all the same.
    let log := { log with graph := log.graph.addEdge current.uri target }
    if visited.contains target then
      -- Of the files loaded so far, only those on the way from the root can close a cycle.
      let path := (stack.map (·.file.uri)).reverse
      if path.contains target then (.pass, log.report (cycleDiagnostic env via current i path target))
      else (.pass, log)
    else if env.cancelled log.questions then (.cancelled, { log with questions := log.questions + 1 })
    else
      let log := { log with questions := log.questions + 1, reads := target :: log.reads }
      match env.sources.read target with
      -- A failed read leaves no trace among the visited files, so the next import of the file reads again.
      | .error e => (.pass, log.report (failureDiagnostic env via current i (.source e)))
      | .ok text =>
        (.enter {
          uri := target, text, file := (Syntax.parse text).file, via := some via
          qualifier := if current.isRoot then i.qualifier else none }, log)

/-- What a walk has found: the files besides the root, latest first, and the log; or none if it was cancelled. -/
structure Walked where
  finished : Bool
  others : List ScopeFile
  log : Log

/-- Follows the imports of `current` from `position` on, above the frames `below`, until one of them leads to a file that
has not been walked yet. With the last step come the stack and the log behind it. -/
def followEach (env : Env) (visited : Std.TreeSet Uri) (current : ScopeFile) (below : List Frame) :
    (position : Nat) → (rest : List Syntax.Import) → Log → Step × List Frame × Log
  | _, [], log => (.pass, below, log)
  | position, i :: rest, log =>
    let stack := ⟨current, position + 1, rest⟩ :: below
    match follow env stack visited current position i log with
    | (.pass, log) => followEach env visited current below (position + 1) rest log
    | (step, log) => (step, stack, log)

/-- Follows the imports of all files on the stack, from the top, until one of them leads to a file that has not been
walked yet. -/
def advance (env : Env) (visited : Std.TreeSet Uri) : List Frame → Log → Step × List Frame × Log
  | [], log => (.pass, [], log)
  | top :: below, log =>
    match followEach env visited top.file below top.position top.rest log with
    | (.pass, _, log) => advance env visited below log
    | found => found

/-- Walks until the stack is empty or the walk is cancelled. At most `room` more files are walked; a walk that loads one
more file ends there. -/
def walk (env : Env) (room : Nat) (stack : List Frame) (visited : Std.TreeSet Uri) (others : List ScopeFile)
    (log : Log) : Walked :=
  match advance env visited stack log with
  | (.cancelled, _, log) => ⟨false, others, log⟩
  | (.pass, _, log) => ⟨true, others, log⟩
  | (.enter f, stack, log) =>
    match room with
    | 0 => ⟨true, f :: others, log⟩
    | room + 1 => walk env room (.enter f :: stack) (visited.insert f.uri) (f :: others) log

/-- The walk along all imports of a root, after `questions` questions. -/
def walkFrom (sources : Sources) (cancelled : Nat → Bool) (root : ScopeFile) (questions : Nat) : Walked :=
  walk ⟨sources, cancelled, root⟩ sources.capacity [.enter root] (({} : Std.TreeSet Uri).insert root.uri) []
    (.start questions)

/-- The scope that a finished walk has found. -/
def Walked.scope (w : Walked) (root : ScopeFile) : Scope where
  root
  others := w.others.reverse
  graph := w.log.graph
  diagnostics := w.log.diagnostics.reverse

end LgLang.Import
