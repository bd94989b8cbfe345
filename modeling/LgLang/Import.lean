import LgLang.Diagnostic
import LgLang.Text.Blank
import LgLang.Syntax
import LgLang.Url.Reader
import Std.Data.TreeMap
import Std.Data.TreeSet

/-!
# Imports

A document is analyzed together with every file that its imports lead to. This module holds what the walk along the
imports (`LgLang.Import.Walk`) reads and what it yields: where texts come from (`Sources`), the files found (`Scope`)
and the edges between them (`ImportGraph`).
-/

namespace LgLang

/-- Why the text of a document cannot be had. -/
inductive SourceError where
  | notFound (uri : Uri)
  | unreadable (uri : Uri) (reason : String)
  | notAFile (uri : Uri)
  deriving DecidableEq, Repr

/-- The name of the reason in machine-readable output. -/
def SourceError.name : SourceError → String
  | notFound _ => "NotFound"
  | unreadable _ _ => "Unreadable"
  | notAFile _ => "NotAFile"

def SourceError.message : SourceError → String
  | notFound uri => s!"'{uri.text}' was not found"
  | unreadable uri reason => s!"failed to read '{uri.text}': {reason}"
  | notAFile uri => s!"'{uri.text}' is not a file uri"

/-- The document that the target of an import names: relative to the importing one, and with backslashes read as
slashes. -/
def resolveTarget (base : Uri) (target : String) : Option Uri :=
  let path := (Text.trim target.toList).map fun c => if c == '\\' then '/' else c
  if path.isEmpty then none else (base.join (String.ofList path)).toOption

/-- Where the texts of imported documents come from. -/
structure Sources where
  read : Uri → Except SourceError String
  /-- The document that a target in a document names. -/
  resolve : Uri → String → Option Uri := resolveTarget
  /-- The number of files that one walk may follow the imports of, besides the root. -/
  capacity : Nat := UInt32.size

/-- A file of a scope. -/
structure ScopeFile where
  uri : Uri
  text : String
  file : Syntax.File
  /-- The index of the root's import that first led here; the root has none. -/
  via : Option Nat
  /-- The alias under which the root imports this file directly. -/
  qualifier : Option String
  deriving DecidableEq, Repr

namespace ScopeFile

def isRoot (f : ScopeFile) : Bool :=
  f.via.isNone

/-- The file as the root of a scope. -/
def root (uri : Uri) (text : String) (file : Syntax.File) : ScopeFile :=
  { uri, text, file, via := none, qualifier := none }

end ScopeFile

/-- The edges from files to the files they import. -/
structure ImportGraph where
  edges : Std.TreeMap Uri (Std.TreeSet Uri)

namespace ImportGraph

def empty : ImportGraph :=
  ⟨∅⟩

def addEdge (g : ImportGraph) (source target : Uri) : ImportGraph :=
  ⟨g.edges.insert source ((g.edges.getD source ∅).insert target)⟩

/-- The files that a file imports, in the order of their names. -/
def importsOf (g : ImportGraph) (source : Uri) : List Uri :=
  (g.edges.getD source ∅).toList

def edgeCount (g : ImportGraph) : Nat :=
  g.edges.toList.foldr (fun (_, targets) n => targets.size + n) 0

end ImportGraph

/-- A document with everything its imports lead to. -/
structure Scope where
  root : ScopeFile
  /-- The other files, in the order in which they were reached. -/
  others : List ScopeFile
  graph : ImportGraph
  diagnostics : List Diagnostic

namespace Scope

/-- The root and then the other files. -/
def files (s : Scope) : List ScopeFile :=
  s.root :: s.others

def file? (s : Scope) (uri : Uri) : Option ScopeFile :=
  s.files.find? (·.uri == uri)

/-- The files that the root depends on. -/
def dependencies (s : Scope) : List Uri :=
  s.others.map (·.uri)

end Scope

end LgLang
