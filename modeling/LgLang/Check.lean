import LgLang.Analysis
import LgLang.Config.Reader
import LgLang.Disk
import LgLang.Expression.Scan
import LgLang.Function.Builtin
import LgLang.Text.Position

/-!
# Checking files

A check analyzes files from disk with the builtin engine and functions, and reports the findings at the levels that the
settings give to them. A file that cannot be read ends the whole check.
-/

namespace LgLang.Check

/-- Why a check has no report. -/
inductive Error where
  /-- A path leads nowhere. -/
  | path (path : String) (e : DiskError)
  | source (e : SourceError)
  | configRead (path : String) (e : DiskError)
  | configParse (path : String)
  deriving DecidableEq, Repr

/-- The name of the reason in machine-readable output. -/
def Error.name : Error → String
  | path _ _ => "Path"
  | source _ => "Source"
  | configRead _ _ => "ConfigRead"
  | configParse _ => "ConfigParse"

def Error.message : Error → String
  | path p e => s!"cannot resolve {p}: {e.message}"
  | source e => e.message
  | configRead p e => s!"failed to read {p}: {e.message}"
  | configParse p => s!"failed to parse {p}"

/-- A line and a column as people count them, from one. -/
structure Place where
  line : Nat
  column : Nat
  deriving DecidableEq, Repr

namespace Place

/-- The place of a position. -/
def ofPosition (p : Position) : Place :=
  ⟨p.line + 1, p.character + 1⟩

/-- The place of an offset of a text. -/
def ofOffset (text : String) (offset : Nat) : Place :=
  ofPosition (Text.position text.toList offset)

end Place

/-- Another place that explains a finding. -/
structure RelatedEntry where
  path : String
  place : Place
  message : String
  deriving DecidableEq, Repr

/-- A finding in a report. -/
structure Entry where
  start : Place
  stop : Place
  severity : Severity
  code : DiagnosticCode
  message : String
  related : List RelatedEntry
  deriving DecidableEq, Repr

/-- The findings in a file. -/
structure Report where
  /-- The path under which the file was to be checked. -/
  path : String
  entries : List Entry
  deriving DecidableEq, Repr

namespace Report

/-- The number of findings of a severity. -/
def count (r : Report) (s : Severity) : Nat :=
  (r.entries.filter (·.severity == s)).length

end Report

/-- The number of findings of a severity in several reports. -/
def total (rs : List Report) (s : Severity) : Nat :=
  rs.foldr (fun r n => r.count s + n) 0

def hasErrors (rs : List Report) : Bool :=
  rs.any fun r => r.count .error > 0

/-- The path of a document for people, or its URL when it has none. -/
def displayPath (u : Uri) : String :=
  u.url.filePath?.getD u.text

/-- A related place; one in a document outside the scope is shown at its beginning. -/
def relatedEntry (scope : Scope) (r : RelatedLocation) : RelatedEntry where
  path := displayPath r.uri
  place := match scope.file? r.uri with
    | some f => .ofOffset f.text r.span.start
    | none => ⟨1, 1⟩
  message := r.message

def entry (scope : Scope) (d : Diagnostic) : Entry where
  start := .ofOffset scope.root.text d.span.start
  stop := .ofOffset scope.root.text d.span.stop
  severity := d.severity
  code := d.code
  message := d.message
  related := d.related.map (relatedEntry scope)

/-- The report about an analyzed file. -/
def report (path : String) (config : Config) (a : Analysis) : Report :=
  ⟨path, (config.adjustAll a.diagnostics).map (entry a.scope)⟩

/-- What files on a disk are analyzed with. -/
def context (d : Disk) : AnalysisContext where
  sources := d.sources
  engine := Expression.builtinEngine
  functions := .builtin

/-- Checks one file. -/
def checkFile (d : Disk) (config : Config) (path : String) : Except Error Report :=
  match d.canonical path with
  | .error e => .error (.path path e)
  | .ok absolute =>
    let u := (Url.ofFilePath absolute).toUri
    match d.readUri u with
    | .error e => .error (.source e)
    | .ok text => .ok (report path config (analyzeDocument (context d) u text))

/-- Checks several files. -/
def checkFiles (d : Disk) (config : Config) (paths : List String) : Except Error (List Report) :=
  paths.mapM (checkFile d config)

/-- The default settings under those of a file, if one is given. -/
def loadConfig (d : Disk) (path : Option String) : Except Error Config :=
  match path with
  | none => .ok .default
  | some path =>
    match d.readText path with
    | .error e => .error (.configRead path e)
    | .ok text =>
      match ConfigLayer.ofYamlText? text with
      | some layer => .ok (Config.default.apply layer)
      | none => .error (.configParse path)

/-- Checks several files under the settings of a file. -/
def run (d : Disk) (config : Option String) (paths : List String) : Except Error (List Report) := do
  checkFiles d (← loadConfig d config) paths

end LgLang.Check
