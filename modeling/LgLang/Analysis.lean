import LgLang.Import.Walk
import LgLang.Analysis.Symbol
import LgLang.Analysis.Reference
import LgLang.Expression
import LgLang.Function

/-!
# Analysis of a document

`analyze` parses a document, walks along its imports, and checks it against the templates of its scope and the known
functions. References are collected in every file of the scope; findings are reported for the root alone. An analysis
can be cancelled between its stages, before each read and before each file; then it has no result at all.
-/

namespace LgLang

/-- What an analysis works with. -/
structure AnalysisContext where
  sources : Sources
  engine : Expression.Engine
  functions : Registry

/-- Everything known about one version of a document. -/
structure Analysis where
  scope : Scope
  symbols : SymbolTable
  references : ReferenceIndex
  diagnostics : List Diagnostic

namespace Analysis

def uri (a : Analysis) : Uri :=
  a.scope.root.uri

def text (a : Analysis) : String :=
  a.scope.root.text

def file (a : Analysis) : Syntax.File :=
  a.scope.root.file

/-- The symbol that is defined or used at an offset of the root. -/
def symbolAt? (a : Analysis) (offset : Nat) : Option Symbol :=
  match a.symbols.definedAt? a.uri offset with
  | some s => some s
  | none =>
    match a.references.at? a.uri offset with
    | some r => if r.target = .template then a.symbols.resolve? r.key else none
    | none => none

end Analysis

namespace Analyzer

/-! ## Names -/

/-- A scope in which names are looked up. -/
structure Env where
  engine : Expression.Engine
  functions : Registry
  scope : Scope
  symbols : SymbolTable

/-- Whether the part of a name before its first dot is the alias of a file in the scope. -/
def Env.isQualified (env : Env) (name : String) : Bool :=
  let cs := name.toList
  let qualifier := String.ofList (cs.takeWhile (· != '.'))
  cs.contains '.' && env.scope.files.any (·.qualifier == some qualifier)

/-- What a name written in a file means. The templates of that file come first, unless it is the root; then the
symbols of the scope; then, where they are allowed, the functions. -/
def Env.lookUp (env : Env) (f : ScopeFile) (name : String) (allowFunctions : Bool) : String × Target :=
  if !f.isRoot && (f.file.template? name).isSome then (qualify f.qualifier name, .template)
  else if env.symbols.contains name then (name, .template)
  else if allowFunctions && (env.functions.find? name).isSome then (name, .function)
  else (name, .unresolved)

/-! ## References -/

/-- The reference of a bracket. -/
def Env.bracketReference (env : Env) (f : ScopeFile) (r : Syntax.Reference) : Reference :=
  let (key, target) := env.lookUp f r.name false
  { name := r.name, key, uri := f.uri, span := r.span, kind := .bracket, argumentCount := none, target }

/-- The reference of a call in a segment whose content begins at `base`. -/
def Env.callReference (env : Env) (f : ScopeFile) (base : Nat) (c : Expression.CallSite) : Reference :=
  let (key, target) := env.lookUp f c.name true
  { name := c.name, key, uri := f.uri, span := c.span.shift base, kind := .call
    argumentCount := c.argumentCount, target }

/-- The references of all calls in a segment. -/
def Env.segmentCalls (env : Env) (f : ScopeFile) (s : Syntax.Segment) : List Reference :=
  (env.engine.parse s.expression).calls.map (env.callReference f s.contentSpan.start)

/-- Whether a call is kept in the index. Of the calls that nothing in the scope answers, only those behind an alias are
kept: any other may be a method of some value. -/
def Env.isIndexed (env : Env) (r : Reference) : Bool :=
  r.target != .unresolved || env.isQualified r.name

/-- The references of a template that the index keeps. -/
def Env.templateReferences (env : Env) (f : ScopeFile) (t : Syntax.Template) : List Reference :=
  (t.segments.flatMap fun s => (env.segmentCalls f s).filter env.isIndexed) ++
    t.references.map (env.bracketReference f)

/-- The references of a file that the index keeps. -/
def Env.fileReferences (env : Env) (f : ScopeFile) : List Reference :=
  f.file.templates.flatMap (env.templateReferences f)

/-! ## Findings -/

/-- The place of the error about a name with several definitions: the second of them, or the import of the root that
brought it in. -/
def duplicateSpan (root : ScopeFile) (second : Symbol) : Span :=
  match second.via with
  | none => second.nameSpan
  | some via => ((root.file.imports[via]?).map (·.span)).getD .origin

/-- The error about a name with several definitions that count. -/
def duplicateDiagnostic (root : ScopeFile) (name : String) (active : List Symbol) : Option Diagnostic :=
  active[1]?.map fun second =>
    { severity := .error, code := .duplicateTemplate, span := duplicateSpan root second
      message := s!"template '{name}' is defined {active.length} times in this scope"
      related := active.map fun s => ⟨s.uri, s.nameSpan, s!"'{name}' defined here"⟩ }

/-- The errors about names with several definitions that count. -/
def Env.duplicateDiagnostics (env : Env) : List Diagnostic :=
  env.symbols.duplicates.filterMap fun (name, active) => duplicateDiagnostic env.scope.root name active

/-- The errors about parameters that repeat an earlier one; `seen` are the names so far. -/
def repeatedParameters (seen : List String) : List Syntax.Parameter → List Diagnostic
  | [] => []
  | p :: ps =>
    if seen.contains p.name then
      .error .duplicateParameter p.span s!"parameter '{p.name}' is declared more than once" ::
        repeatedParameters seen ps
    else repeatedParameters (p.name :: seen) ps

/-- The findings about the form of a template. -/
def shapeDiagnostics (t : Syntax.Template) : List Diagnostic :=
  repeatedParameters [] t.parameters ++
    if t.isEmpty then [.warning .emptyTemplate t.nameSpan s!"template '{t.name}' has no body"] else []

/-- An error about the number of arguments of a call. -/
def arityDiagnostic (span : Span) (what name expected : String) (count : Nat) : Diagnostic :=
  .error .arityMismatch span s!"{what} '{name}' expects {expected} but got {count}"

/-- A number of arguments in words. -/
def argumentsText (n : Nat) : String :=
  if n = 1 then s!"{n} argument" else s!"{n} arguments"

/-- The findings about a call. -/
def Env.callDiagnostics (env : Env) (r : Reference) : List Diagnostic :=
  match r.target with
  | .template =>
    match r.argumentCount, env.symbols.resolve? r.key with
    | some count, some s =>
      if count = s.parameters.length then []
      else [arityDiagnostic r.span "template" r.name (argumentsText s.parameters.length) count]
    | _, _ => []
  | .function =>
    match r.argumentCount, env.functions.find? r.name with
    | some count, some f =>
      if f.arity.accepts count then [] else [arityDiagnostic r.span "function" r.name f.arity.describe count]
    | _, _ => []
  | .unresolved =>
    -- With a dot and no alias before it, this may be the method of some value.
    if env.isQualified r.name || !r.name.toList.contains '.' then
      [.error .unknownReference r.span s!"unknown template or function '{r.name}'"]
    else []

/-- The findings about the mistakes in a segment. One without extent is placed on the whole segment. -/
def Env.mistakeDiagnostics (env : Env) (s : Syntax.Segment) : List Diagnostic :=
  (env.engine.parse s.expression).mistakes.map fun m =>
    let span := m.span.shift s.contentSpan.start
    .error .expressionSyntax (if span.isEmpty then s.span else span) m.message

/-- The findings about a bracket reference. -/
def bracketDiagnostics (r : Reference) : List Diagnostic :=
  if r.target = .unresolved then [.error .unknownReference r.span s!"unknown template '{r.name}'"] else []

/-- The findings about a template of the root. -/
def Env.templateDiagnostics (env : Env) (t : Syntax.Template) : List Diagnostic :=
  let root := env.scope.root
  shapeDiagnostics t ++
    (t.segments.flatMap fun s =>
      env.mistakeDiagnostics s ++ (env.segmentCalls root s).flatMap env.callDiagnostics) ++
    t.references.flatMap fun r => bracketDiagnostics (env.bracketReference root r)

/-- The findings of the checks of a scope. -/
def Env.diagnostics (env : Env) : List Diagnostic :=
  env.duplicateDiagnostics ++ env.scope.root.file.templates.flatMap env.templateDiagnostics

/-- The analysis of a scope whose root was parsed with the given findings. -/
def analyzeScope (engine : Expression.Engine) (functions : Registry) (scope : Scope)
    (parserFindings : List Diagnostic) : Analysis :=
  let symbols := SymbolTable.ofScope scope
  let env : Env := ⟨engine, functions, scope, symbols⟩
  { scope, symbols
    references := .ofList (scope.files.flatMap env.fileReferences)
    diagnostics := Diagnostic.merge [parserFindings, scope.diagnostics, env.diagnostics] }

end Analyzer

/-- The walk along the imports of a document, after the question that follows parsing. -/
def documentWalk (ctx : AnalysisContext) (uri : Uri) (text : String) (cancelled : Nat → Bool) : Import.Walked :=
  Import.walkFrom ctx.sources cancelled (.root uri text (Syntax.parse text).file) 1

/-- The analysis of a document whose walk is finished. -/
def analyzeWalked (ctx : AnalysisContext) (uri : Uri) (text : String) (w : Import.Walked) : Analysis :=
  let parsed := Syntax.parse text
  Analyzer.analyzeScope ctx.engine ctx.functions (w.scope (.root uri text parsed.file)) parsed.diagnostics

/-- The analysis of a document that nobody cancels. -/
def analyzeDocument (ctx : AnalysisContext) (uri : Uri) (text : String) : Analysis :=
  analyzeWalked ctx uri text (documentWalk ctx uri text fun _ => false)

/-- The documents that an analysis asks for, in order. -/
def documentReads (ctx : AnalysisContext) (uri : Uri) (text : String) : List Uri :=
  (documentWalk ctx uri text fun _ => false).log.reads.reverse

/-- What an analysis that could be cancelled yields. -/
structure AnalysisRun where
  /-- The result, or none if the analysis was cancelled. -/
  result : Option Analysis
  /-- The documents whose texts were asked for, in order. -/
  reads : List Uri
  /-- How many times it was asked whether the analysis is cancelled. -/
  questions : Nat

/-- What is said of an analysis that was cancelled. -/
def cancellationMessage : String :=
  "analysis was cancelled"

/-- Asks `count` questions from number `question` on and stops at the first affirmative answer. Gives the number of
the next question and whether every answer was negative. -/
def askEach (cancelled : Nat → Bool) (question : Nat) : (count : Nat) → Nat × Bool
  | 0 => (question, true)
  | count + 1 => if cancelled question then (question + 1, false) else askEach cancelled (question + 1) count

/-- Analyzes a document, asking along the way whether it is cancelled: after parsing, before each read, after the walk
and before each file. -/
def analyze (ctx : AnalysisContext) (uri : Uri) (text : String) (cancelled : Nat → Bool) : AnalysisRun :=
  if cancelled 0 then ⟨none, [], 1⟩
  else
    let walked := documentWalk ctx uri text cancelled
    let reads := walked.log.reads.reverse
    if walked.finished then
      match askEach cancelled walked.log.questions (walked.others.length + 2) with
      | (questions, false) => ⟨none, reads, questions⟩
      | (questions, true) => ⟨some (analyzeWalked ctx uri text walked), reads, questions⟩
    else ⟨none, reads, walked.log.questions⟩

end LgLang
