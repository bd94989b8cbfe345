import LgLang.Span
import LgLang.Uri

/-!
# Diagnostics

A diagnostic is one finding about a text: how grave it is (`Severity`), which rule found it (`DiagnosticCode`), where
it is, what it says and which other places explain it. The findings of several stages are put together by `merge`,
which keeps the first finding of each rule at each span and sorts by place.
-/

namespace LgLang

/-- How grave a finding is. -/
inductive Severity where
  | information
  | warning
  | error
  deriving DecidableEq, Repr, Inhabited

namespace Severity

/-- The name in machine-readable output. -/
def name : Severity → String
  | .information => "information"
  | .warning => "warning"
  | .error => "error"

def ofName? : String → Option Severity
  | "information" => some .information
  | "warning" => some .warning
  | "error" => some .error
  | _ => none

/-- The name in reports for people. -/
def label : Severity → String
  | .information => "info"
  | .warning => "warning"
  | .error => "error"

theorem ofName?_name (s : Severity) : ofName? s.name = some s := by
  cases s <;> rfl

end Severity

/-- The broad family that a finding belongs to. -/
inductive FindingKind where
  | syntactic
  | reference
  | structural
  | protocol
  | io
  deriving DecidableEq, Repr

/-- The name of a family in machine-readable output. -/
def FindingKind.name : FindingKind → String
  | .syntactic => "syntax"
  | .reference => "reference"
  | .structural => "structural"
  | .protocol => "protocol"
  | .io => "io"

/-- The rules, in the order in which findings at one place are listed. -/
inductive DiagnosticCode where
  | invalidTemplateHeader
  | unexpectedBodyLine
  | unterminatedExpression
  | unterminatedStructure
  | invalidStructuredProperty
  | duplicateStructuredProperty
  | misplacedKeyword
  | invalidCondition
  | emptyBranch
  | invalidImport
  | importNotInHeader
  | expressionSyntax
  | unknownReference
  | arityMismatch
  | duplicateTemplate
  | duplicateParameter
  | emptyTemplate
  | importCycle
  | unreadableImport
  deriving DecidableEq, Repr, Inhabited

namespace DiagnosticCode

/-- Every rule, in order. -/
def all : List DiagnosticCode :=
  [.invalidTemplateHeader, .unexpectedBodyLine, .unterminatedExpression, .unterminatedStructure,
    .invalidStructuredProperty, .duplicateStructuredProperty, .misplacedKeyword, .invalidCondition, .emptyBranch,
    .invalidImport, .importNotInHeader, .expressionSyntax, .unknownReference, .arityMismatch, .duplicateTemplate,
    .duplicateParameter, .emptyTemplate, .importCycle, .unreadableImport]

/-- The stable name of a rule, as editors show it and as configurations refer to it. -/
def name : DiagnosticCode → String
  | .invalidTemplateHeader => "invalid-template-header"
  | .unexpectedBodyLine => "unexpected-body-line"
  | .unterminatedExpression => "unterminated-expression"
  | .unterminatedStructure => "unterminated-structure"
  | .invalidStructuredProperty => "invalid-structured-property"
  | .duplicateStructuredProperty => "duplicate-structured-property"
  | .misplacedKeyword => "misplaced-keyword"
  | .invalidCondition => "invalid-condition"
  | .emptyBranch => "empty-branch"
  | .invalidImport => "invalid-import"
  | .importNotInHeader => "import-not-in-header"
  | .expressionSyntax => "expression-syntax"
  | .unknownReference => "unknown-reference"
  | .arityMismatch => "arity-mismatch"
  | .duplicateTemplate => "duplicate-template"
  | .duplicateParameter => "duplicate-parameter"
  | .emptyTemplate => "empty-template"
  | .importCycle => "import-cycle"
  | .unreadableImport => "unreadable-import"

/-- The rule of a name. -/
def ofName? (s : String) : Option DiagnosticCode :=
  all.find? (·.name == s)

/-- The place of a rule in the order. -/
def rank : DiagnosticCode → Nat
  | .invalidTemplateHeader => 0
  | .unexpectedBodyLine => 1
  | .unterminatedExpression => 2
  | .unterminatedStructure => 3
  | .invalidStructuredProperty => 4
  | .duplicateStructuredProperty => 5
  | .misplacedKeyword => 6
  | .invalidCondition => 7
  | .emptyBranch => 8
  | .invalidImport => 9
  | .importNotInHeader => 10
  | .expressionSyntax => 11
  | .unknownReference => 12
  | .arityMismatch => 13
  | .duplicateTemplate => 14
  | .duplicateParameter => 15
  | .emptyTemplate => 16
  | .importCycle => 17
  | .unreadableImport => 18

/-- The family of a rule. -/
def kind : DiagnosticCode → FindingKind
  | .invalidImport | .unknownReference | .arityMismatch => .reference
  | .duplicateTemplate | .duplicateParameter | .emptyTemplate | .importCycle => .structural
  | .unreadableImport => .io
  | _ => .syntactic

instance : Ord DiagnosticCode where
  compare a b := compare a.rank b.rank

instance : Hashable DiagnosticCode where
  hash c := hash c.rank

/-- The list of all rules has each rule at its rank. -/
theorem all_getElem?_rank (c : DiagnosticCode) : all[c.rank]? = some c := by
  cases c <;> rfl

theorem rank_injective {a b : DiagnosticCode} (h : a.rank = b.rank) : a = b :=
  Option.some.inj (by rw [← all_getElem?_rank a, h, all_getElem?_rank b])

end DiagnosticCode

/-- Another place that explains a finding. -/
structure RelatedLocation where
  uri : Uri
  span : Span
  message : String
  deriving DecidableEq, Repr

/-- One finding about a text. -/
structure Diagnostic where
  severity : Severity
  code : DiagnosticCode
  span : Span
  message : String
  related : List RelatedLocation := []
  deriving DecidableEq, Repr

namespace Diagnostic

def error (code : DiagnosticCode) (span : Span) (message : String) : Diagnostic :=
  { severity := .error, code, span, message }

def warning (code : DiagnosticCode) (span : Span) (message : String) : Diagnostic :=
  { severity := .warning, code, span, message }

def information (code : DiagnosticCode) (span : Span) (message : String) : Diagnostic :=
  { severity := .information, code, span, message }

/-- What must differ between two findings of a merged list: where they are and which rule they come from. -/
def key (d : Diagnostic) : Span × DiagnosticCode :=
  (d.span, d.code)

/-- Findings are listed by span, then by rule. -/
def precedes (a b : Diagnostic) : Bool :=
  ((compare a.span b.span).then (compare a.code b.code)).isLE

/-- Keeps the first finding of each key. -/
def firstOfEachKey (ds : List Diagnostic) : List Diagnostic :=
  go [] ds
where
  /-- The findings whose key is not among those seen. -/
  go (seen : List (Span × DiagnosticCode)) : List Diagnostic → List Diagnostic
    | [] => []
    | d :: ds => if d.key ∈ seen then go seen ds else d :: go (d.key :: seen) ds

/-- The findings of several stages as one list: the first of each key, in the order of their places. -/
def merge (sources : List (List Diagnostic)) : List Diagnostic :=
  (firstOfEachKey sources.flatten).mergeSort precedes

end Diagnostic

end LgLang
