import LgLang.Analysis
import LgLang.Config
import LgLang.Editor.Location

/-!
# Notices

A notice is a finding as it is sent to a client: placed by a range instead of a span, at the level that the settings
give to its rule, and with its related places located in their documents.
-/

namespace LgLang.Editor

/-- Another place that explains a notice. -/
structure RelatedNotice where
  location : Location
  message : String
  deriving DecidableEq, Repr

/-- A finding as it is sent to a client. -/
structure Notice where
  range : Range
  severity : Severity
  code : DiagnosticCode
  message : String
  related : List RelatedNotice
  deriving DecidableEq, Repr

namespace Notice

/-- A related place; one in a document outside the scope has no range to speak of. -/
def relatedOf (scope : Scope) (r : RelatedLocation) : RelatedNotice :=
  ⟨(Location.inScope? scope r.uri r.span).getD ⟨r.uri, .origin⟩, r.message⟩

/-- The notice of a finding in a scope. -/
def ofDiagnostic (scope : Scope) (d : Diagnostic) : Notice where
  range := .ofSpan scope.root.text d.span
  severity := d.severity
  code := d.code
  message := d.message
  related := d.related.map (relatedOf scope)

/-- The notices of an analysis under the given settings. -/
def ofAnalysis (config : Config) (a : Analysis) : List Notice :=
  (config.adjustAll a.diagnostics).map (ofDiagnostic a.scope)

/-! ## Written for clients -/

/-- The number of a severity in messages. -/
def severityNumber : Severity → Nat
  | .error => 1
  | .warning => 2
  | .information => 3

def RelatedNotice.toJson (r : RelatedNotice) : Json :=
  .obj [("location", r.location.toJson), ("message", .str r.message)]

/-- A related place in the data that comes with a notice. -/
def RelatedNotice.toData (r : RelatedNotice) : Json :=
  .obj [("uri", .str r.location.uri.text), ("range", r.location.range.toJson), ("message", .str r.message)]

def toJson (n : Notice) : Json :=
  .obj <|
    [("range", n.range.toJson), ("severity", .ofNat (severityNumber n.severity)), ("code", .str n.code.name),
      ("source", .str "lg"), ("message", .str n.message)] ++
    (if n.related.isEmpty then [] else [("relatedInformation", .arr (n.related.map RelatedNotice.toJson))]) ++
    [("data", .obj [("kind", .str n.code.kind.name), ("related", .arr (n.related.map RelatedNotice.toData))])]

end Notice

end LgLang.Editor
