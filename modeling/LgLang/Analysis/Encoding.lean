import LgLang.Analysis.Reference
import LgLang.Analysis.Symbol
import LgLang.Syntax.Encoding

/-!
# Analyses as JSON

The machine-readable form of findings, symbols and references.
-/

namespace LgLang

def Uri.toJson (u : Uri) : Json :=
  .str u.text

def RelatedLocation.toJson (r : RelatedLocation) : Json :=
  .obj [("uri", r.uri.toJson), ("span", r.span.toJson), ("message", .str r.message)]

/-- The members of the object that describes a finding. -/
def Diagnostic.members (d : Diagnostic) : List (String × Json) :=
  [("level", .str d.severity.name), ("code", .str d.code.name), ("message", .str d.message), ("span", d.span.toJson),
    ("related_locations", .ofList RelatedLocation.toJson d.related)]

def Diagnostic.toJson (d : Diagnostic) : Json :=
  .obj d.members

/-- A finding together with the family of its rule. -/
def Diagnostic.toKindedJson (d : Diagnostic) : Json :=
  .obj (("kind", .str d.code.kind.name) :: d.members)

def Symbol.toJson (s : Symbol) : Json :=
  .obj [("name", .str s.name), ("uri", s.uri.toJson), ("name_span", s.nameSpan.toJson), ("span", s.span.toJson),
    ("parameters", .ofList .str s.parameters), ("doc", .ofOptionWith .str s.doc), ("body_kind", .str s.bodyKind.name),
    ("precedence", .str (if s.isLocal then "Local" else "Imported")), ("via", .ofOptionWith .ofNat s.via),
    ("signature", .str s.signature)]

def ReferenceKind.name : ReferenceKind → String
  | .call => "Call"
  | .bracket => "Explicit"

def Target.name : Target → String
  | .template => "Template"
  | .function => "Function"
  | .unresolved => "Unresolved"

def Reference.toJson (r : Reference) : Json :=
  .obj [("name", .str r.name), ("key", .str r.key), ("uri", r.uri.toJson), ("span", r.span.toJson),
    ("kind", .str r.kind.name), ("arguments", .ofOptionWith .ofNat r.argumentCount), ("target", .str r.target.name)]

end LgLang
