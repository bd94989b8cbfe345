import LgLang.Json
import LgLang.Syntax

/-!
# Syntax trees as JSON

The machine-readable form of a parsed file, for tools that look at the structure of templates. A body is an object
whose only member names its form.
-/

namespace LgLang

/-- A span as an object of its two ends. -/
def Span.toJson (s : Span) : Json :=
  .obj [("start", .ofNat s.start), ("end", .ofNat s.stop)]

namespace Json

/-- A list as an array. -/
def ofList (encode : α → Json) (items : List α) : Json :=
  .arr (items.map encode)

/-- A value that may be absent, or null. -/
def ofOptionWith (encode : α → Json) : Option α → Json
  | some a => encode a
  | none => .null

end Json

namespace Syntax

def Segment.toJson (s : Segment) : Json :=
  .obj [("expression", .str s.expression), ("span", s.span.toJson), ("content_span", s.contentSpan.toJson)]

def Reference.toJson (r : Reference) : Json :=
  .obj [("name", .str r.name), ("span", r.span.toJson)]

def TextLine.toJson (l : TextLine) : Json :=
  .obj [("text", .str l.text), ("span", l.span.toJson), ("segments", .ofList Segment.toJson l.segments),
    ("references", .ofList Reference.toJson l.references)]

def Property.toJson (p : Property) : Json :=
  .obj [("key", .str p.key), ("key_span", p.keySpan.toJson), ("value", p.value.toJson)]

def StructuredBody.toJson (b : StructuredBody) : Json :=
  .obj [("type_name", .str b.typeName), ("type_span", b.typeSpan.toJson),
    ("properties", .ofList Property.toJson b.properties)]

def BranchKind.name : BranchKind → String
  | .when => "If"
  | .elseWhen => "ElseIf"
  | .otherwise => "Else"

def Branch.toJson (b : Branch) : Json :=
  .obj [("kind", .str b.kind.name), ("condition", .ofOptionWith Segment.toJson b.condition),
    ("body", .ofList TextLine.toJson b.body), ("span", b.span.toJson)]

def Case.toJson (c : Case) : Json :=
  .obj [("value", .ofOptionWith Segment.toJson c.value), ("body", .ofList TextLine.toJson c.body),
    ("span", c.span.toJson)]

def Fallback.toJson (f : Fallback) : Json :=
  .obj [("body", .ofList TextLine.toJson f.body), ("span", f.span.toJson)]

def SwitchBody.toJson (b : SwitchBody) : Json :=
  .obj [("subject", .ofOptionWith Segment.toJson b.subject), ("cases", .ofList Case.toJson b.cases),
    ("default", .ofOptionWith Fallback.toJson b.fallback)]

/-- The name of a form of bodies in machine-readable output. -/
def BodyKind.name : BodyKind → String
  | .text => "PlainText"
  | .structured => "Structured"
  | .conditional => "Conditional"
  | .switch => "Switch"

def Body.toJson (b : Body) : Json :=
  let content : Json := match b with
    | .text ls => .ofList TextLine.toJson ls
    | .structured s => s.toJson
    | .conditional bs => .obj [("branches", .ofList Branch.toJson bs)]
    | .switch s => s.toJson
  .obj [(b.kind.name, content)]

def Parameter.toJson (p : Parameter) : Json :=
  .obj [("name", .str p.name), ("span", p.span.toJson)]

def Template.toJson (t : Template) : Json :=
  .obj [("name", .str t.name), ("name_span", t.nameSpan.toJson), ("parameters", .ofList Parameter.toJson t.parameters),
    ("body", t.body.toJson), ("span", t.span.toJson), ("doc", .ofOptionWith .str t.doc)]

def Import.toJson (i : Import) : Json :=
  .obj [("target", .str i.target), ("alias", .ofOptionWith .str i.qualifier), ("span", i.span.toJson),
    ("target_span", i.targetSpan.toJson), ("in_header", .bool i.inHeader)]

def File.toJson (f : File) : Json :=
  .obj [("imports", .ofList Import.toJson f.imports), ("templates", .ofList Template.toJson f.templates)]

end Syntax

end LgLang
