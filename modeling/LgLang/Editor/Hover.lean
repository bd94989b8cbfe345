import LgLang.Editor.Completion

/-!
# Hover

Templates and functions under the cursor are described from the analysis. Anything else in an expression is left to the
engine, whose answer is passed on.
-/

namespace LgLang.Editor

/-- Marked-up text and the range it is about. -/
structure Hover where
  contents : String
  range : Option Range
  deriving DecidableEq, Repr

/-- A text in a fence that marks it as template code. -/
def fenced (code : String) : String :=
  "\x60\x60\x60lg\n" ++ code ++ "\n\x60\x60\x60"

/-- The header line that declares a template. -/
def headerLine (s : Symbol) : String :=
  "# " ++ if s.parameters.isEmpty then s.name else s.signature

def templateDescription (s : Symbol) : String :=
  let doc := match s.doc with
    | some doc => "\n\n" ++ doc
    | none => ""
  fenced (headerLine s) ++ doc ++ "\n\n*" ++ s.bodyKind.label ++ "* template in \x60" ++ s.uri.fileName ++ "\x60"

def functionDescription (f : Function) : String :=
  fenced f.label ++ "\n\n" ++ f.documentation ++ "\n\nTakes " ++ f.arity.describe ++ "."

/-- The span of the definition or else the reference of the root that touches an offset. -/
def nameSpanAt? (a : Analysis) (offset : Nat) : Option Span :=
  match a.symbols.definedAt? a.uri offset with
  | some s => some s.nameSpan
  | none => (a.references.at? a.uri offset).map (·.span)

/-- The function that is called at an offset. -/
def functionAt? (a : Analysis) (functions : Registry) (offset : Nat) : Option (Function × Span) :=
  match a.references.at? a.uri offset with
  | some r => if r.target = .function then (functions.find? r.name).map (·, r.span) else none
  | none => none

/-- What the engine shows for the expression at an offset. -/
def expressionHoverAt? (a : Analysis) (engine : Expression.Engine) (offset : Nat) : Option Hover :=
  match a.file.segmentAt? offset with
  | none => none
  | some segment =>
    if segment.contentSpan.contains offset then
      let base := segment.contentSpan.start
      (engine.hover segment.expression (offset - base)).map fun h =>
        ⟨h.contents, h.span.map fun s => .ofSpan a.text (s.shift base)⟩
    else none

/-- What is shown at an offset. -/
def hoverAt? (a : Analysis) (functions : Registry) (engine : Expression.Engine) (offset : Nat) : Option Hover :=
  match a.symbolAt? offset with
  | some s => some ⟨templateDescription s, (nameSpanAt? a offset).map (.ofSpan a.text)⟩
  | none =>
    match functionAt? a functions offset with
    | some (f, span) => some ⟨functionDescription f, some (.ofSpan a.text span)⟩
    | none => expressionHoverAt? a engine offset

/-! ## Written for clients -/

def Hover.toJson (h : Hover) : Json :=
  .obj <| [("contents", markdownJson h.contents)] ++
    match h.range with
    | some r => [("range", r.toJson)]
    | none => []

end LgLang.Editor
