import LgLang.Span

/-!
# The syntax tree of template files

A file holds imports and templates. The tree is shallow: text is not interpreted beyond the places of its `${...}`
segments and `[Name]` references, and expressions are kept as they were written.
-/

namespace LgLang.Syntax

/-- `${expression}` in a text. -/
structure Segment where
  expression : String
  /-- From the dollar sign through the closing brace. -/
  span : Span
  /-- The expression alone. -/
  contentSpan : Span
  deriving DecidableEq, Repr

/-- `[Name]` in a text. -/
structure Reference where
  name : String
  span : Span
  deriving DecidableEq, Repr

/-- The text of one bullet or of one property. -/
structure TextLine where
  text : String
  span : Span
  segments : List Segment
  references : List Reference
  deriving DecidableEq, Repr

/-- `key = value` in a structure. -/
structure Property where
  key : String
  keySpan : Span
  value : TextLine
  deriving DecidableEq, Repr

/-- A body of the form `[TypeName`, properties, `]`. -/
structure StructuredBody where
  typeName : String
  typeSpan : Span
  properties : List Property
  deriving DecidableEq, Repr

/-- Which keyword opens a branch of a conditional body. -/
inductive BranchKind where
  | when
  | elseWhen
  | otherwise
  deriving DecidableEq, Repr

/-- A branch of a conditional body. -/
structure Branch where
  kind : BranchKind
  condition : Option Segment
  body : List TextLine
  span : Span
  deriving DecidableEq, Repr

/-- A case of a switch body. -/
structure Case where
  value : Option Segment
  body : List TextLine
  span : Span
  deriving DecidableEq, Repr

/-- The branch of a switch body that is taken when no case is. -/
structure Fallback where
  body : List TextLine
  span : Span
  deriving DecidableEq, Repr

/-- A body that chooses by the value of its subject. -/
structure SwitchBody where
  subject : Option Segment
  cases : List Case
  fallback : Option Fallback
  deriving DecidableEq, Repr

/-- What a template consists of. -/
inductive Body where
  | text (lines : List TextLine)
  | structured (body : StructuredBody)
  | conditional (branches : List Branch)
  | switch (body : SwitchBody)
  deriving DecidableEq, Repr

/-- The four forms of bodies. -/
inductive BodyKind where
  | text
  | structured
  | conditional
  | switch
  deriving DecidableEq, Repr

def Body.kind : Body → BodyKind
  | .text _ => .text
  | .structured _ => .structured
  | .conditional _ => .conditional
  | .switch _ => .switch

/-- The form of a body in words for people. -/
def BodyKind.label : BodyKind → String
  | .text => "text"
  | .structured => "structured"
  | .conditional => "conditional"
  | .switch => "switch"

/-- A parameter of a template. -/
structure Parameter where
  name : String
  span : Span
  deriving DecidableEq, Repr

/-- `# Name(parameters)` and the body below it. -/
structure Template where
  name : String
  nameSpan : Span
  parameters : List Parameter
  body : Body
  /-- From the header through the last line of the body. -/
  span : Span
  /-- The comment above the header. -/
  doc : Option String
  deriving DecidableEq, Repr

/-- `[label](target) as alias`. -/
structure Import where
  target : String
  qualifier : Option String
  span : Span
  targetSpan : Span
  /-- Whether the import stands above every template of its file. -/
  inHeader : Bool
  deriving DecidableEq, Repr

/-- A parsed file. -/
structure File where
  imports : List Import
  templates : List Template
  deriving DecidableEq, Repr

namespace Body

/-- The texts of a body, in the order in which they are kept. -/
def textLines : Body → List TextLine
  | .text ls => ls
  | .structured b => b.properties.map (·.value)
  | .conditional bs => bs.flatMap (·.body)
  | .switch b => b.cases.flatMap (·.body) ++ (b.fallback.map (·.body)).getD []

/-- The segments of a body, in the order in which they are kept. -/
def keptSegments : Body → List Segment
  | .text ls => ls.flatMap (·.segments)
  | .structured b => b.properties.flatMap (·.value.segments)
  | .conditional bs => bs.flatMap fun b => b.condition.toList ++ b.body.flatMap (·.segments)
  | .switch b =>
    b.subject.toList ++ b.cases.flatMap (fun c => c.value.toList ++ c.body.flatMap (·.segments)) ++
      ((b.fallback.map (·.body)).getD []).flatMap (·.segments)

/-- Whether there is nothing to say: no text and no branch. -/
def isEmpty : Body → Bool
  | .text ls => ls.isEmpty
  | .structured _ => false
  | .conditional bs => bs.isEmpty
  | .switch _ => false

end Body

namespace Template

def parameterNames (t : Template) : List String :=
  t.parameters.map (·.name)

/-- `Name(a, b)`, or only the name when there are no parameters. -/
def signature (t : Template) : String :=
  if t.parameters.isEmpty then t.name else t.name ++ "(" ++ ", ".intercalate t.parameterNames ++ ")"

/-- Every segment of the template, in the order of the text. -/
def segments (t : Template) : List Segment :=
  t.body.keptSegments.mergeSort fun a b => a.span.start ≤ b.span.start

/-- Every bracket reference of the template. -/
def references (t : Template) : List Reference :=
  t.body.textLines.flatMap (·.references)

def isEmpty (t : Template) : Bool :=
  t.body.isEmpty

end Template

namespace File

/-- The first template of that name. -/
def template? (f : File) (name : String) : Option Template :=
  f.templates.find? (·.name == name)

/-- The template whose name in its header touches the offset. -/
def templateNamedAt? (f : File) (offset : Nat) : Option Template :=
  f.templates.find? (·.nameSpan.contains offset)

/-- The segment that touches the offset. -/
def segmentAt? (f : File) (offset : Nat) : Option Segment :=
  ((f.templates.filter (·.span.contains offset)).flatMap (·.segments)).find? (·.span.contains offset)

end File

end LgLang.Syntax
