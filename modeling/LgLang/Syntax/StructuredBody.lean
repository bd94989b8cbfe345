import LgLang.Syntax.LineKind
import LgLang.Syntax.Scan

/-!
# Structured bodies

A structured body opens with a line `[TypeName`, goes on with lines `key = value` and is closed by a line `]`; a `]`
behind the type name closes it at once. Lines that do not fit are reported and passed over.
-/

namespace LgLang.Syntax

/-- A body in brackets as far as its lines have been read. -/
structure StructureDraft where
  closed : Bool
  /-- The offset just past the last line that belongs to the body. -/
  stop : Nat
  properties : List Property
  deriving DecidableEq, Repr

/-- The type name of an opening line, its distance from the beginning of the line, and whether the line also closes
the body. -/
def splitOpening? : List Char → Option (List Char × Nat × Bool)
  | '[' :: cs =>
    let (blanks, rest) := splitBlanks cs
    match splitName? isNameRest rest with
    | none => none
    | some (name, after) =>
      let place := 1 + Text.byteSize blanks
      match Text.trimStart after with
      | [] => some (name, place, false)
      | ']' :: after => if Text.allBlank after then some (name, place, true) else none
      | _ => none
  | _ => none

/-- The key of a property line, its value, and the distance of the value from the beginning of the line. -/
def splitProperty? (content : List Char) : Option (List Char × List Char × Nat) :=
  match splitName? isNameRest content with
  | none => none
  | some (key, after) =>
    let (blanks, rest) := splitBlanks after
    match rest with
    | '=' :: rest =>
      let (gap, value) := splitBlanks rest
      some (key, Text.trimEnd value, Text.byteSize key + Text.byteSize blanks + 1 + Text.byteSize gap)
    | _ => none

namespace StructureDraft

/-- Adds the property of a line with that content. -/
def addProperty (d : StructureDraft) (l : Text.Line) : StructureDraft × List Diagnostic :=
  match splitProperty? l.content with
  | none =>
    (d, [.error .invalidStructuredProperty (contentSpan l) "expected 'key = value' inside a structured body"])
  | some (key, value, place) =>
    let name := String.ofList key
    let keySpan := Span.ofSize l.contentStart (Text.byteSize key)
    let start := l.contentStart + place
    let repeated :=
      if d.properties.any (·.key == name) then
        [Diagnostic.warning .duplicateStructuredProperty keySpan
          s!"property '{name}' is already set in this structure"]
      else []
    ({ d with properties := d.properties ++ [⟨name, keySpan, .ofText start value⟩] },
      repeated ++ textDiagnostics start value)

/-- The body behind one more line, and the findings about that line. -/
def add (d : StructureDraft) (l : Text.Line) : StructureDraft × List Diagnostic :=
  if isSilent l then (d, [])
  else if d.closed then
    (d, [.error .unexpectedBodyLine (contentSpan l) "text after the end of a structured body"])
  else
    let d := { d with stop := l.contentStop }
    if l.content == [']'] then ({ d with closed := true }, []) else d.addProperty l

/-- The body behind the lines, and the findings about them. -/
def addAll (d : StructureDraft) : List Text.Line → StructureDraft × List Diagnostic
  | [] => (d, [])
  | l :: ls =>
    let (next, findings) := d.add l
    let (final, more) := next.addAll ls
    (final, findings ++ more)

end StructureDraft

/-- The body that an opening line and the lines below it make, the offset just past it, and the findings about it. -/
def structuredBody (opening : Text.Line) (ls : List Text.Line) : Body × Nat × List Diagnostic :=
  let whole := contentSpan opening
  let (typeName, typeSpan, closed, findings) :=
    match splitOpening? opening.content with
    | some (name, place, closed) =>
      (String.ofList name, Span.ofSize (opening.contentStart + place) (Text.byteSize name), closed, [])
    | none =>
      ("", whole, false,
        [Diagnostic.error .invalidStructuredProperty whole "expected '[TypeName' to open a structured body"])
  let (final, more) := StructureDraft.addAll ⟨closed, whole.stop, []⟩ ls
  let unclosed :=
    if final.closed then []
    else [Diagnostic.error .unterminatedStructure whole "structured body is missing its closing ']'"]
  (.structured ⟨typeName, typeSpan, final.properties⟩, final.stop, findings ++ more ++ unclosed)

end LgLang.Syntax
