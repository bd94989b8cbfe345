import LgLang.Text.Position
import LgLang.Import
import LgLang.Json

/-!
# Ranges and locations

Editors are told of places by ranges of positions, and of places in other documents by locations.
-/

namespace LgLang.Editor

/-- A range of positions in a document. -/
structure Range where
  start : Position
  stop : Position
  deriving DecidableEq, Repr

namespace Range

/-- The empty range at the beginning of a document. -/
def origin : Range :=
  ⟨⟨0, 0⟩, ⟨0, 0⟩⟩

/-- The range of a span of a text. -/
def ofSpan (text : String) (s : Span) : Range :=
  ⟨Text.position text.toList s.start, Text.position text.toList s.stop⟩

end Range

/-- A range in a document. -/
structure Location where
  uri : Uri
  range : Range
  deriving DecidableEq, Repr

/-- The location of a span in a file of a scope. -/
def Location.inScope? (scope : Scope) (uri : Uri) (span : Span) : Option Location :=
  (scope.file? uri).map fun f => ⟨uri, .ofSpan f.text span⟩

/-! ## Written for clients -/

def positionJson (p : Position) : Json :=
  .obj [("line", .ofNat p.line), ("character", .ofNat p.character)]

def Range.toJson (r : Range) : Json :=
  .obj [("start", positionJson r.start), ("end", positionJson r.stop)]

def Location.toJson (l : Location) : Json :=
  .obj [("uri", .str l.uri.text), ("range", l.range.toJson)]

end LgLang.Editor
