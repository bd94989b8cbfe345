import LgLang.Expression
import LgLang.Syntax.Encoding

/-!
# What an engine finds as JSON

The machine-readable form of calls, mistakes and hover texts. Their spans are arrays of the two ends.
-/

namespace LgLang

/-- A span as an array of its two ends. -/
def Span.toPair (s : Span) : Json :=
  .arr [.ofNat s.start, .ofNat s.stop]

namespace Expression

def CallSite.toJson (c : CallSite) : Json :=
  .obj [("name", .str c.name), ("span", c.span.toPair), ("arguments", .ofOptionWith .ofNat c.argumentCount)]

def Mistake.toJson (m : Mistake) : Json :=
  .obj [("message", .str m.message), ("span", m.span.toPair)]

def Hover.toJson (h : Hover) : Json :=
  .obj [("contents", .str h.contents), ("span", .ofOptionWith Span.toPair h.span)]

end Expression

end LgLang
