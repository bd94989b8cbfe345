import LgLang.Editor.Hover
import LgLang.Editor.Navigation
import LgLang.Editor.Signature
import LgLang.Server.Request
import LgLang.Syntax.Encoding
import LgLang.Workspace

/-!
# Answers to feature requests

A request for a document that is not open, or at a position that the document does not have, is answered by null.
Otherwise the answer comes from the analysis of the document as it is at the time.
-/

namespace LgLang

open Server (Feature FeatureRequest)

/-- What a feature shows at an offset of an analyzed document. -/
def Server.Feature.answer (f : Feature) (s : Surroundings) (a : Analysis) (offset : Nat) : Json :=
  match f with
  | .completion => .arr ((Editor.completionAt a s.functions offset).map Editor.CompletionItem.toJson)
  | .hover => Json.ofOptionWith Editor.Hover.toJson (Editor.hoverAt? a s.functions s.engine offset)
  | .signatureHelp => Json.ofOptionWith Editor.SignatureHelp.toJson (Editor.signatureAt? a s.functions offset)
  | .definition =>
    match Editor.definitionsAt a offset with
    | [] => .null
    | ls => Editor.locationsJson ls
  | .references withDefinitions => Editor.locationsJson (Editor.referencesAt a offset withDefinitions)

namespace Workspace

/-- An answer to a request. -/
structure Answer where
  value : Json
  /-- The analysis that had to be made for it. -/
  made : Option Analysis
  /-- The workspace after what had to be read. -/
  workspace : Workspace

/-- The answer to a request. -/
def answer (w : Workspace) (s : Surroundings) (r : FeatureRequest) : Answer :=
  match w.currentAnalysis? s r.uri with
  | none => ⟨.null, none, w⟩
  | some c =>
    let value := match Text.offset? c.analysis.text.toList r.position with
      | some offset => r.feature.answer s c.analysis offset
      | none => .null
    ⟨value, if c.isNew then some c.analysis else none, c.workspace⟩

end Workspace

end LgLang
