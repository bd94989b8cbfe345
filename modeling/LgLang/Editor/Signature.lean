import LgLang.Editor.Completion

/-!
# Signature help

The signature of the innermost call that is open at the cursor, and which of its parameters is being typed. Templates
win over functions of the same name, as they do when calls are resolved.
-/

namespace LgLang.Editor

/-- The signature of a call and the parameter being typed. -/
structure SignatureHelp where
  label : String
  documentation : Option String
  parameters : List String
  activeParameter : Nat
  deriving DecidableEq, Repr

/-- The signature of a called name. -/
def signatureOf? (a : Analysis) (functions : Registry) (name : String) (active : Nat) : Option SignatureHelp :=
  match a.symbols.resolve? name with
  | some s => some ⟨s.signature, s.doc, s.parameters, active⟩
  | none => (functions.find? name).map fun f => ⟨f.label, some f.documentation, f.parameters, active⟩

/-- The signature of the call that is open at an offset. -/
def signatureAt? (a : Analysis) (functions : Registry) (offset : Nat) : Option SignatureHelp :=
  match linePrefix? a offset with
  | none => none
  | some before =>
    match context before with
    | .expression e =>
      match openCall? e with
      | some (callee, commas) => signatureOf? a functions (String.ofList callee) commas
      | none => none
    | _ => none

/-! ## Written for clients -/

def SignatureHelp.toJson (h : SignatureHelp) : Json :=
  let documentation := match h.documentation with
    | some d => [("documentation", Json.str d)]
    | none => []
  let signature : Json := .obj <|
    [("label", .str h.label)] ++ documentation ++
    [("parameters", .arr (h.parameters.map fun p => .obj [("label", .str p)]))]
  .obj [("signatures", .arr [signature]), ("activeSignature", .ofNat 0),
    ("activeParameter", .ofNat h.activeParameter)]

end LgLang.Editor
