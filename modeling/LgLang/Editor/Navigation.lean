import LgLang.Analysis
import LgLang.Editor.Location

/-!
# Definitions and references

From a name in a document to the definitions that count for it, and to every place of the scope that uses it.
-/

namespace LgLang.Editor

/-- The locations of the definitions of a name that count. -/
def definitionLocations (a : Analysis) (name : String) : List Location :=
  (a.symbols.active name).filterMap fun s => Location.inScope? a.scope s.uri s.nameSpan

/-- The locations of the references to a key that have the given target. -/
def referenceLocations (a : Analysis) (key : String) (target : Target) : List Location :=
  ((a.references.referencesTo key).filter (·.target == target)).filterMap fun r =>
    Location.inScope? a.scope r.uri r.span

/-- Where the template at an offset is defined. A name with several definitions yields them all. -/
def definitionsAt (a : Analysis) (offset : Nat) : List Location :=
  match a.symbolAt? offset with
  | some s => definitionLocations a s.name
  | none => []

/-- Where the template or function at an offset is used, behind the definitions of the template if they are asked
for. -/
def referencesAt (a : Analysis) (offset : Nat) (withDefinitions : Bool) : List Location :=
  match a.symbolAt? offset with
  | some s =>
    (if withDefinitions then definitionLocations a s.name else []) ++ referenceLocations a s.name .template
  | none =>
    match a.references.at? a.uri offset with
    | some r => if r.target = .function then referenceLocations a r.key .function else []
    | none => []

/-! ## Written for clients -/

def locationsJson (ls : List Location) : Json :=
  .arr (ls.map Location.toJson)

end LgLang.Editor
