import LgLang.Config
import LgLang.Json
import LgLang.Yaml
import LgLang.Text.Blank

/-!
# Reading settings

A layer of settings is an object with the members `debounceMs` and `rules`, both optional; other members mean nothing.
It may also be an array of the two values in this order. It is read from the JSON of a client's options or from a YAML
file of a project.
-/

namespace LgLang.ConfigLayer

/-! ## From JSON -/

/-- A waiting time in milliseconds; null is none. -/
def debounceOfJson? : Json → Option (Option Nat)
  | .null => some none
  | .int (.ofNat n) => some (some n)
  | _ => none

/-- A level: its name, or an object whose only member has that name and no value. -/
def levelOfJson? : Json → Option RuleLevel
  | .str s => RuleLevel.ofName? s
  | .obj [(name, .null)] => RuleLevel.ofName? name
  | _ => none

def rulesOfJson? : Json → Option (List (String × RuleLevel))
  | .obj members => members.mapM fun (name, level) => (levelOfJson? level).map (name, ·)
  | _ => none

/-- The layer in the options of a client. No options are a layer that changes nothing. -/
def ofJson? (j : Json) : Option ConfigLayer :=
  match j with
  | .null => some empty
  | .obj _ => do
    let debounceMs ← match j.get? "debounceMs" with
      | none => some none
      | some d => debounceOfJson? d
    let rules ← match j.get? "rules" with
      | none => some []
      | some r => rulesOfJson? r
    some ⟨debounceMs, rules⟩
  | .arr [] => some empty
  | .arr [d] => (debounceOfJson? d).map (⟨·, []⟩)
  | .arr [d, r] => do
    let debounceMs ← debounceOfJson? d
    let rules ← rulesOfJson? r
    some ⟨debounceMs, rules⟩
  | _ => none

/-! ## From YAML -/

/-- The number that digits of a base write, below two to the 64th. -/
def unsigned? (base : Nat) (digits : List Char) : Option Nat :=
  if digits.isEmpty then none
  else
    (digits.foldlM (fun n c => (Yaml.hexValue? c).bind fun d => if d < base then some (n * base + d) else none)
      0).filter (· < UInt64.size)

/-- The number that a plain scalar writes: decimal without leading zeros, or behind `0x`, `0o` or `0b`. -/
def unsignedOfScalar? (text : String) : Option Nat :=
  let cs := match text.toList with
    | '+' :: cs => cs
    | cs => cs
  match cs with
  | '0' :: 'x' :: digits => unsigned? 16 digits
  | '0' :: 'o' :: digits => unsigned? 8 digits
  | '0' :: 'b' :: digits => unsigned? 2 digits
  | ['0'] => some 0
  | '0' :: _ => none
  | digits => unsigned? 10 digits

def isNullText (text : String) : Bool :=
  ["", "~", "null", "Null", "NULL"].contains text

/-- A waiting time in milliseconds; null is none. -/
def debounceOfYaml? : Yaml → Option (Option Nat)
  | .scalar true text => if isNullText text then some none else (unsignedOfScalar? text).map some
  | _ => none

/-- The text of a scalar. -/
def textOfYaml? : Yaml → Option String
  | .scalar _ text => some text
  | _ => none

def rulesOfYaml? : Yaml → Option (List (String × RuleLevel))
  | .mapping entries => entries.mapM fun (key, value) => do
    let name ← textOfYaml? key
    let level ← RuleLevel.ofName? (← textOfYaml? value)
    some (name, level)
  | .scalar true "" => some []
  | _ => none

/-- Adds an entry of a mapping to a layer; a member of a layer must not be given twice. -/
def addEntry? (seen : List String) (layer : ConfigLayer) : List (Yaml × Yaml) → Option ConfigLayer
  | [] => some layer
  | (key, value) :: entries =>
    match textOfYaml? key with
    | none => none
    | some name =>
      if seen.contains name && (name == "debounceMs" || name == "rules") then none
      else if name == "debounceMs" then
        (debounceOfYaml? value).bind fun d => addEntry? (name :: seen) { layer with debounceMs := d } entries
      else if name == "rules" then
        (rulesOfYaml? value).bind fun r => addEntry? (name :: seen) { layer with rules := r } entries
      else addEntry? seen layer entries

/-- The layer in a YAML value. -/
def ofYaml? : Yaml → Option ConfigLayer
  | .scalar true "" => some empty
  | .mapping entries => addEntry? [] empty entries
  | .sequence [] => some empty
  | .sequence [d] => (debounceOfYaml? d).map (⟨·, []⟩)
  | .sequence [d, r] => do
    let debounceMs ← debounceOfYaml? d
    let rules ← rulesOfYaml? r
    some ⟨debounceMs, rules⟩
  | _ => none

/-- The layer in the text of a settings file. A blank text is a layer that changes nothing. -/
def ofYamlText? (text : String) : Option ConfigLayer :=
  if Text.allBlank text.toList then some empty else (Yaml.ofText? text).bind ofYaml?

/-! ## Written -/

/-- Levels as an object from the names of rules. -/
def rulesJson (rules : List (String × RuleLevel)) : Json :=
  .obj (rules.map fun (name, level) => (name, .str level.name))

/-- The layer as a client would write it. -/
def toJson (l : ConfigLayer) : Json :=
  .obj <| (l.debounceMs.toList.map fun n => ("debounceMs", .ofNat n)) ++ [("rules", rulesJson l.rules)]

end LgLang.ConfigLayer
