import LgLang.Diagnostic

/-!
# Settings

Settings say how long the server waits after an edit before it analyzes, and how grave the findings of each rule are.
They come in layers, from a file of the project and from the client; a later layer wins field by field, and rule by
rule.
-/

namespace LgLang

/-- What a setting makes of the findings of a rule. -/
inductive RuleLevel where
  | off
  | error
  | warning
  | information
  deriving DecidableEq, Repr

namespace RuleLevel

def name : RuleLevel → String
  | off => "off"
  | error => "error"
  | warning => "warning"
  | information => "information"

/-- The level of a name; two names have a short form. -/
def ofName? : String → Option RuleLevel
  | "off" => some off
  | "error" => some error
  | "warning" | "warn" => some warning
  | "information" | "info" => some information
  | _ => none

/-- The severity of findings at a level, unless they are dropped. -/
def severity? : RuleLevel → Option Severity
  | off => none
  | error => some .error
  | warning => some .warning
  | information => some .information

theorem ofName?_name (l : RuleLevel) : ofName? l.name = some l := by
  cases l <;> rfl

end RuleLevel

/-- One source of settings. What it leaves out stays as it is. -/
structure ConfigLayer where
  debounceMs : Option Nat
  /-- Levels by the names of rules. Names that no rule has are kept but mean nothing. -/
  rules : List (String × RuleLevel)
  deriving DecidableEq, Repr

namespace ConfigLayer

/-- The layer that changes nothing. -/
def empty : ConfigLayer :=
  ⟨none, []⟩

/-- The last level given to a name. -/
def rule? (l : ConfigLayer) (name : String) : Option RuleLevel :=
  (l.rules.reverse.find? (·.1 == name)).map (·.2)

end ConfigLayer

/-- The settings in effect. -/
structure Config where
  debounceMs : Nat
  /-- The levels given to rules; for each rule the first one counts. -/
  rules : List (DiagnosticCode × RuleLevel)
  deriving DecidableEq, Repr

namespace Config

/-- The settings without any layer. -/
def default : Config :=
  ⟨200, []⟩

/-- The level given to a rule. -/
def rule? (c : Config) (code : DiagnosticCode) : Option RuleLevel :=
  (c.rules.find? (·.1 == code)).map (·.2)

/-- The settings with a layer put over them. -/
def apply (c : Config) (layer : ConfigLayer) : Config where
  debounceMs := layer.debounceMs.getD c.debounceMs
  rules := layer.rules.foldl (fun rules (name, level) =>
    match DiagnosticCode.ofName? name with
    | some code => (code, level) :: rules
    | none => rules) c.rules

/-- The finding at the level that the settings give to its rule, or none if they turn the rule off. -/
def adjust? (c : Config) (d : Diagnostic) : Option Diagnostic :=
  match c.rule? d.code with
  | none => some d
  | some level => level.severity?.map fun s => { d with severity := s }

def adjustAll (c : Config) (ds : List Diagnostic) : List Diagnostic :=
  ds.filterMap c.adjust?

end Config

end LgLang
