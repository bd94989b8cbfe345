import LgLang.Check
import LgLang.Json.Printer

/-!
# Formats of reports

Reports are written for people, with a block for each file that has findings and a summary (`stylish`), one line for
each finding (`compact`), or as JSON (`json`). Only the first format uses colors, and only on request.
-/

namespace LgLang.Check

inductive Format where
  | stylish
  | compact
  | json
  deriving DecidableEq, Repr

namespace Format

def name : Format → String
  | stylish => "stylish"
  | compact => "compact"
  | json => "json"

def ofName? : String → Option Format
  | "stylish" => some stylish
  | "compact" => some compact
  | "json" => some json
  | _ => none

theorem ofName?_name (f : Format) : ofName? f.name = some f := by
  cases f <;> rfl

end Format

/-! ## Styles -/

/-- How a part of a report looks on a terminal. -/
inductive Style where
  | underline
  | dimmed
  | boldRed
  | boldYellow
  | blue
  | green
  deriving DecidableEq, Repr

/-- The number of a style in escape sequences. -/
def Style.number : Style → String
  | underline => "4"
  | dimmed => "2"
  | boldRed => "1;31"
  | boldYellow => "1;33"
  | blue => "34"
  | green => "32"

/-- The text in a style. -/
def styled (color : Bool) (style : Style) (text : String) : String :=
  if color then "\x1b[" ++ style.number ++ "m" ++ text ++ "\x1b[0m" else text

/-- The style of the name of a severity. -/
def severityStyle : Severity → Style
  | .error => .boldRed
  | .warning => .boldYellow
  | .information => .blue

/-! ## For people -/

def Place.text (p : Place) : String :=
  s!"{p.line}:{p.column}"

/-- The lines of a finding. -/
def stylishEntry (color : Bool) (e : Entry) : List String :=
  let dimmed := styled color .dimmed
  let severity := styled color (severityStyle e.severity) e.severity.label
  let related := e.related.map fun r =>
    "    " ++ dimmed "→" ++ " " ++ dimmed r.message ++ " " ++ dimmed s!"at {r.path}:{r.place.text}"
  ("  " ++ dimmed e.start.text ++ " " ++ severity ++ " " ++ e.message ++ " " ++ dimmed e.code.name) :: related

/-- The lines of a report, with an empty one behind them; a file without findings has no lines. -/
def stylishReport (color : Bool) (r : Report) : List String :=
  if r.entries.isEmpty then []
  else styled color .underline r.path :: r.entries.flatMap (stylishEntry color) ++ [""]

/-- The last line. -/
def summary (color : Bool) (rs : List Report) : String :=
  let errors := total rs .error
  let warnings := total rs .warning
  let infos := total rs .information
  let all := errors + warnings + infos
  if all = 0 then styled color .green "✓ No problems found"
  else
    styled color (if errors > 0 then .boldRed else .boldYellow)
      s!"✖ {all} problem(s) ({errors} error(s), {warnings} warning(s), {infos} info)"

/-- Lines as a text. -/
def unlines (lines : List String) : String :=
  String.join (lines.map (· ++ "\n"))

def stylish (color : Bool) (rs : List Report) : String :=
  unlines (rs.flatMap (stylishReport color) ++ [summary color rs])

/-! ## For programs -/

def compactEntry (path : String) (e : Entry) : String :=
  s!"{path}:{e.start.text}: {e.severity.label}: {e.message} [{e.code.name}]"

def compact (rs : List Report) : String :=
  unlines (rs.flatMap fun r => r.entries.map (compactEntry r.path))

def RelatedEntry.toJson (r : RelatedEntry) : Json :=
  .obj [("path", .str r.path), ("line", .ofNat r.place.line), ("column", .ofNat r.place.column),
    ("message", .str r.message)]

def Entry.toJson (e : Entry) : Json :=
  .obj [("line", .ofNat e.start.line), ("column", .ofNat e.start.column),
    ("end_line", .ofNat e.stop.line), ("end_column", .ofNat e.stop.column),
    ("level", .str e.severity.name), ("code", .str e.code.name), ("message", .str e.message),
    ("related", .arr (e.related.map RelatedEntry.toJson))]

def Report.toJson (r : Report) : Json :=
  .obj [("path", .str r.path), ("diagnostics", .arr (r.entries.map Entry.toJson))]

/-- The reports in a format. -/
def Format.write (f : Format) (color : Bool) (rs : List Report) : String :=
  match f with
  | stylish => Check.stylish color rs
  | compact => Check.compact rs
  | json => (Json.arr (rs.map Report.toJson)).pretty ++ "\n"

end LgLang.Check
