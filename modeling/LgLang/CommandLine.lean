import LgLang.Check.Format
import LgLang.Server.Capabilities

/-!
# The command line

`lg check` reports on files and `lg lsp` serves an editor. Options are written as `--name value`, `--name=value`,
`-n value` or `-nvalue`, at any place behind the command; behind `--` everything is a file.
-/

namespace LgLang

/-- The files to check and how to report on them. -/
structure CheckCommand where
  files : List String
  format : Check.Format
  config : Option String
  deriving DecidableEq, Repr

/-- The settings to start a server with. -/
structure ServeCommand where
  config : Option String
  debounceMs : Option Nat
  deriving DecidableEq, Repr

/-- What a command line asks for. -/
inductive Command where
  | check (c : CheckCommand)
  | serve (c : ServeCommand)
  | version
  | help
  deriving DecidableEq, Repr

namespace CommandLine

/-- An option that takes a value. -/
inductive ValueOption where
  | config
  | format
  | debounce
  deriving DecidableEq, Repr

/-- The option of a long name. -/
def longOption? : List Char → Option ValueOption
  | cs =>
    if cs = "config".toList then some .config
    else if cs = "format".toList then some .format
    else if cs = "debounce-ms".toList then some .debounce
    else none

/-- The option of a letter. -/
def shortOption? : Char → Option ValueOption
  | 'c' => some .config
  | 'f' => some .format
  | _ => none

/-- The arguments of a command, taken apart. -/
structure Parts where
  /-- The options that were given and their values, latest first. -/
  options : List (ValueOption × String)
  /-- The other arguments, latest first. -/
  files : List String
  help : Bool

/-- Adds the value of an option that has not been given before. -/
def Parts.addOption? (p : Parts) (allowed : List ValueOption) (o : ValueOption) (value : String) : Option Parts :=
  if allowed.contains o && !p.options.any (·.1 == o) then some { p with options := (o, value) :: p.options } else none

/-- Whether an argument can be the value of an option: it does not look like an option itself. -/
def isValue (arg : String) : Bool :=
  match arg.toList with
  | '-' :: _ :: _ => false
  | _ => true

/-- How an argument begins. -/
inductive Argument where
  | file
  /-- Everything behind it is a file. -/
  | separator
  | help
  /-- An option, with its value if that stands in the same argument. -/
  | option (o : ValueOption) (value : Option String)
  | unknown
  deriving DecidableEq, Repr

/-- Tells what an argument is. -/
def classify (arg : String) : Argument :=
  match arg.toList with
  | ['-', '-'] => .separator
  | '-' :: '-' :: cs =>
    let name := cs.takeWhile (· != '=')
    if cs = "help".toList then .help
    else
      match longOption? name with
      | none => .unknown
      | some o =>
        match cs.dropWhile (· != '=') with
        | [] => .option o none
        | _ :: value => .option o (some (String.ofList value))
  | '-' :: 'h' :: _ => .help
  | '-' :: c :: cs =>
    match shortOption? c with
    | none => .unknown
    | some o =>
      match cs with
      | [] => .option o none
      | '=' :: value => .option o (some (String.ofList value))
      | value => .option o (some (String.ofList value))
  | _ => .file

/-- Takes the arguments of a command apart. -/
def split? (allowed : List ValueOption) (p : Parts) : List String → Option Parts
  | [] => some p
  | arg :: args =>
    match classify arg with
    | .file => split? allowed { p with files := arg :: p.files } args
    | .separator => some { p with files := args.reverse ++ p.files }
    | .help => some { p with help := true }
    | .unknown => none
    | .option o (some value) => (p.addOption? allowed o value).bind fun p => split? allowed p args
    | .option o none =>
      match args with
      | [] => none
      | value :: args =>
        if isValue value then (p.addOption? allowed o value).bind fun p => split? allowed p args else none

/-- The value of an option. -/
def Parts.value? (p : Parts) (o : ValueOption) : Option String :=
  (p.options.find? (·.1 == o)).map (·.2)

/-- A number of milliseconds, below two to the 64th. -/
def milliseconds? (text : String) : Option Nat :=
  let digits := match text.toList with
    | '+' :: cs => cs
    | cs => cs
  if digits.isEmpty then none
  else
    (digits.foldlM (fun (n : Nat) (c : Char) => if c.isDigit then some (10 * n + (c.toNat - '0'.toNat)) else none) 0).filter
      (· < UInt64.size)

/-- A value that has to be right if it is given. -/
def checked? (value : Option String) (read : String → Option α) : Option (Option α) :=
  match value with
  | none => some none
  | some v => (read v).map some

/-- A path is not empty. -/
def path? (text : String) : Option String :=
  if text.isEmpty then none else some text

def checkCommand? (args : List String) : Option Command := do
  let p ← split? [.config, .format] ⟨[], [], false⟩ args
  if p.help then some .help
  else
    let config ← checked? (p.value? .config) path?
    let format ← checked? (p.value? .format) Check.Format.ofName?
    let files ← p.files.reverse.mapM path?
    if files.isEmpty then none else some (.check ⟨files, format.getD .stylish, config⟩)

def serveCommand? (args : List String) : Option Command := do
  let p ← split? [.config, .debounce] ⟨[], [], false⟩ args
  if p.help then some .help
  else
    let config ← checked? (p.value? .config) path?
    let debounceMs ← checked? (p.value? .debounce) milliseconds?
    if p.files.isEmpty then some (.serve ⟨config, debounceMs⟩) else none

/-- The command that the arguments write, unless they write none. -/
def command? : List String → Option Command
  | "check" :: args => checkCommand? args
  | "lsp" :: args => serveCommand? args
  | "--version" :: _ | "-V" :: _ => some .version
  | "--help" :: _ | "-h" :: _ => some .help
  | ["help"] | "help" :: "check" :: _ | "help" :: "lsp" :: _ | "help" :: "help" :: _ => some .help
  | _ => none

/-- What a program leaves behind: its exit code and what it has written. -/
structure Outcome where
  exitCode : Nat
  output : String
  /-- The complaints, one per line. -/
  complaints : List String
  deriving DecidableEq, Repr

/-- The outcome of a command line that cannot be read. -/
def usageError : Outcome :=
  ⟨2, "", []⟩

def versionText : String :=
  "lg-cli " ++ Server.version ++ "\n"

def helpText : String :=
  "Usage: lg <COMMAND>\n\nCommands:\n  lsp    Serve an editor on standard input and output\n" ++
    "  check  Report on files\n  help   Show this text\n"

/-- Checks files and reports on them. -/
def check (d : Disk) (color : Bool) (c : CheckCommand) : Outcome :=
  match Check.run d c.config c.files with
  | .ok reports => ⟨if Check.hasErrors reports then 1 else 0, c.format.write color reports, []⟩
  | .error e => ⟨1, "", ["error: " ++ e.message]⟩

/-- The settings that a server is started with, unless their file cannot be read. -/
def serverConfig (d : Disk) (c : ServeCommand) : Except Check.Error Config :=
  match Check.loadConfig d c.config with
  | .ok config => .ok { config with debounceMs := c.debounceMs.getD config.debounceMs }
  | .error e => .error e

/-- What the program does: it ends with an outcome, or it starts a server with some settings. -/
inductive Action where
  | finish (o : Outcome)
  | serve (config : Config)
  deriving DecidableEq, Repr

/-- Does what the arguments ask for. -/
def run (d : Disk) (color : Bool) (args : List String) : Action :=
  match command? args with
  | none => .finish usageError
  | some .version => .finish ⟨0, versionText, []⟩
  | some .help => .finish ⟨0, helpText, []⟩
  | some (.check c) => .finish (check d color c)
  | some (.serve c) =>
    match serverConfig d c with
    | .ok config => .serve config
    | .error _ => .finish ⟨1, "", []⟩

end CommandLine

end LgLang
