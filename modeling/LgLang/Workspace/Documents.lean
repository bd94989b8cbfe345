import LgLang.Editor.Location
import Std.Data.TreeMap

/-!
# Open documents

A document is open from when the client sends its whole text until the client closes it. In between, the client sends
batches of changes, each with a new version. A batch is taken as a whole or not at all.
-/

namespace LgLang.Workspace

/-- An open document. -/
structure Document where
  version : Int
  content : String
  language : String
  deriving DecidableEq, Repr

/-- A change of a text: of a range of it, or of the whole text. -/
structure Change where
  range : Option Editor.Range
  text : String
  deriving DecidableEq, Repr

/-- Why a batch of changes is refused. -/
inductive ChangeError where
  /-- The version of the batch is not newer. -/
  | staleVersion (uri : Uri) (current received : Int)
  | notOpen (uri : Uri)
  /-- A range lies outside the text. -/
  | invalidRange (uri : Uri) (position : Position)
  deriving DecidableEq, Repr

/-- The name of the reason in machine-readable output. -/
def ChangeError.name : ChangeError → String
  | staleVersion .. => "StaleVersion"
  | notOpen _ => "NotOpen"
  | invalidRange .. => "InvalidRange"

def ChangeError.message : ChangeError → String
  | staleVersion uri current received =>
    s!"stale edit for {uri.text}: version {received} is not newer than {current}"
  | notOpen uri => s!"document {uri.text} is not open"
  | invalidRange uri p => s!"change range {p.line}:{p.character} is outside {uri.text}"

/-- The text with the bytes from `start` up to `stop` replaced. -/
def splice (cs : List Char) (start stop : Nat) (new : List Char) : List Char :=
  (Text.takeBytes? cs start).getD cs ++ new ++ (Text.dropBytes? cs stop).getD []

/-- The text after a change, or the position of it that the text does not have. A range whose end comes before its
start is empty. -/
def Change.apply (c : Change) (cs : List Char) : Except Position (List Char) :=
  match c.range with
  | none => .ok c.text.toList
  | some r =>
    match Text.offset? cs r.start, Text.offset? cs r.stop with
    | none, _ => .error r.start
    | some _, none => .error r.stop
    | some start, some stop => .ok (splice cs start (max start stop) c.text.toList)

/-- The text after several changes, each made to the text that the one before it leaves. -/
def applyAll (cs : List Char) (changes : List Change) : Except Position (List Char) :=
  changes.foldlM (fun cs c => c.apply cs) cs

/-- The document after a batch of changes. -/
def Document.change (d : Document) (uri : Uri) (version : Int) (changes : List Change) :
    Except ChangeError Document :=
  if version ≤ d.version then .error (.staleVersion uri d.version version)
  else
    match applyAll d.content.toList changes with
    | .ok cs => .ok { d with version, content := String.ofList cs }
    | .error p => .error (.invalidRange uri p)

/-- The documents that are open. -/
structure Documents where
  byUri : Std.TreeMap Uri Document

namespace Documents

def empty : Documents :=
  ⟨∅⟩

def get? (ds : Documents) (u : Uri) : Option Document :=
  ds.byUri.get? u

def isOpen (ds : Documents) (u : Uri) : Bool :=
  ds.byUri.contains u

/-- The number of open documents. -/
def size (ds : Documents) : Nat :=
  ds.byUri.size

/-- Opens a document. If it is open already, what is known of it is replaced. -/
def opened (ds : Documents) (u : Uri) (d : Document) : Documents :=
  ⟨ds.byUri.insert u d⟩

def change (ds : Documents) (u : Uri) (version : Int) (changes : List Change) : Except ChangeError Documents :=
  match ds.get? u with
  | none => .error (.notOpen u)
  | some d =>
    match d.change u version changes with
    | .ok d => .ok ⟨ds.byUri.insert u d⟩
    | .error e => .error e

def close (ds : Documents) (u : Uri) : Documents :=
  ⟨ds.byUri.erase u⟩

end Documents

end LgLang.Workspace
