import LgLang.Json
import LgLang.Workspace.Snapshots

/-!
# Publishing results

Clients are sent the whole list of findings of a document each time; the last list sent counts. The publisher remembers
the tag of the last list of every document and drops what is not newer.
-/

namespace LgLang.Workspace

/-- A list that is sent for a document. -/
structure Publication (α : Type) where
  uri : Uri
  /-- The version that the list describes, unless it takes back what was sent before. -/
  version : Option Int
  items : List α
  deriving DecidableEq, Repr

/-- What has been sent. -/
structure Publisher (α : Type) where
  /-- The tags of the last lists that were not taken back. -/
  tags : Std.TreeMap Uri Tag
  /-- Whether the client still listens. -/
  connected : Bool
  /-- Everything sent, latest first. -/
  sent : List (Publication α)

namespace Publisher

def empty : Publisher α :=
  ⟨∅, true, []⟩

/-- The tag of the last list sent for a document. -/
def last? (p : Publisher α) (u : Uri) : Option Tag :=
  p.tags.get? u

/-- Sends a list if the client listens. -/
def send (p : Publisher α) (m : Publication α) : Publisher α :=
  if p.connected then { p with sent := m :: p.sent } else p

/-- Whether a tag is newer than what was sent for the document. -/
def accepts (p : Publisher α) (u : Uri) (tag : Tag) : Bool :=
  match p.last? u with
  | some old => tag.newer old
  | none => true

/-- Sends a list of findings unless it is outdated. -/
def publish (p : Publisher α) (u : Uri) (tag : Tag) (items : List α) : Publisher α :=
  if p.accepts u tag then
    { p with tags := p.tags.insert u tag }.send ⟨u, some tag.version, items⟩
  else p

/-- Takes back what was sent for a document. -/
def clear (p : Publisher α) (u : Uri) : Publisher α :=
  { p with tags := p.tags.erase u }.send ⟨u, none, []⟩

/-- The client stops listening. -/
def disconnect (p : Publisher α) : Publisher α :=
  { p with connected := false }

/-- What was sent behind the first `n` lists, in order. -/
def sentAfter (p : Publisher α) (n : Nat) : List (Publication α) :=
  p.sent.reverse.drop n

end Publisher

/-! ## Written for clients -/

namespace Publication

/-- The name of the message that carries a publication. -/
def method : String :=
  "textDocument/publishDiagnostics"

/-- What the message says. -/
def params (encode : α → Json) (p : Publication α) : Json :=
  .obj <| [("uri", .str p.uri.text), ("diagnostics", .arr (p.items.map encode))] ++
    match p.version with
    | some v => [("version", .int v)]
    | none => []

end Publication

end LgLang.Workspace
