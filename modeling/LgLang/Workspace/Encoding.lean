import LgLang.Analysis.Encoding
import LgLang.Workspace

/-!
# The workspace as JSON

The machine-readable form of what a workspace knows of a document. What is not there has no member.
-/

namespace LgLang.Workspace

/-- A tag as an array of the version and the sequence. -/
def Tag.toJson (t : Tag) : Json :=
  .arr [.int t.version, .ofNat t.sequence]

def Document.toJson (d : Document) : Json :=
  .arr [.int d.version, .str d.content, .str d.language]

/-- The tag of a result, whether it is stale, and the number of its notices. -/
def snapshotJson (s : Snapshot Result) : Json :=
  .arr [.int s.tag.version, .ofNat s.tag.sequence, .bool s.stale, .ofNat s.content.notices.length]

/-- A member that is left out when its list is empty. -/
def urisMember (name : String) : List Uri → List (String × Json)
  | [] => []
  | us => [(name, .ofList Uri.toJson us)]

/-- A relation as an object from documents to the documents related to them. -/
def UriRelation.toJson (r : UriRelation) : Json :=
  .obj ((Std.TreeMap.keys r).map fun u => (u.text, .ofList Uri.toJson (r.targets u)))

/-- What is known of a document. -/
def describe (w : Workspace) (u : Uri) : Json :=
  .obj <|
    ((w.documents.get? u).toList.map fun d => ("open", d.toJson)) ++
    ((w.snapshots.get? u).toList.map fun s => ("snapshot", snapshotJson s)) ++
    urisMember "depends_on" (w.dependencies.forward.targets u) ++
    urisMember "open_dependents" (w.openDependents u) ++
    (if w.files.contains u then [("cached", .bool true)] else [])

end LgLang.Workspace
