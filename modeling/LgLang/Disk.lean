import LgLang.Import
import LgLang.Url.FilePath

/-!
# Files on disk

A disk tells what a path names: a directory, a file, or nothing for some reason. The state of a disk at one time is a
function; `LgLang.Disk.Tree` builds one from a tree of files.
-/

namespace LgLang

/-- Why a path cannot be followed or read. -/
inductive DiskError where
  | notFound
  | notADirectory
  | isADirectory
  | nameTooLong
  /-- The path holds a character that no path can hold. -/
  | nulInName
  /-- The bytes of the file are not a text. -/
  | notUtf8
  /-- Any other reason, in words. -/
  | other (reason : String)
  deriving DecidableEq, Repr

def DiskError.message : DiskError → String
  | notFound => "No such file or directory (os error 2)"
  | notADirectory => "Not a directory (os error 20)"
  | isADirectory => "Is a directory (os error 21)"
  | nameTooLong => "File name too long (os error 36)"
  | nulInName => "file name contained an unexpected NUL byte"
  | notUtf8 => "stream did not contain valid UTF-8"
  | other reason => reason

/-- The reason why a document on disk cannot be had. -/
def DiskError.sourceError (uri : Uri) : DiskError → SourceError
  | notFound => .notFound uri
  | e => .unreadable uri e.message

/-- What a path names. -/
inductive DiskEntry where
  | directory
  /-- A file with its text, unless its bytes are not a text, and when it was last modified, if that is known. -/
  | file (text : Option String) (modified : Option Nat)
  deriving DecidableEq, Repr

/-- The state of a disk. -/
structure Disk where
  /-- What a path names. -/
  entry : String → Except DiskError DiskEntry
  /-- The absolute path, without detours, that a path leads to. -/
  canonical : String → Except DiskError String

namespace Disk

/-- The text of the file at a path. -/
def readText (d : Disk) (path : String) : Except DiskError String :=
  match d.entry path with
  | .error e => .error e
  | .ok .directory => .error .isADirectory
  | .ok (.file none _) => .error .notUtf8
  | .ok (.file (some text) _) => .ok text

/-- Whether a path names a file. -/
def isFile (d : Disk) (path : String) : Bool :=
  match d.entry path with
  | .ok (.file _ _) => true
  | _ => false

/-- The text of the file that a URL names. -/
def readUri (d : Disk) (u : Uri) : Except SourceError String :=
  match u.url.filePath? with
  | none => .error (.notAFile u)
  | some path =>
    match d.readText path with
    | .ok text => .ok text
    | .error e => .error (e.sourceError u)

/-- Texts read straight from the disk. -/
def sources (d : Disk) : Sources :=
  { read := d.readUri }

end Disk

end LgLang
