import LgLang.Disk
import Std.Data.TreeMap

/-!
# Cached files

A file that many analyses read is read from disk once. Its text is used again as long as the file has the same time of
modification, and forgotten when the client tells that the file has changed.
-/

namespace LgLang

/-- The text of a file as it was read at some time. -/
structure CachedFile where
  modified : Option Nat
  text : String
  deriving DecidableEq, Repr

/-- Texts of files that have been read. -/
structure FileCache where
  files : Std.TreeMap Uri CachedFile

namespace FileCache

def empty : FileCache :=
  ⟨∅⟩

def contains (c : FileCache) (u : Uri) : Bool :=
  c.files.contains u

/-- The number of texts. -/
def size (c : FileCache) : Nat :=
  c.files.size

/-- The cached text of a file that was modified at the given time. -/
def fresh? (c : FileCache) (u : Uri) (modified : Option Nat) : Option String :=
  match c.files.get? u with
  | some f => if modified.isSome && f.modified == modified then some f.text else none
  | none => none

/-- Forgets the text of a file. -/
def invalidate (c : FileCache) (u : Uri) : FileCache :=
  ⟨c.files.erase u⟩

/-- Reads a file, from the cache where that is possible. -/
def read (c : FileCache) (d : Disk) (u : Uri) : Except SourceError String × FileCache :=
  match u.url.filePath? with
  | none => (.error (.notAFile u), c)
  | some path =>
    match d.entry path with
    | .error e => (.error (e.sourceError u), c)
    | .ok .directory => (.error (.unreadable u "not a regular file"), c)
    | .ok (.file content modified) =>
      match c.fresh? u modified with
      | some text => (.ok text, c)
      | none =>
        match content with
        | some text => (.ok text, ⟨c.files.insert u ⟨modified, text⟩⟩)
        | none => (.error (DiskError.notUtf8.sourceError u), c)

end FileCache

end LgLang
