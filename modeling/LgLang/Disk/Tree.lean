import LgLang.Disk
import LgLang.Text.Utf8
import Std.Data.TreeMap

/-!
# A tree of files

A tree holds directories and files under their absolute paths. Following a path goes through directories only; a path
that does not begin with a slash is followed from the working directory.
-/

namespace LgLang

/-- Directories and files by their paths; a path is the list of its names, the last one first. -/
structure FileTree where
  entries : Std.TreeMap String DiskEntry

namespace FileTree

/-- A tree that has nothing but its root. -/
def empty : FileTree :=
  ⟨∅⟩

/-- The absolute path with these names, the last one first. -/
def pathText (names : List String) : String :=
  if names.isEmpty then "/" else String.join (names.reverse.map ("/" ++ ·))

def entry? (t : FileTree) (names : List String) : Option DiskEntry :=
  if names.isEmpty then some .directory else t.entries.get? (pathText names)

/-- Puts an entry at a path, and directories where those above it are missing. -/
def insert (t : FileTree) (names : List String) (e : DiskEntry) : FileTree :=
  match names with
  | [] => t
  | _ :: above =>
    let t := if (t.entry? above).isNone then t.insert above .directory else t
    ⟨t.entries.insert (pathText names) e⟩

/-- Takes away the entry at a path and all below it. -/
def remove (t : FileTree) (names : List String) : FileTree :=
  let path := pathText names
  ⟨t.entries.filter fun p _ => p != path && !(path ++ "/").toList.isPrefixOf p.toList⟩

/-- The parts of a path text between its slashes. -/
def partsOf (path : String) : List String :=
  (Url.splitAt (· == '/') path.toList).map String.ofList

/-- The longest name of an entry, in bytes. -/
def maxNameSize : Nat := 255

/-- The longest path, in bytes. -/
def maxPathSize : Nat := 4095

/-- Follows the parts of a path from the directory `at`. -/
def follow (t : FileTree) (here : List String) : List String → Except DiskError (List String)
  | [] => .ok here
  | part :: parts =>
    if t.entry? here != some .directory then .error .notADirectory
    else if part == "" || part == "." then t.follow here parts
    else if part == ".." then t.follow here.tail parts
    else if Text.byteSize part.toList > maxNameSize then .error .nameTooLong
    else
      match t.entry? (part :: here) with
      | none => .error .notFound
      | some _ => t.follow (part :: here) parts

/-- The names of the entry that a path leads to. -/
def resolve (t : FileTree) (working : List String) (path : String) : Except DiskError (List String) :=
  let cs := path.toList
  if cs.contains '\x00' then .error .nulInName
  else if cs.isEmpty then .error .notFound
  else if Text.byteSize cs > maxPathSize then .error .nameTooLong
  else t.follow (if cs.head? == some '/' then [] else working) (partsOf path)

/-- The disk that holds the tree. -/
def disk (t : FileTree) (working : List String) : Disk where
  entry path :=
    match t.resolve working path with
    | .error e => .error e
    | .ok names =>
      match t.entry? names with
      | some e => .ok e
      | none => .error .notFound
  canonical path :=
    match t.resolve working path with
    | .error e => .error e
    | .ok names => .ok (pathText names)

end FileTree

end LgLang
