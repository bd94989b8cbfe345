import LgLang.Uri
import Std.Data.TreeMap

/-!
# Snapshots

The latest accepted result for each document. A result is tagged with the version of the document that it describes and
with the number of the job that found it; a result is accepted only if its tag is newer than that of the one before.
-/

namespace LgLang.Workspace

/-- What a result describes and when it was asked for. Tags are compared by version, then by sequence. -/
structure Tag where
  version : Int
  sequence : Nat
  deriving DecidableEq, Repr

namespace Tag

instance : Ord Tag where
  compare a b := (compare a.version b.version).then (compare a.sequence b.sequence)

/-- Whether the first tag comes after the second. -/
def newer (a b : Tag) : Bool :=
  compare a b == .gt

end Tag

/-- A result for a document. -/
structure Snapshot (α : Type) where
  content : α
  tag : Tag
  /-- Whether something that the result rests on has changed. -/
  stale : Bool
  deriving Repr

/-- Whether the result still holds of a version of its document. -/
def Snapshot.isCurrent (s : Snapshot α) (version : Int) : Bool :=
  !s.stale && s.tag.version == version

/-- The latest result for each document. -/
structure Snapshots (α : Type) where
  byUri : Std.TreeMap Uri (Snapshot α)

namespace Snapshots

def empty : Snapshots α :=
  ⟨∅⟩

def get? (s : Snapshots α) (u : Uri) : Option (Snapshot α) :=
  s.byUri.get? u

def size (s : Snapshots α) : Nat :=
  s.byUri.size

/-- Accepts a result unless there is one whose tag is as new. -/
def commit? (s : Snapshots α) (u : Uri) (snapshot : Snapshot α) : Option (Snapshots α) :=
  match s.get? u with
  | some old => if snapshot.tag.newer old.tag then some ⟨s.byUri.insert u snapshot⟩ else none
  | none => some ⟨s.byUri.insert u snapshot⟩

/-- Notes that what the result of a document rests on has changed. -/
def markStale (s : Snapshots α) (u : Uri) : Snapshots α :=
  match s.get? u with
  | some snapshot => ⟨s.byUri.insert u { snapshot with stale := true }⟩
  | none => s

def remove (s : Snapshots α) (u : Uri) : Snapshots α :=
  ⟨s.byUri.erase u⟩

end Snapshots

end LgLang.Workspace
