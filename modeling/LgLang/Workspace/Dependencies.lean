import LgLang.Uri
import Std.Data.TreeMap
import Std.Data.TreeSet

/-!
# Dependencies between documents

Which files each document depends on, and for each file the documents that depend on it. Both directions are kept, so
that a change of a file leads at once to the documents that it concerns: `affected` follows the second direction as far
as it goes.
-/

namespace LgLang.Workspace

/-- For a document, a set of documents that it is related to. Documents related to none have no entry. -/
abbrev UriRelation := Std.TreeMap Uri (Std.TreeSet Uri)

namespace UriRelation

/-- The documents related to `u`, in order. -/
def targets (r : UriRelation) (u : Uri) : List Uri :=
  ((r : Std.TreeMap Uri (Std.TreeSet Uri)).getD u ∅).toList

/-- Relates `u` to `v`. -/
def relate (r : UriRelation) (u v : Uri) : UriRelation :=
  Std.TreeMap.insert r u ((Std.TreeMap.getD r u ∅).insert v)

/-- Takes `v` from those related to `u`, and the entry of `u` with the last of them. -/
def unrelate (r : UriRelation) (u v : Uri) : UriRelation :=
  match Std.TreeMap.get? r u with
  | none => r
  | some vs =>
    let rest := vs.erase v
    if rest.isEmpty then Std.TreeMap.erase r u else Std.TreeMap.insert r u rest

/-- The number of related pairs. -/
def pairCount (r : UriRelation) : Nat :=
  (Std.TreeMap.toList r).foldl (fun n (_, vs) => n + vs.size) 0

/-- Adds to `seen` the documents of a list and everything that they lead to. At most `room` documents are added. -/
def reach (r : UriRelation) : (room : Nat) → (todo : List Uri) → (seen : Std.TreeSet Uri) → Std.TreeSet Uri
  | 0, _, seen => seen
  | room + 1, todo, seen =>
    match todo.dropWhile seen.contains with
    | [] => seen
    | u :: todo => reach r room (r.targets u ++ todo) (seen.insert u)

end UriRelation

/-- The dependencies of documents, in both directions. -/
structure Dependencies where
  /-- The files that a document depends on. -/
  forward : UriRelation
  /-- The documents that depend on a file. -/
  backward : UriRelation

namespace Dependencies

def empty : Dependencies :=
  ⟨∅, ∅⟩

/-- Notes that `u` depends on `v`. -/
def add (d : Dependencies) (u v : Uri) : Dependencies :=
  ⟨d.forward.relate u v, d.backward.relate v u⟩

/-- Forgets what `u` depends on. What depends on `u` stays. -/
def forget (d : Dependencies) (u : Uri) : Dependencies where
  forward := Std.TreeMap.erase d.forward u
  backward := (d.forward.targets u).foldl (fun r v => r.unrelate v u) d.backward

/-- Makes `u` depend on the given files and on nothing else. A document does not depend on itself. -/
def replace (d : Dependencies) (u : Uri) (files : List Uri) : Dependencies :=
  (files.filter (· != u)).foldl (fun d v => d.add u v) (d.forget u)

/-- The other documents that depend on `u`, directly or through others, in order. -/
def affected (d : Dependencies) (u : Uri) : List Uri :=
  ((d.backward.reach d.backward.pairCount (d.backward.targets u) ∅).toList).filter (· != u)

end Dependencies

end LgLang.Workspace
