import LgLang.Diagnostic
import Std.Data.TreeMap

/-!
# References

A reference is a place where a name is used: a call in an expression, or a bracket reference in a text. The index keeps
all references of a scope under the names that they resolved to.
-/

namespace LgLang

/-- How a name is used. -/
inductive ReferenceKind where
  /-- `name(...)` in an expression. -/
  | call
  /-- `[Name]` in a text. -/
  | bracket
  deriving DecidableEq, Repr

/-- What a name resolved to. -/
inductive Target where
  | template
  | function
  | unresolved
  deriving DecidableEq, Repr

/-- A use of a name. -/
structure Reference where
  /-- The name as it is written. -/
  name : String
  /-- The name under which the symbol table has it; the written name if it is unresolved. -/
  key : String
  uri : Uri
  span : Span
  kind : ReferenceKind
  argumentCount : Option Nat
  target : Target
  deriving DecidableEq, Repr

/-- The references of a scope by key, in the order in which they were found. -/
structure ReferenceIndex where
  byKey : Std.TreeMap String (List Reference)

namespace ReferenceIndex

def empty : ReferenceIndex :=
  ⟨∅⟩

/-- The references to a key. -/
def referencesTo (x : ReferenceIndex) (key : String) : List Reference :=
  x.byKey.getD key []

def insert (x : ReferenceIndex) (r : Reference) : ReferenceIndex :=
  ⟨x.byKey.insert r.key (x.referencesTo r.key ++ [r])⟩

def ofList (rs : List Reference) : ReferenceIndex :=
  rs.foldl insert empty

/-- Every reference, by key. -/
def toList (x : ReferenceIndex) : List Reference :=
  x.byKey.keys.flatMap x.referencesTo

def size (x : ReferenceIndex) : Nat :=
  x.toList.length

/-- The first reference in a document that touches the offset. -/
def at? (x : ReferenceIndex) (uri : Uri) (offset : Nat) : Option Reference :=
  x.toList.find? fun r => r.uri == uri && r.span.contains offset

end ReferenceIndex

end LgLang
