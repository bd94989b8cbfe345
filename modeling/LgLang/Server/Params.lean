import LgLang.Editor.Location
import LgLang.Server.Message
import LgLang.Url.Reader

/-!
# Reading the parameters of messages

A record is an object with members of certain names, or an array of their values in a fixed order. Members that a
record does not know mean nothing. A member that may be left out may also be null.
-/

namespace LgLang.Server.Params

/-- The members of a record with these names. -/
def members? (names : List String) (j : Json) : Option (List (Option Json)) :=
  match j with
  | .obj _ => some (names.map j.get?)
  | .arr items => if items.length = names.length then some (items.map some) else none
  | _ => none

/-- A member that must be there. -/
def required (read : Json → Option α) (m : Option Json) : Option α :=
  m.bind read

/-- A member that may be left out. -/
def optional (read : Json → Option α) : Option Json → Option (Option α)
  | none | some .null => some none
  | some j => (read j).map some

/-- The items of an array. -/
def items? (read : Json → Option α) : Json → Option (List α)
  | .arr items => items.mapM read
  | _ => none

/-- A whole number that fits into 32 bits without a sign. -/
def nat32? : Json → Option Nat
  | .int (.ofNat n) => if n < UInt32.size then some n else none
  | _ => none

/-- A whole number that fits into 32 bits with a sign. -/
def int32? : Json → Option Int
  | .int n => if isInt32 n then some n else none
  | _ => none

/-- An absolute URL. -/
def uri? : Json → Option Uri
  | .str s => (Uri.parse s).toOption
  | _ => none

def position? (j : Json) : Option Position := do
  match ← members? ["line", "character"] j with
  | [line, character] => some ⟨← required nat32? line, ← required nat32? character⟩
  | _ => none

def range? (j : Json) : Option Editor.Range := do
  match ← members? ["start", "end"] j with
  | [start, stop] => some ⟨← required position? start, ← required position? stop⟩
  | _ => none

/-- The name of a document. -/
def document? (j : Json) : Option Uri := do
  match ← members? ["uri"] j with
  | [uri] => required uri? uri
  | _ => none

end LgLang.Server.Params
