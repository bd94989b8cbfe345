/-!
# JSON values

Values as they come from documents: objects keep the order of their members, and a name given twice means its last
value. Whole numbers that fit into 64 bits are kept as integers; every other number is kept as it was written.
-/

namespace LgLang

inductive Json where
  | null
  | bool (b : Bool)
  | int (n : Int)
  | real (text : String)
  | str (s : String)
  | arr (items : List Json)
  | obj (members : List (String × Json))
  deriving Repr, Inhabited

namespace Json

/-- The value of a member of an object; of a name given twice, the last one. -/
def get? (j : Json) (key : String) : Option Json :=
  match j with
  | obj members => (members.reverse.find? (·.1 == key)).map (·.2)
  | _ => none

def str? : Json → Option String
  | str s => some s
  | _ => none

def bool? : Json → Option Bool
  | bool b => some b
  | _ => none

def int? : Json → Option Int
  | int n => some n
  | _ => none

/-- An integer that is not negative. -/
def nat? : Json → Option Nat
  | int (.ofNat n) => some n
  | _ => none

def arr? : Json → Option (List Json)
  | arr items => some items
  | _ => none

def obj? : Json → Option (List (String × Json))
  | obj members => some members
  | _ => none

def isNull : Json → Bool
  | null => true
  | _ => false

def ofNat (n : Nat) : Json :=
  int n

/-- A value that may be absent. -/
def ofOption : Option Json → Json
  | some j => j
  | none => null

end Json

end LgLang
