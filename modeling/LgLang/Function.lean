/-!
# Functions callable from expressions

A function has a name, parameters to show, the numbers of arguments it accepts and a line of documentation. A
registry is a list of functions in which a name means its first entry. `Registry.builtin` is used when no other is given.
-/

namespace LgLang

/-- The numbers of arguments that a function accepts. -/
inductive Arity where
  | exactly (n : Nat)
  | within (low high : Nat)
  | atLeast (n : Nat)
  deriving DecidableEq, Repr

namespace Arity

def accepts : Arity → Nat → Bool
  | exactly n, count => count == n
  | within low high, count => low ≤ count && count ≤ high
  | atLeast n, count => n ≤ count

/-- The accepted numbers in words. -/
def describe : Arity → String
  | exactly 1 => "1 argument"
  | exactly n => s!"{n} arguments"
  | within low high => s!"{low} to {high} arguments"
  | atLeast n => s!"at least {n} arguments"

end Arity

/-- A function that expressions may call. -/
structure Function where
  name : String
  parameters : List String
  arity : Arity
  documentation : String
  deriving DecidableEq, Repr

namespace Function

/-- The function as it is written in a call. -/
def label (f : Function) : String :=
  f.name ++ "(" ++ ", ".intercalate f.parameters ++ ")"

end Function

/-- The functions that expressions may call. -/
structure Registry where
  functions : List Function

namespace Registry

/-- The first function of that name. -/
def find? (r : Registry) (name : String) : Option Function :=
  r.functions.find? (·.name == name)

end Registry

end LgLang
