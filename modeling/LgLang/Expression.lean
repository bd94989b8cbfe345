import LgLang.Span

/-!
# Expressions

The text between `${` and `}` is never evaluated. An `Engine` reads it for the two things that matter to the rest of
the library: which names it calls and with how many arguments, and which mistakes it has. All spans in an engine's
answers count from the beginning of the expression.
-/

namespace LgLang.Expression

/-- A call of a template or function in an expression. -/
structure CallSite where
  name : String
  /-- Where the called name stands. -/
  span : Span
  /-- The number of arguments, when the text alone tells it. -/
  argumentCount : Option Nat
  deriving DecidableEq, Repr

/-- A mistake in an expression. -/
structure Mistake where
  message : String
  span : Span
  deriving DecidableEq, Repr

/-- What an engine finds in an expression. -/
structure Parsed where
  calls : List CallSite
  mistakes : List Mistake
  deriving DecidableEq, Repr

/-- Text to show for a part of an expression. -/
structure Hover where
  contents : String
  span : Option Span
  deriving DecidableEq, Repr

/-- The capability of reading expressions. -/
structure Engine where
  parse : String → Parsed
  /-- What to show at a byte offset of an expression. -/
  hover : String → Nat → Option Hover

end LgLang.Expression
