import LgLang.Expression.Lexeme

/-!
# Counting arguments

The number of arguments of a call is one more than the number of commas between its parentheses, outside strings and
inner brackets; a pair of parentheses with nothing but blanks between them has no arguments. There is no count for a
list that is not closed or that spreads one of its arguments with `...`.
-/

namespace LgLang.Expression

/-- Reads an argument list from its opening bracket on: `depth` brackets are open, `commas` separators have been seen
at the first level, and `content` tells whether anything but blanks and separators has. -/
def argumentsFrom (depth commas : Nat) (content : Bool) : List Char → Option Nat
  | [] => none
  | c :: cs =>
    if isQuote c then
      match _h : quoted? c cs with
      | none => none
      | some (_, rest) => argumentsFrom depth commas true rest
    else if isOpener c then argumentsFrom (depth + 1) commas (content || depth ≥ 1) cs
    else if isCloser c then
      if depth = 1 then some (if content then commas + 1 else 0) else argumentsFrom (depth - 1) commas content cs
    else if c == ',' && depth == 1 then argumentsFrom depth (commas + 1) content cs
    else if c == '.' && depth == 1 && ['.', '.'].isPrefixOf cs then none
    else argumentsFrom depth commas (content || !Text.isAsciiBlank c) cs
termination_by cs => cs.length
decreasing_by
  all_goals simp_wf
  · have := length_of_quoted? ‹_›
    omega

/-- The number of arguments in the list that `cs` starts with; its first character is the opening parenthesis. -/
def argumentCount? (cs : List Char) : Option Nat :=
  argumentsFrom 0 0 false cs

end LgLang.Expression
