import LgLang.Text.Blank
import LgLang.Text.Line

/-!
# The smallest parts of expressions

Names, quoted strings and brackets. A name starts with a letter or one of `_`, `@`, `$` and goes on with letters,
digits, underscores and dots: the marks `@` and `$` can start a name but not continue one. A quoted string ends at
the next occurrence of its quote that no backslash stands before.
-/

namespace LgLang.Expression

def isQuote (c : Char) : Bool :=
  c == '\'' || c == '"' || c == '\x60'

def isOpener (c : Char) : Bool :=
  c == '(' || c == '[' || c == '\x7b'

def isCloser (c : Char) : Bool :=
  c == ')' || c == ']' || c == '\x7d'

/-- The bracket that closes an opener. -/
def closerOf (opener : Char) : Char :=
  if opener == '(' then ')' else if opener == '[' then ']' else '\x7d'

/-- Letters, digits, underscores and dots continue a name. -/
def isNameRest (c : Char) : Bool :=
  c.isAlphanum || c == '_' || c == '.'

/-- Letters, underscores, at signs and dollar signs start a name. -/
def isNameStart (c : Char) : Bool :=
  c.isAlpha || c == '_' || c == '@' || c == '$'

/-- Splits what follows an opening quote behind the closing one, or fails when the string is not closed. The first
part contains the closing quote. -/
def quoted? (quote : Char) : List Char → Option (List Char × List Char)
  | [] => none
  | ['\\'] => none
  | '\\' :: c :: cs => (quoted? quote cs).map fun (inside, rest) => ('\\' :: c :: inside, rest)
  | c :: cs =>
    if c == quote then some ([c], cs) else (quoted? quote cs).map fun (inside, rest) => (c :: inside, rest)

/-- The two parts of a quoted string make up the text. -/
theorem append_of_quoted? {quote : Char} {cs inside rest : List Char}
    (h : quoted? quote cs = some (inside, rest)) : inside ++ rest = cs := by
  fun_induction quoted? quote cs generalizing inside rest with
  | case1 => simp at h
  | case2 => simp at h
  | case3 c cs ih =>
    obtain ⟨⟨i, r⟩, hir, heq⟩ := Option.map_eq_some_iff.1 h
    obtain ⟨rfl, rfl⟩ := Prod.mk.inj heq
    simp [ih hir]
  | case4 c cs _ _ hq =>
    obtain ⟨rfl, rfl⟩ := Prod.mk.inj (Option.some.inj h)
    rfl
  | case5 c cs _ _ hq ih =>
    obtain ⟨⟨i, r⟩, hir, heq⟩ := Option.map_eq_some_iff.1 h
    obtain ⟨rfl, rfl⟩ := Prod.mk.inj heq
    simp [ih hir]

theorem length_of_quoted? {quote : Char} {cs inside rest : List Char}
    (h : quoted? quote cs = some (inside, rest)) : rest.length ≤ cs.length := by
  rw [← append_of_quoted? h, List.length_append]
  omega

end LgLang.Expression
