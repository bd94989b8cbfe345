import LgLang.Text.Blank

/-!
# What the text before the cursor says

While a call is being typed, its expression is usually not closed yet and has no place in the syntax tree. Completion
and signature help therefore look at the text of the line up to the cursor: `context` tells whether the cursor is in
an expression or in a bracket reference, `trailingName` which name is being typed, and `openCall?` which call is
waiting for an argument.
-/

namespace LgLang.Editor

/-- Where a cursor is, by the text before it. -/
inductive Context where
  /-- In an open `${`; holds the expression so far. -/
  | expression (text : List Char)
  /-- In an open `[` of a body line; holds the name so far. -/
  | reference (name : List Char)
  | outside
  deriving DecidableEq, Repr

/-- The progress of a look at the text of a line. Parts of the text are remembered by what follows their beginning. -/
inductive Progress where
  /-- In text; `bracket` follows the innermost `[` that is still open. -/
  | text (bracket : Option (List Char))
  /-- In the expression that `start` begins with, below `depth` braces and in a string if `quote` is set. -/
  | expression (start : List Char) (depth : Nat) (quote : Option Char)
  deriving DecidableEq, Repr

/-- Looks at the rest of a line. A backslash hides the character after it in text and in strings. -/
def Progress.over : Progress → List Char → Progress
  | p, [] => p
  | .text b, ['\\'] => .text b
  | .text b, '\\' :: _ :: cs => Progress.over (.text b) cs
  | .text _, '$' :: '\x7b' :: cs => Progress.over (.expression cs 1 none) cs
  | .text b, c :: cs =>
    Progress.over (.text (if c == '[' then some cs else if c == ']' then none else b)) cs
  | .expression s d (some q), ['\\'] => .expression s d (some q)
  | .expression s d (some q), '\\' :: _ :: cs => Progress.over (.expression s d (some q)) cs
  | .expression s d (some q), c :: cs => Progress.over (.expression s d (if c == q then none else some q)) cs
  | .expression s d none, c :: cs =>
    if c == '\'' || c == '"' || c == '\x60' then Progress.over (.expression s d (some c)) cs
    else if c == '\x7b' then Progress.over (.expression s (d + 1) none) cs
    else if c == '\x7d' then
      if d = 1 then Progress.over (.text none) cs else Progress.over (.expression s (d - 1) none) cs
    else Progress.over (.expression s d none) cs

/-- Characters of template names. -/
def isReferenceChar (c : Char) : Bool :=
  c.isAlphanum || c == '_' || c == '.' || c == '-'

/-- Headers, imports and comments hold no references. -/
def isBodyLine (line : List Char) : Bool :=
  match Text.trimStart line with
  | '#' :: _ | '[' :: _ | '>' :: _ => false
  | _ => true

/-- Where the cursor at the end of the text is. -/
def context (line : List Char) : Context :=
  match Progress.over (.text none) line with
  | .expression start _ _ => .expression start
  | .text (some name) => if isBodyLine line && name.all isReferenceChar then .reference name else .outside
  | .text none => .outside

/-- Letters, digits, underscores and dots make up names in expressions. -/
def isNameChar (c : Char) : Bool :=
  c.isAlphanum || c == '_' || c == '.'

/-- The name, possibly empty, that ends the text. -/
def trailingName (cs : List Char) : List Char :=
  (cs.reverse.takeWhile isNameChar).reverse

/-- An open bracket: the name called, if it is the parenthesis of a call, and the commas behind it so far. -/
structure OpenBracket where
  callee : Option (List Char)
  commas : Nat
  deriving DecidableEq, Repr

/-- The progress of a look for open calls: the text passed, last character first; the quote of the string that is
open, and whether a backslash hides the next character of it; the open brackets, innermost first. -/
structure CallProgress where
  passed : List Char
  quote : Option Char
  escaped : Bool
  opened : List OpenBracket
  deriving DecidableEq, Repr

/-- The name that a parenthesis behind the text would call. -/
def calleeOf (passed : List Char) : Option (List Char) :=
  let name := ((passed.dropWhile Text.isBlank).takeWhile isNameChar).reverse
  if name.isEmpty || name.getLast? == some '.' then none else some name

/-- The brackets that are open behind the character `c`. -/
def CallProgress.openedBehind (p : CallProgress) (c : Char) : List OpenBracket :=
  if c == '(' then ⟨calleeOf p.passed, 0⟩ :: p.opened
  else if c == '[' || c == '\x7b' then ⟨none, 0⟩ :: p.opened
  else if c == ')' || c == ']' || c == '\x7d' then p.opened.tail
  else if c == ',' then
    match p.opened with
    | [] => []
    | top :: outer => { top with commas := top.commas + 1 } :: outer
  else p.opened

/-- Looks at one more character. -/
def CallProgress.next (p : CallProgress) (c : Char) : CallProgress :=
  let passed := c :: p.passed
  match p.quote with
  | some q =>
    if p.escaped then { p with passed, escaped := false }
    else if c == '\\' then { p with passed, escaped := true }
    else if c == q then { p with passed, quote := none }
    else { p with passed }
  | none =>
    if c == '\'' || c == '"' || c == '\x60' then { p with passed, quote := some c }
    else { p with passed, opened := p.openedBehind c }

/-- The innermost call that is open at the end of the expression, with the number of commas typed in it so far. -/
def openCall? (expression : List Char) : Option (List Char × Nat) :=
  let final := expression.foldl CallProgress.next ⟨[], none, false, []⟩
  final.opened.findSome? fun b => b.callee.map (·, b.commas)

end LgLang.Editor
