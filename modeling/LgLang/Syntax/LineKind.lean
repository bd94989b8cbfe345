import LgLang.Syntax.Name
import LgLang.Span

/-!
# Kinds of lines

A template file is read line by line, and what a line is shows at its beginning. Headers and imports are boundaries:
they end whatever stands above them, so that a mistake above cannot reach below.
-/

namespace LgLang.Syntax

/-- What a line is, by its first characters. -/
inductive LineKind where
  | blank
  | comment
  | importLine
  | header
  | bullet
  | other
  deriving DecidableEq, Repr

/-- The parts of `[label](target)` and what follows it. -/
structure LinkParts where
  label : List Char
  target : List Char
  after : List Char
  deriving DecidableEq, Repr

/-- Splits a link off the beginning of a text. The label ends at the first `]`, the target at the first `)`. -/
def splitLink? : List Char → Option LinkParts
  | '[' :: cs =>
    match cs.dropWhile (· != ']') with
    | ']' :: '(' :: rest =>
      match rest.dropWhile (· != ')') with
      | ')' :: after => some ⟨cs.takeWhile (· != ']'), rest.takeWhile (· != ')'), after⟩
      | _ => none
    | _ => none
  | _ => none

/-- The kind of a line with that content. -/
def LineKind.ofContent (content : List Char) : LineKind :=
  match content with
  | [] => .blank
  | '>' :: _ => .comment
  | '#' :: _ => .header
  | c :: _ => if (splitLink? content).isSome then .importLine else if c == '-' then .bullet else .other

/-- The lines at which reading starts afresh. -/
def LineKind.isBoundary : LineKind → Bool
  | .header | .importLine => true
  | _ => false

/-- The kind of a line. -/
def kindOf (l : Text.Line) : LineKind :=
  .ofContent l.content

/-- Blank lines and comments say nothing in a body. -/
def isSilent (l : Text.Line) : Bool :=
  match kindOf l with
  | .blank | .comment => true
  | _ => false

def isBoundary (l : Text.Line) : Bool :=
  (kindOf l).isBoundary

/-- Where the content of a line stands. -/
def contentSpan (l : Text.Line) : Span :=
  .ofSize l.contentStart (Text.byteSize l.content)

/-- What a comment line adds to the documentation below it; option lines, `> !#`, add nothing. -/
def commentText? (l : Text.Line) : Option String :=
  let body := match l.content with
    | '>' :: rest => rest
    | content => content
  if ['!', '#'].isPrefixOf (Text.trimStart body) then none
  else
    let words := match body with
      | ' ' :: rest => rest
      | body => body
    some (String.ofList (Text.trimEnd words))

end LgLang.Syntax
