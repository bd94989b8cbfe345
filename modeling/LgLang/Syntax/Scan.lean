import LgLang.Syntax
import LgLang.Syntax.Name
import LgLang.Diagnostic

/-!
# Segments and references in a text

A text holds expression segments `${...}` and bracket references `[Name]`. `tokensFrom` finds both. A backslash in the
text hides the character after it. An expression ends at the brace that closes it, where braces inside it are balanced
and quoted strings are skipped; it may not go on behind the end of its line, and one that does is reported from its
dollar sign to there. A pair of brackets is passed as a whole; it is a reference when it holds a template name and no
parenthesis follows, which would make it a link.
-/

namespace LgLang.Syntax

/-- The look for the end of an expression: what was passed, what remains, and whether the end was found. -/
structure ExpressionEnd where
  content : List Char
  /-- Starts behind the closing brace, or else at the line feed or the end of the text where the look ended. -/
  rest : List Char
  closed : Bool
  deriving DecidableEq, Repr

namespace ExpressionEnd

/-- The same end, seen from one character earlier. -/
def before (c : Char) (e : ExpressionEnd) : ExpressionEnd :=
  { e with content := c :: e.content }

end ExpressionEnd

/-- Looks for the end of an expression below `depth` braces, in a string if `quote` is set. -/
def expressionEnd (depth : Nat) : (quote : Option Char) → List Char → ExpressionEnd
  | _, [] => ⟨[], [], false⟩
  | none, c :: cs =>
    if c == '\n' then ⟨[], c :: cs, false⟩
    else if c == '\'' || c == '"' || c == '\x60' then (expressionEnd depth (some c) cs).before c
    else if c == '\x7b' then (expressionEnd (depth + 1) none cs).before c
    else if c == '\x7d' then
      if depth = 1 then ⟨[], cs, true⟩ else (expressionEnd (depth - 1) none cs).before c
    else (expressionEnd depth none cs).before c
  | some q, c :: cs =>
    if c == q then (expressionEnd depth none cs).before c
    else if c == '\n' then ⟨[], c :: cs, false⟩
    else if c == '\\' then
      match cs with
      | [] => ⟨[c], [], false⟩
      | d :: ds => ((expressionEnd depth (some q) ds).before d).before c
    else (expressionEnd depth (some q) cs).before c

theorem length_expressionEnd_rest (depth : Nat) (quote : Option Char) (cs : List Char) :
    (expressionEnd depth quote cs).rest.length ≤ cs.length := by
  fun_induction expressionEnd depth quote cs <;>
    simp_all only [ExpressionEnd.before, List.length_nil, List.length_cons] <;> omega

/-- What a text holds besides plain characters. -/
inductive Token where
  | segment (s : Segment)
  | reference (r : Reference)
  /-- An expression that is still open at the end of its line. -/
  | unterminated (span : Span)
  deriving DecidableEq, Repr

/-- The segment with that expression whose dollar sign has offset `start`. -/
def segmentAt (start : Nat) (content : List Char) : Segment where
  expression := String.ofList content
  span := .ofSize start (Text.byteSize content + 3)
  contentSpan := .ofSize (start + 2) (Text.byteSize content)

/-- The span of an open expression whose dollar sign has offset `start`; a carriage return at its end is left out. -/
def unterminatedSpan (start : Nat) (content : List Char) : Span :=
  .ofSize start (2 + Text.byteSize (Text.stripReturn content))

/-- The characters between an opening bracket and the closing one on the same line, and what follows that. -/
def splitBracket? (cs : List Char) : Option (List Char × List Char) :=
  match cs.dropWhile (fun c => c != ']' && c != '\n') with
  | ']' :: rest => some (cs.takeWhile (fun c => c != ']' && c != '\n'), rest)
  | _ => none

theorem length_splitBracket? {cs name rest : List Char} (h : splitBracket? cs = some (name, rest)) :
    rest.length < cs.length := by
  unfold splitBracket? at h
  split at h
  · rename_i r hr
    have := Text.length_dropWhile_le (fun c => c != ']' && c != '\n') cs
    rw [hr, List.length_cons] at this
    obtain ⟨_, rfl⟩ := Prod.mk.inj (Option.some.inj h)
    omega
  · simp at h

/-- The tokens of a text whose first byte has offset `start`. -/
def tokensFrom (start : Nat) (cs : List Char) : List Token :=
  match cs with
  | [] => []
  | ['\\'] => []
  | '\\' :: c :: rest => tokensFrom (start + 1 + c.utf8Size) rest
  | '$' :: '\x7b' :: rest =>
    have : (expressionEnd 1 none rest).rest.length ≤ rest.length := length_expressionEnd_rest 1 none rest
    let found := expressionEnd 1 none rest
    if found.closed then
      .segment (segmentAt start found.content) :: tokensFrom (start + Text.byteSize found.content + 3) found.rest
    else
      .unterminated (unterminatedSpan start found.content) ::
        tokensFrom (start + Text.byteSize found.content + 2) found.rest
  | '[' :: rest =>
    match h : splitBracket? rest with
    | some (name, after) =>
      have : after.length < rest.length := length_splitBracket? h
      let tail := tokensFrom (start + Text.byteSize name + 2) after
      if isTemplateName name && after.head? != some '(' then
        .reference ⟨String.ofList name, .ofSize (start + 1) (Text.byteSize name)⟩ :: tail
      else tail
    | none => tokensFrom (start + 1) rest
  | c :: rest => tokensFrom (start + c.utf8Size) rest
termination_by cs.length
decreasing_by all_goals simp_all only [List.length_cons]; omega

namespace Token

def segment? : Token → Option Segment
  | .segment s => some s
  | _ => none

def reference? : Token → Option Reference
  | .reference r => some r
  | _ => none

/-- The finding about an expression that is not closed. -/
def diagnostic? : Token → Option Diagnostic
  | .unterminated span =>
    some (.error .unterminatedExpression span "expression is missing its closing '\x7d'")
  | _ => none

end Token

/-- The text that begins at offset `start`, with the tokens in it. -/
def TextLine.ofText (start : Nat) (cs : List Char) : TextLine where
  text := String.ofList cs
  span := .ofSize start (Text.byteSize cs)
  segments := (tokensFrom start cs).filterMap Token.segment?
  references := (tokensFrom start cs).filterMap Token.reference?

/-- The findings about the expressions of a text that begins at offset `start`. -/
def textDiagnostics (start : Nat) (cs : List Char) : List Diagnostic :=
  (tokensFrom start cs).filterMap Token.diagnostic?

end LgLang.Syntax
