import LgLang.Expression
import LgLang.Expression.Arguments

/-!
# The built-in reader of expressions

The reader knows strings, brackets, names and numbers, and nothing of operators. It walks over an expression lexeme
by lexeme (`Scan.step`) and notes the calls it passes and the brackets and strings that do not match.

A step moves forward on every character but two: an `@` or a `$` outside a string starts a name that it cannot
continue, so the scan stays on it. `Scan.run` takes steps as long as they move forward; where it stops short of the
end of the expression, the scan would repeat its state for ever, and what was found so far is all there is.
-/

namespace LgLang.Expression

/-- A scan in progress. -/
structure Scan where
  /-- What is still to be read. -/
  rest : List Char
  /-- The byte offset of `rest` in the expression. -/
  offset : Nat
  /-- The last character before `rest` that is not an ASCII blank. -/
  before : Option Char
  /-- The brackets that are open, with their offsets, innermost first. -/
  opened : List (Char × Nat)
  calls : List CallSite
  mistakes : List Mistake
  deriving DecidableEq, Repr

namespace Scan

/-- The scan of an expression before its first step. -/
def start (cs : List Char) : Scan :=
  { rest := cs, offset := 0, before := none, opened := [], calls := [], mistakes := [] }

/-- The scan once it has passed the characters `read`, behind which `rest` remains. -/
def pass (s : Scan) (read rest : List Char) : Scan :=
  { s with
    rest := rest
    offset := s.offset + Text.byteSize read
    before := ((read.filter (!Text.isAsciiBlank ·)).getLast?).or s.before }

def mistake (s : Scan) (message : String) (span : Span) : Scan :=
  { s with mistakes := s.mistakes ++ [⟨message, span⟩] }

/-- Passes a string, or reports one that is not closed and passes everything. -/
def passString (s : Scan) (quote : Char) (cs : List Char) : Scan :=
  match quoted? quote cs with
  | some (inside, rest) => s.pass (quote :: inside) rest
  | none =>
    (s.mistake "unterminated string literal" (.ofSize s.offset (Text.byteSize (quote :: cs)))).pass (quote :: cs) []

/-- Passes a closing bracket and reports one that does not match the innermost open one. -/
def passCloser (s : Scan) (closer : Char) (cs : List Char) : Scan :=
  match s.opened with
  | [] => (s.mistake s!"unexpected '{closer}'" (.ofSize s.offset 1)).pass [closer] cs
  | (opener, place) :: outer =>
    let s := { s with opened := outer }
    if closerOf opener == closer then s.pass [closer] cs
    else
      (s.mistake s!"'{closer}' does not match '{opener}'" (.between place (s.offset + 1))).pass [closer] cs

/-- A name without the dots at its end. -/
def withoutFinalDots (cs : List Char) : List Char :=
  (cs.reverse.dropWhile (· == '.')).reverse

/-- Passes a name. It is a call when a parenthesis follows and no dot precedes it. -/
def passName (s : Scan) : Scan :=
  let word := s.rest.takeWhile isNameRest
  let rest := s.rest.dropWhile isNameRest
  let following := rest.dropWhile Text.isAsciiBlank
  let passed := s.pass word rest
  if s.before != some '.' && following.head? == some '(' then
    let name := withoutFinalDots word
    let call : CallSite :=
      ⟨String.ofList name, .ofSize s.offset (Text.byteSize name), argumentCount? following⟩
    { passed with calls := s.calls ++ [call] }
  else passed

/-- One step of the scan. -/
def step (s : Scan) : Scan :=
  match s.rest with
  | [] => s
  | c :: cs =>
    if isQuote c then s.passString c cs
    else if isOpener c then { s with opened := (c, s.offset) :: s.opened }.pass [c] cs
    else if isCloser c then s.passCloser c cs
    else if isNameStart c then s.passName
    else if c.isDigit then
      let isNumberRest := fun d : Char => d.isAlphanum || d == '.'
      s.pass (s.rest.takeWhile isNumberRest) (s.rest.dropWhile isNumberRest)
    else s.pass [c] cs

/-- Takes steps as long as they move forward. -/
def run (s : Scan) : Scan :=
  let next := s.step
  if next.rest.length < s.rest.length then run next else s
termination_by s.rest.length

/-- The findings of a scan that has stopped. At the end of the expression the brackets still open are reported,
outermost first. -/
def findings (s : Scan) : Parsed :=
  let unclosed := if s.rest.isEmpty then s.opened.reverse else []
  { calls := s.calls
    mistakes := s.mistakes ++ unclosed.map fun (opener, place) => ⟨s!"unclosed '{opener}'", .ofSize place 1⟩ }

end Scan

/-- What the built-in reader finds in an expression. -/
def scan (cs : List Char) : Parsed :=
  (Scan.start cs).run.findings

/-- The name that the byte offset touches: the characters around it that continue names, from the first one that can
start a name. -/
def nameAt? (cs : List Char) (offset : Nat) : Option (String × Span) :=
  let offset := min offset (Text.byteSize cs)
  match Text.takeBytes? cs offset, Text.dropBytes? cs offset with
  | some before, some after =>
    let left := before.reverse.takeWhile isNameRest
    let word := left.reverse ++ after.takeWhile isNameRest
    let skipped := word.takeWhile (!isNameStart ·)
    let name := word.dropWhile (!isNameStart ·)
    if name.isEmpty then none
    else
      let start := offset - Text.byteSize left + Text.byteSize skipped
      some (String.ofList name, .ofSize start (Text.byteSize name))
  | _, _ => none

/-- The built-in engine: it scans, and it shows the name under the cursor. -/
def builtinEngine : Engine where
  parse e := scan e.toList
  hover e offset := (nameAt? e.toList offset).map fun (name, span) => ⟨"\x60" ++ name ++ "\x60", some span⟩

end LgLang.Expression
