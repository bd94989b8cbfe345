import LgLang.Text.Blank
import LgLang.Text.Utf8

/-!
# Keywords of bullets

A bullet that begins with a keyword and a colon opens a branch. The letters are read without regard to case, by simple
Unicode case folding: besides its two ASCII forms the letter S has the form U+017F, the long s. A keyword is told by
the ASCII upper case of its letters, and whatever is none of the first five is DEFAULT.
-/

namespace LgLang.Syntax

inductive Keyword where
  | when
  | elseWhen
  | otherwise
  | switch
  | case
  | fallback
  deriving DecidableEq, Repr

namespace Keyword

/-- The keyword as it is written in messages. -/
def label : Keyword → String
  | .when => "IF"
  | .elseWhen => "ELSEIF"
  | .otherwise => "ELSE"
  | .switch => "SWITCH"
  | .case => "CASE"
  | .fallback => "DEFAULT"

/-- Whether an expression follows the keyword. -/
def takesExpression : Keyword → Bool
  | .when | .elseWhen | .switch | .case => true
  | .otherwise | .fallback => false

/-- The spellings of the keywords, in the order in which they are tried; a spelling comes before its own beginnings. -/
def spellings : List (List Char) :=
  [['E', 'L', 'S', 'E', 'I', 'F'], ['E', 'L', 'S', 'E'], ['I', 'F'], ['S', 'W', 'I', 'T', 'C', 'H'],
    ['C', 'A', 'S', 'E'], ['D', 'E', 'F', 'A', 'U', 'L', 'T']]

/-- Whether a character is an upper-case ASCII letter up to simple case folding. -/
def foldsTo (letter c : Char) : Bool :=
  c == letter || c.toUpper == letter || (letter == 'S' && c == '\u017f') || (letter == 'K' && c == '\u212a')

/-- Splits the letters of a spelling off the beginning of a text. -/
def splitSpelling? : List Char → List Char → Option (List Char × List Char)
  | [], cs => some ([], cs)
  | _ :: _, [] => none
  | l :: ls, c :: cs =>
    if foldsTo l c then (splitSpelling? ls cs).map fun (word, rest) => (c :: word, rest) else none

/-- Splits a spelling, blanks and a colon off the beginning of a text: the letters, the blanks and what follows. -/
def splitMarker? (spelling cs : List Char) : Option (List Char × List Char × List Char) :=
  match splitSpelling? spelling cs with
  | none => none
  | some (word, rest) =>
    match rest.dropWhile Text.isBlank with
    | ':' :: after => some (word, rest.takeWhile Text.isBlank, after)
    | _ => none

/-- The keyword that is written with these letters. -/
def ofLetters (word : List Char) : Keyword :=
  match String.ofList (word.map Char.toUpper) with
  | "IF" => .when
  | "ELSEIF" => .elseWhen
  | "ELSE" => .otherwise
  | "SWITCH" => .switch
  | "CASE" => .case
  | _ => .fallback

/-- The keyword that a bullet begins with, the number of bytes up to its colon, the colon included, and what follows. -/
def detect? (content : List Char) : Option (Keyword × Nat × List Char) :=
  (spellings.findSome? (splitMarker? · content)).map fun (word, blanks, after) =>
    (ofLetters word, Text.byteSize word + Text.byteSize blanks + 1, after)

end Keyword

end LgLang.Syntax
