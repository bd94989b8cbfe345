import LgLang.Analysis
import LgLang.Editor.Cursor
import LgLang.Editor.Location
import LgLang.Text.Lowercase

/-!
# Completion

In an expression the candidates are the visible templates and the functions; behind `alias.` they are the templates of
that import; in brackets only templates count. Candidates begin with what is typed, without regard to case. They are
listed by rank (the document's own templates, imported ones, functions), then by their lower-case labels, then by their
labels, and each item carries its place in the list as sort text.
-/

namespace LgLang.Editor

/-- The text of the offset's line up to the offset, when the offset is a character boundary. -/
def linePrefix? (a : Analysis) (offset : Nat) : Option (List Char) :=
  let cs := a.text.toList
  match (Text.lines cs)[(Text.position cs offset).line]? with
  | some l => Text.slice? cs l.start offset
  | none => none

/-- The groups of candidates, in the order of the list. -/
inductive Rank where
  | own
  | imported
  | function
  deriving DecidableEq, Repr

def Rank.toNat : Rank → Nat
  | own => 0
  | imported => 1
  | function => 2

/-- Documentation in one of two formats. -/
inductive Documentation where
  | markdown (text : String)
  | plain (text : String)
  deriving DecidableEq, Repr

/-- A candidate for what is being typed. -/
structure Candidate where
  rank : Rank
  label : String
  detail : String
  documentation : Option Documentation
  deriving DecidableEq, Repr

namespace Candidate

/-- A template under a label. -/
def ofSymbol (s : Symbol) (label : String) : Candidate where
  rank := if s.isLocal then .own else .imported
  label
  detail := s.signature
  documentation := s.doc.map .markdown

def ofFunction (f : Function) : Candidate where
  rank := .function
  label := f.name
  detail := f.label
  documentation := some (.plain f.documentation)

/-- Whether one candidate is listed before another or at the same place. -/
def precedes (a b : Candidate) : Bool :=
  (((compare a.rank.toNat b.rank.toNat).then (compare (Text.lowercase a.label) (Text.lowercase b.label))).then
    (compare a.label b.label)).isLE

end Candidate

/-- Whether a name begins with what is typed, without regard to case. -/
def matchesTyped (name : String) (typed : List Char) : Bool :=
  (Text.lowercase (String.ofList typed)).toList.isPrefixOf (Text.lowercase name).toList

/-- The visible templates that begin with what is typed. -/
def templateCandidates (a : Analysis) (typed : List Char) : List Candidate :=
  (a.symbols.visible.filter fun s => matchesTyped s.name typed).map fun s => .ofSymbol s s.name

def functionCandidates (functions : Registry) (typed : List Char) : List Candidate :=
  (functions.functions.filter fun f => matchesTyped f.name typed).map .ofFunction

/-- The templates of the import with that alias, labelled by their bare names. Behind anything that is no alias there
are none. -/
def qualifiedCandidates (a : Analysis) (qualifier typed : List Char) : List Candidate :=
  if a.scope.files.any (·.qualifier == some (String.ofList qualifier)) then
    a.symbols.visible.filterMap fun s =>
      let name := s.name.toList
      let lead := qualifier ++ ['.']
      if lead.isPrefixOf name then
        let bare := String.ofList (name.drop lead.length)
        if matchesTyped bare typed then some (.ofSymbol s bare) else none
      else none
  else []

/-- Splits a dotted name at its last dot. -/
def splitLastDot? (word : List Char) : Option (List Char × List Char) :=
  match word.reverse.dropWhile (· != '.') with
  | _ :: before => some (before.reverse, (word.reverse.takeWhile (· != '.')).reverse)
  | [] => none

/-- The candidates for what is being typed behind a text. -/
def candidates (a : Analysis) (functions : Registry) (before : List Char) : List Candidate :=
  match context before with
  | .expression e =>
    let word := trailingName e
    match splitLastDot? word with
    | some (qualifier, typed) => qualifiedCandidates a qualifier typed
    | none => templateCandidates a word ++ functionCandidates functions word
  | .reference typed => templateCandidates a typed
  | .outside => []

/-- An item of a completion list. -/
structure CompletionItem where
  candidate : Candidate
  sortText : String
  deriving DecidableEq, Repr

/-- A number in decimal, with zeros in front of it up to four digits. -/
def fourDigits (n : Nat) : String :=
  let digits := (toString n).toList
  String.ofList (List.replicate (4 - digits.length) '0' ++ digits)

/-- The candidates in their order, numbered from zero. -/
def ranked (cs : List Candidate) : List CompletionItem :=
  ((cs.mergeSort Candidate.precedes).zipIdx).map fun (c, n) => ⟨c, fourDigits n⟩

/-- The completion list at an offset. -/
def completionAt (a : Analysis) (functions : Registry) (offset : Nat) : List CompletionItem :=
  match linePrefix? a offset with
  | none => []
  | some before => ranked (candidates a functions before)

/-! ## Written for clients -/

/-- Marked-up text. -/
def markdownJson (text : String) : Json :=
  .obj [("kind", .str "markdown"), ("value", .str text)]

def Documentation.toJson : Documentation → Json
  | markdown text => markdownJson text
  | plain text => .str text

/-- The number of a candidate's kind in messages: a method or a function. -/
def Candidate.kindNumber (c : Candidate) : Nat :=
  if c.rank = .function then 3 else 2

def CompletionItem.toJson (i : CompletionItem) : Json :=
  .obj <|
    [("label", .str i.candidate.label), ("kind", .ofNat i.candidate.kindNumber), ("detail", .str i.candidate.detail)] ++
    (match i.candidate.documentation with
      | some d => [("documentation", d.toJson)]
      | none => []) ++
    [("sortText", .str i.sortText)]

end LgLang.Editor
