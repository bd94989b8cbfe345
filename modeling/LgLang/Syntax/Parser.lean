import LgLang.Syntax.BulletBody
import LgLang.Syntax.StructuredBody

/-!
# Reading template files

`parse` never fails. A line that fits nowhere becomes a finding, and reading goes on at the next header or import, so
that one broken template leaves the rest of the file intact.
-/

namespace LgLang.Syntax

/-- A file and the findings about its text, in the order in which they were made. -/
structure Parsed where
  file : File
  diagnostics : List Diagnostic
  deriving DecidableEq, Repr

namespace Parsed

def empty : Parsed :=
  ⟨⟨[], []⟩, []⟩

/-- What was read, behind findings made earlier. -/
def after (findings : List Diagnostic) (p : Parsed) : Parsed :=
  { p with diagnostics := findings ++ p.diagnostics }

/-- What was read, behind an import. -/
def consImport (i : Import) (p : Parsed) : Parsed :=
  { p with file := { p.file with imports := i :: p.file.imports } }

/-- What was read, behind a template. -/
def consTemplate (t : Template) (p : Parsed) : Parsed :=
  { p with file := { p.file with templates := t :: p.file.templates } }

end Parsed

/-! ## Imports -/

/-- The alias behind a link: `as` and an identifier between blanks. Nothing else may follow a link. -/
def qualifier? (after : List Char) : Option (Option String) :=
  if Text.allBlank after then some none
  else
    let (blanks, rest) := splitBlanks after
    match blanks, rest with
    | _ :: _, 'a' :: 's' :: rest =>
      let (gap, rest) := splitBlanks rest
      match gap, splitName? isIdentifierRest rest with
      | _ :: _, some (name, after) => if Text.allBlank after then some (some (String.ofList name)) else none
      | _, _ => none
    | _, _ => none

/-- The import of a line, or the finding about it. -/
def readImport (l : Text.Line) (inHeader : Bool) : Except Diagnostic Import :=
  let span := contentSpan l
  match splitLink? l.content with
  | none => .error (malformed span)
  | some link =>
    match qualifier? link.after with
    | none => .error (malformed span)
    | some qualifier =>
      let target := Text.trim link.target
      if target.isEmpty then .error (.error .invalidImport span "import has an empty target path")
      else
        let start := l.contentStart + Text.byteSize link.label + 3 + Text.byteSize (splitBlanks link.target).1
        .ok { target := String.ofList target, qualifier, span, inHeader
              targetSpan := .ofSize start (Text.byteSize target) }
where
  /-- The finding about a line that only begins like an import. -/
  malformed (span : Span) : Diagnostic :=
    .error .invalidImport span "malformed import; expected '[label](path)' optionally followed by 'as alias'"

/-- The finding about an import below a template. -/
def lateImport (i : Import) : List Diagnostic :=
  if i.inHeader then [] else [.warning .importNotInHeader i.span "imports should precede the first template"]

/-! ## Headers -/

/-- `# Name(parameters)` taken apart, with distances from the beginning of the line. -/
structure HeaderParts where
  name : List Char
  namePlace : Nat
  /-- The text between the parentheses. -/
  group : List Char
  groupPlace : Nat
  deriving DecidableEq, Repr

/-- Takes a header apart. -/
def splitHeader? : List Char → Option HeaderParts
  | '#' :: cs =>
    let (blanks, rest) := splitBlanks cs
    match splitName? isNameRest rest with
    | none => none
    | some (name, after) =>
      let namePlace := 1 + Text.byteSize blanks
      let (gap, after) := splitBlanks after
      let groupPlace := namePlace + Text.byteSize name + Text.byteSize gap + 1
      match after with
      | [] => some ⟨name, namePlace, [], groupPlace⟩
      | '(' :: rest =>
        match rest.dropWhile (fun c => c != '(' && c != ')') with
        | ')' :: after =>
          if Text.allBlank after then
            some ⟨name, namePlace, rest.takeWhile (fun c => c != '(' && c != ')'), groupPlace⟩
          else none
        | _ => none
      | _ => none
  | _ => none

/-- The pieces of a text between its commas, with their offsets, when the text begins at `start`. -/
def piecesFrom (start : Nat) (cs : List Char) : List (Nat × List Char) :=
  let piece := cs.takeWhile (· != ',')
  match _h : cs.dropWhile (· != ',') with
  | [] => [(start, piece)]
  | _ :: rest => (start, piece) :: piecesFrom (start + Text.byteSize piece + 1) rest
termination_by cs.length
decreasing_by
  have := Text.length_dropWhile_le (· != ',') cs
  rw [‹List.dropWhile _ cs = _›, List.length_cons] at this
  omega

/-- The parameter that a piece of a header holds, or what is wrong with it. -/
def readParameter (piece : Nat × List Char) : Except String Parameter :=
  let name := Text.trim piece.2
  if isIdentifier name then
    .ok ⟨String.ofList name,
      .ofSize (piece.1 + Text.byteSize (splitBlanks piece.2).1) (Text.byteSize name)⟩
  else if name.isEmpty then .error "empty parameter in template header"
  else .error ("invalid parameter name '" ++ String.ofList name ++ "'")

/-- What a header line declares. -/
structure Header where
  name : String
  nameSpan : Span
  parameters : List Parameter
  deriving DecidableEq, Repr

/-- The header of a line, or the finding about it. -/
def readHeader (l : Text.Line) : Except Diagnostic Header :=
  let invalid := fun message => Diagnostic.error .invalidTemplateHeader (contentSpan l) message
  match splitHeader? l.content with
  | none => .error (invalid "malformed template header; expected '# Name' or '# Name(param1, param2)'")
  | some parts =>
    let pieces :=
      if Text.allBlank parts.group then [] else piecesFrom (l.contentStart + parts.groupPlace) parts.group
    match pieces.mapM readParameter with
    | .error message => .error (invalid message)
    | .ok parameters =>
      .ok ⟨String.ofList parts.name, .ofSize (l.contentStart + parts.namePlace) (Text.byteSize parts.name),
        parameters⟩

/-! ## Templates -/

/-- The body that lines make, the offset just past it if there is anything in it, and the findings about it. -/
def readBody (ls : List Text.Line) : Body × Option Nat × List Diagnostic :=
  match ls.dropWhile isSilent with
  | [] => (.text [], none, [])
  | first :: rest =>
    if first.content.head? == some '[' then
      let (body, stop, findings) := structuredBody first rest
      (body, some stop, findings)
    else
      let items := groupLines ls
      let (body, findings) := bulletBody items
      (body, (items.map BodyItem.stop).max?, findings)

/-- Separates the comments at the end of the lines of a body: they document what comes next. -/
def splitTrailingComments (ls : List Text.Line) : List Text.Line × List Text.Line :=
  let isComment := fun l => kindOf l == .comment
  ((ls.reverse.dropWhile isComment).reverse, (ls.reverse.takeWhile isComment).reverse)

/-- The documentation that comment lines make. -/
def docOf (doc : List String) : Option String :=
  if doc.isEmpty then none else some ("\n".intercalate doc)

/-- The template with that header line, header and body lines, and the findings about its body. -/
def templateOf (l : Text.Line) (h : Header) (doc : List String) (bodyLines : List Text.Line) :
    Template × List Diagnostic :=
  let (body, stop, findings) := readBody bodyLines
  ({ name := h.name, nameSpan := h.nameSpan, parameters := h.parameters, body
     span := .between l.contentStart (stop.getD l.stop), doc := docOf doc }, findings)

/-! ## Files -/

/-- Reads the lines of a file. `seenTemplate` tells whether a template stands above them, and `doc` holds the comment
right above them. -/
def parseLines (seenTemplate : Bool) (doc : List String) (ls : List Text.Line) : Parsed :=
  match ls with
  | [] => .empty
  | l :: rest =>
    have : (rest.dropWhile (!isBoundary ·)).length ≤ rest.length :=
      (List.dropWhile_sublist _).length_le
    match kindOf l with
    -- A comment documents what stands right below it, so anything else forgets it.
    | .blank => parseLines seenTemplate [] rest
    | .comment => parseLines seenTemplate (doc ++ (commentText? l).toList) rest
    | .importLine =>
      match readImport l (!seenTemplate) with
      | .error finding => (parseLines seenTemplate [] rest).after [finding]
      | .ok i => ((parseLines seenTemplate [] rest).consImport i).after (lateImport i)
    | .header =>
      match readHeader l with
      -- Without a name there is no template: its lines are passed over.
      | .error finding => (parseLines seenTemplate [] (rest.dropWhile (!isBoundary ·))).after [finding]
      | .ok header =>
        -- The comments at the end of the body document the template below.
        let (bodyLines, comments) := splitTrailingComments (rest.takeWhile (!isBoundary ·))
        let (template, findings) := templateOf l header doc bodyLines
        ((parseLines true (comments.filterMap commentText?) (rest.dropWhile (!isBoundary ·))).consTemplate
          template).after findings
    | .bullet | .other =>
      (parseLines seenTemplate [] (rest.dropWhile (!isBoundary ·))).after
        [.error .unexpectedBodyLine (contentSpan l)
          "text outside of a template; expected a '# Name' header first"]
termination_by ls.length
decreasing_by all_goals simp_all only [List.length_cons]; omega

/-- Reads a template file. -/
def parse (text : String) : Parsed :=
  parseLines false [] (Text.lines text.toList)

end LgLang.Syntax
