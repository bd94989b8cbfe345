/-!
# YAML

The part of YAML that settings files are written in: block and flow mappings and sequences, plain and quoted scalars,
comments, and one document mark. Block structure is read from the indentation of lines. Scalars keep their text and
whether they were plain, since only plain scalars can be numbers or null.
-/

namespace LgLang

inductive Yaml where
  | scalar (plain : Bool) (text : String)
  | sequence (items : List Yaml)
  | mapping (entries : List (Yaml × Yaml))
  deriving Repr, Inhabited

namespace Yaml

/-- What stands where nothing is written. -/
def nothing : Yaml :=
  scalar true ""

/-- A line without its comment: its indentation and what follows. -/
structure Line where
  indent : Nat
  content : List Char
  deriving Repr

/-! ## Lines -/

def isGap (c : Char) : Bool :=
  c == ' ' || c == '\t'

def trimGaps (cs : List Char) : List Char :=
  ((cs.dropWhile isGap).reverse.dropWhile isGap).reverse

/-- A line up to its comment. A number sign begins a comment at the beginning of a line or behind a gap, and not in a
quoted scalar; a quote begins a scalar where a value can. -/
def withoutComment (before : Option Char) (quote : Option Char) : List Char → List Char
  | [] => []
  | c :: cs =>
    match quote with
    | some q =>
      if c == '\\' && q == '"' then
        match cs with
        | [] => [c]
        | d :: ds => c :: d :: withoutComment (some d) quote ds
      else c :: withoutComment (some c) (if c == q then none else quote) cs
    | none =>
      let fresh := match before with
        | none => true
        | some b => isGap b || ['[', '\x7b', ',', ':'].contains b
      if c == '#' && (before.isNone || before.any isGap) then []
      else c :: withoutComment (some c) (if (c == '"' || c == '\'') && fresh then some c else none) cs

/-- The lines of a text between line feeds, with carriage returns removed. -/
def rawLines (cs : List Char) : List (List Char) :=
  (cs.filter (· != '\r')).foldr
    (fun c lines => match lines with
      | [] => [[c]]
      | l :: ls => if c == '\n' then [] :: l :: ls else (c :: l) :: ls)
    [[]]

/-- A line with its indentation, unless nothing is on it. -/
def Line.ofRaw? (cs : List Char) : Option Line :=
  let cs := withoutComment none none cs
  let content := trimGaps cs
  if content.isEmpty then none else some ⟨(cs.takeWhile (· == ' ')).length, content⟩

def isDocumentStart (l : Line) : Bool :=
  l.indent == 0 && ['-', '-', '-'].isPrefixOf l.content && (l.content.drop 3).head?.all isGap

def isDocumentEnd (l : Line) : Bool :=
  l.indent == 0 && l.content == ['.', '.', '.']

/-- The lines of the only document of a text, or none if there are more documents. -/
def documentLines? (lines : List Line) : Option (List Line) :=
  let lines := match lines with
    | l :: ls =>
      if isDocumentStart l then
        -- The document may begin on the line of its marker.
        let rest := trimGaps (l.content.drop 3)
        if rest.isEmpty then ls else ⟨4, rest⟩ :: ls
      else l :: ls
    | [] => []
  let body := lines.takeWhile (!isDocumentEnd ·)
  let after := lines.dropWhile (!isDocumentEnd ·)
  if body.any isDocumentStart || after.length > 1 then none else some body

/-! ## Scalars -/

def hexValue? (c : Char) : Option Nat :=
  if '0' ≤ c && c ≤ '9' then some (c.toNat - 48)
  else if 'a' ≤ c && c ≤ 'f' then some (c.toNat - 87)
  else if 'A' ≤ c && c ≤ 'F' then some (c.toNat - 55)
  else none

/-- The character with the number that hexadecimal digits write. -/
def charOfHex? (digits : List Char) : Option Char := do
  let n ← digits.foldlM (fun n c => (hexValue? c).map (n * 16 + ·)) 0
  if n.isValidChar then some (Char.ofNat n) else none

/-- The character that an escape of one letter stands for. -/
def escape? : Char → Option Char
  | '0' => some '\x00'
  | 'a' => some '\x07'
  | 'b' => some '\x08'
  | 't' | '\t' => some '\t'
  | 'n' => some '\n'
  | 'v' => some '\x0b'
  | 'f' => some '\x0c'
  | 'r' => some '\r'
  | 'e' => some '\x1b'
  | ' ' => some ' '
  | '"' => some '"'
  | '/' => some '/'
  | '\\' => some '\\'
  | 'N' => some '\u0085'
  | '_' => some '\u00a0'
  | 'L' => some '\u2028'
  | 'P' => some '\u2029'
  | _ => none

/-- Reads a double-quoted scalar behind its opening quote. -/
def doubleQuoted (acc : List Char) : List Char → Option (List Char × List Char)
  | [] => none
  | '"' :: cs => some (acc.reverse, cs)
  | '\\' :: 'x' :: a :: b :: cs => (charOfHex? [a, b]).bind fun c => doubleQuoted (c :: acc) cs
  | '\\' :: 'u' :: a :: b :: c :: d :: cs => (charOfHex? [a, b, c, d]).bind fun c => doubleQuoted (c :: acc) cs
  | '\\' :: c :: cs => (escape? c).bind fun c => doubleQuoted (c :: acc) cs
  | c :: cs => doubleQuoted (c :: acc) cs

/-- Reads a single-quoted scalar behind its opening quote; a quote in it is written twice. -/
def singleQuoted (acc : List Char) : List Char → Option (List Char × List Char)
  | [] => none
  | '\'' :: '\'' :: cs => singleQuoted ('\'' :: acc) cs
  | '\'' :: cs => some (acc.reverse, cs)
  | c :: cs => singleQuoted (c :: acc) cs

/-- Reads a quoted scalar if the text begins with a quote. -/
def quoted (cs : List Char) : Option (List Char × List Char) :=
  match cs with
  | '"' :: cs => doubleQuoted [] cs
  | '\'' :: cs => singleQuoted [] cs
  | _ => none

def isQuote (c : Char) : Bool :=
  c == '"' || c == '\''

def isFlowMark (c : Char) : Bool :=
  c == ',' || c == '[' || c == ']' || c == '\x7b' || c == '\x7d'

/-- Whether a plain scalar can begin with this text. -/
def startsPlain (inFlow : Bool) (cs : List Char) : Bool :=
  match cs with
  | [] => false
  | c :: rest =>
    if c == '-' || c == '?' || c == ':' then
      match rest with
      | [] => false
      | d :: _ => !isGap d && !(inFlow && isFlowMark d)
    else !isFlowMark c && !(['#', '&', '*', '!', '|', '>', '%', '@', '\x60'].contains c)

/-- The characters of a plain scalar, up to a colon before a gap or the end, and in a flow collection up to a mark. -/
def plainPrefix (inFlow : Bool) : List Char → List Char × List Char
  | [] => ([], [])
  | c :: cs =>
    let ends :=
      (c == ':' && (match cs with
        | [] => true
        | d :: _ => isGap d || (inFlow && isFlowMark d))) ||
      (inFlow && isFlowMark c)
    if ends then ([], c :: cs)
    else
      let (front, rest) := plainPrefix inFlow cs
      (c :: front, rest)

/-- Reads a scalar and gives what follows it. -/
def readScalar (inFlow : Bool) (cs : List Char) : Option (Yaml × List Char) :=
  match cs with
  | [] => none
  | c :: _ =>
    if isQuote c then (quoted cs).map fun (text, rest) => (scalar false (String.ofList text), rest)
    else if startsPlain inFlow cs then
      let (text, rest) := plainPrefix inFlow cs
      some (scalar true (String.ofList (trimGaps text)), rest)
    else none

/-! ## Flow collections -/

mutual

/-- Reads a value inside a flow collection. -/
def readFlow : (fuel : Nat) → List Char → Option (Yaml × List Char)
  | 0, _ => none
  | fuel + 1, cs =>
    match cs.dropWhile isGap with
    | '[' :: cs => (readFlowItems fuel [] cs).map fun (items, rest) => (sequence items, rest)
    | '\x7b' :: cs => (readFlowEntries fuel [] cs).map fun (entries, rest) => (mapping entries, rest)
    | cs => readScalar true cs

/-- Reads the items of a flow sequence and its closing bracket. -/
def readFlowItems : (fuel : Nat) → List Yaml → List Char → Option (List Yaml × List Char)
  | 0, _, _ => none
  | fuel + 1, acc, cs =>
    match cs.dropWhile isGap with
    | ']' :: cs => some (acc.reverse, cs)
    | cs =>
      match readFlow fuel cs with
      | none => none
      | some (item, rest) =>
        match rest.dropWhile isGap with
        | ',' :: rest => readFlowItems fuel (item :: acc) rest
        | ']' :: rest => some ((item :: acc).reverse, rest)
        | _ => none

/-- Reads the entries of a flow mapping and its closing bracket. -/
def readFlowEntries : (fuel : Nat) → List (Yaml × Yaml) → List Char → Option (List (Yaml × Yaml) × List Char)
  | 0, _, _ => none
  | fuel + 1, acc, cs =>
    match cs.dropWhile isGap with
    | '\x7d' :: cs => some (acc.reverse, cs)
    | cs =>
      match readFlow fuel cs with
      | none => none
      | some (key, rest) =>
        match rest.dropWhile isGap with
        | ',' :: rest => readFlowEntries fuel ((key, nothing) :: acc) rest
        | '\x7d' :: rest => some (((key, nothing) :: acc).reverse, rest)
        | ':' :: rest =>
          match rest.dropWhile isGap with
          | ',' :: rest => readFlowEntries fuel ((key, nothing) :: acc) rest
          | '\x7d' :: rest => some (((key, nothing) :: acc).reverse, rest)
          | rest =>
            match readFlow fuel rest with
            | none => none
            | some (value, rest) =>
              match rest.dropWhile isGap with
              | ',' :: rest => readFlowEntries fuel ((key, value) :: acc) rest
              | '\x7d' :: rest => some (((key, value) :: acc).reverse, rest)
              | _ => none
        | _ => none

end

/-! ## Block structure -/

/-- The key that a line begins with, and what stands behind its colon. -/
def splitKey? (content : List Char) : Option (Yaml × List Char) :=
  match readScalar false content with
  | some (key, rest) =>
    match rest.dropWhile isGap with
    | ':' :: after => if after.head?.all isGap then some (key, trimGaps after) else none
    | _ => none
  | none => none

/-- What stands behind the hyphen of an item, with the distance of its beginning from the hyphen. -/
def splitItem? (content : List Char) : Option (Nat × List Char) :=
  match content with
  | ['-'] => some (2, [])
  | '-' :: c :: cs =>
    if isGap c then some (2 + (cs.takeWhile isGap).length, trimGaps cs) else none
  | _ => none

/-- A value written on one line, behind which lines that belong to it have been joined. -/
def inlineValue? (content : List Char) : Option Yaml :=
  match content with
  | [] => some nothing
  | c :: _ =>
    let read :=
      if c == '[' || c == '\x7b' then readFlow (content.length + 1) content else readScalar false content
    read.bind fun (value, rest) => if rest.all isGap then some value else none

/-- The text of a value that begins on a line and goes on with the more deeply indented lines below it. -/
def joinDeeper (indent : Nat) (content : List Char) (lines : List Line) : List Char × List Line :=
  let deeper := lines.takeWhile (·.indent > indent)
  (deeper.foldl (fun text l => text ++ ' ' :: l.content) content, lines.dropWhile (·.indent > indent))

mutual

/-- Reads the value whose lines are indented at least by `indent`, if there is one. -/
def readBlock : (fuel : Nat) → (indent : Nat) → List Line → Option (Yaml × List Line)
  | 0, _, _ => none
  | _ + 1, _, [] => some (nothing, [])
  | fuel + 1, indent, l :: ls =>
    if l.indent < indent then some (nothing, l :: ls)
    else if (splitItem? l.content).isSome then
      (readItems fuel l.indent [] (l :: ls)).map fun (items, rest) => (sequence items, rest)
    else if (splitKey? l.content).isSome then
      (readEntries fuel l.indent [] (l :: ls)).map fun (entries, rest) => (mapping entries, rest)
    else
      let (text, rest) := joinDeeper (l.indent - 1) l.content ls
      (inlineValue? text).map fun value => (value, rest)

/-- Reads the items of a sequence at an indentation. -/
def readItems : (fuel : Nat) → (indent : Nat) → List Yaml → List Line → Option (List Yaml × List Line)
  | 0, _, _, _ => none
  | _ + 1, _, acc, [] => some (acc.reverse, [])
  | fuel + 1, indent, acc, l :: ls =>
    if l.indent < indent then some (acc.reverse, l :: ls)
    else if l.indent > indent then none
    else
      match splitItem? l.content with
      | none => some (acc.reverse, l :: ls)
      | some (offset, content) =>
        -- What stands behind the hyphen is read like a line of its own.
        let lines := if content.isEmpty then ls else ⟨indent + offset, content⟩ :: ls
        match readBlock fuel (indent + 1) lines with
        | none => none
        | some (item, rest) => readItems fuel indent (item :: acc) rest

/-- Reads the entries of a mapping at an indentation. -/
def readEntries : (fuel : Nat) → (indent : Nat) → List (Yaml × Yaml) → List Line →
    Option (List (Yaml × Yaml) × List Line)
  | 0, _, _, _ => none
  | _ + 1, _, acc, [] => some (acc.reverse, [])
  | fuel + 1, indent, acc, l :: ls =>
    if l.indent < indent then some (acc.reverse, l :: ls)
    else if l.indent > indent then none
    else
      match splitKey? l.content with
      | none => none
      | some (key, content) =>
        if content.isEmpty then
          -- The items of a sequence may stand below their key without being indented.
          let startsItems := ls.head?.any fun next => next.indent == indent && (splitItem? next.content).isSome
          match readBlock fuel (if startsItems then indent else indent + 1) ls with
          | none => none
          | some (value, rest) => readEntries fuel indent ((key, value) :: acc) rest
        else
          let (text, rest) := joinDeeper indent content ls
          match inlineValue? text with
          | none => none
          | some value => readEntries fuel indent ((key, value) :: acc) rest

end

/-- The value that a text of one document writes. -/
def ofText? (text : String) : Option Yaml :=
  let raw := rawLines text.toList
  match documentLines? (raw.filterMap Line.ofRaw?) with
  | none => none
  | some lines =>
    -- At least every second step uses up a hyphen or a key.
    match readBlock (2 * text.length + 2) 0 lines with
    | some (value, []) => some value
    | _ => none

end Yaml

end LgLang
