import LgLang.Syntax.Bullet
import LgLang.Syntax.Keyword
import LgLang.Syntax.Scan

/-!
# Bodies made of bullets

Bullets without keywords make a text body. A body may instead be one conditional block, IF with its ELSEIF and ELSE
branches, or one switch block, SWITCH with its cases and a DEFAULT. The first bullet decides which of the three it is;
keywords that do not fit the block are reported (`Misplacement`), and some of them open a branch all the same, so that
what stands below them is read.
-/

namespace LgLang.Syntax

/-- A body as far as its bullets have been read. -/
inductive Draft where
  | undecided
  | text (lines : List TextLine)
  | conditional (branches : List Branch)
  | switch (body : SwitchBody)
  deriving DecidableEq, Repr

/-- Why a keyword cannot stand where it does. -/
inductive Misplacement where
  | withoutIf (k : Keyword)
  | withoutSwitch (k : Keyword)
  | afterText (k : Keyword)
  | secondIf
  | afterElse (k : Keyword)
  | inConditional (k : Keyword)
  | secondSwitch
  | caseAfterDefault
  | secondDefault
  | defaultWithoutCase
  | inSwitch (k : Keyword)
  deriving DecidableEq, Repr

def Misplacement.message : Misplacement → String
  | withoutIf k => s!"{k.label} without a preceding IF"
  | withoutSwitch k => s!"{k.label} without a preceding SWITCH"
  | afterText k => s!"{k.label} cannot follow plain text lines in the same template"
  | secondIf => "a template holds a single IF block"
  | afterElse k => s!"{k.label} after ELSE"
  | inConditional k => s!"{k.label} cannot appear inside a conditional block"
  | secondSwitch => "a template holds a single SWITCH block"
  | caseAfterDefault => "CASE after DEFAULT"
  | secondDefault => "duplicate DEFAULT"
  | defaultWithoutCase => "DEFAULT without a preceding CASE"
  | inSwitch k => s!"{k.label} cannot appear inside a switch block"

/-- The keyword that opens branches of a kind. -/
def BranchKind.keyword : BranchKind → Keyword
  | .when => .when
  | .elseWhen => .elseWhen
  | .otherwise => .otherwise

/-- The list with its last item changed. -/
def mapLast (f : α → α) : List α → List α
  | [] => []
  | [a] => [f a]
  | a :: b :: as => a :: mapLast f (b :: as)

namespace Draft

/-- Why a keyword cannot stand behind the bullets so far, if it cannot. -/
def misplacement? (d : Draft) (k : Keyword) : Option Misplacement :=
  match d, k with
  | undecided, .when | undecided, .switch => none
  | undecided, .elseWhen | undecided, .otherwise => some (.withoutIf k)
  | undecided, .case | undecided, .fallback => some (.withoutSwitch k)
  | text _, _ => some (.afterText k)
  | conditional _, .when => some .secondIf
  | conditional bs, .elseWhen | conditional bs, .otherwise =>
    if bs.any (·.kind == .otherwise) then some (.afterElse k) else none
  | conditional _, _ => some (.inConditional k)
  | switch _, .switch => some .secondSwitch
  | switch b, .case => if b.fallback.isSome then some .caseAfterDefault else none
  | switch b, .fallback =>
    if b.fallback.isSome then some .secondDefault
    else if b.cases.isEmpty then some .defaultWithoutCase
    else none
  | switch _, _ => some (.inSwitch k)

/-- Whether a misplaced keyword opens a branch all the same. -/
def admitsMisplaced (d : Draft) (k : Keyword) : Bool :=
  match d, k with
  | undecided, _ => true
  | switch b, .fallback => b.fallback.isNone
  | _, _ => false

/-- The body with a branch of a conditional block added, if it can have one. -/
def addBranch (d : Draft) (kind : BranchKind) (condition : Option Segment) (span : Span) : Draft :=
  let branch : Branch := ⟨kind, condition, [], span⟩
  match d with
  | undecided => conditional [branch]
  | conditional bs => conditional (bs ++ [branch])
  | d => d

/-- The body with its switch block changed, if it has one or has nothing yet. -/
def updateSwitch (d : Draft) (f : SwitchBody → SwitchBody) : Draft :=
  match d with
  | undecided => switch (f ⟨none, [], none⟩)
  | switch b => switch (f b)
  | d => d

/-- The body behind a keyword and its expression. -/
def addKeyword (d : Draft) (k : Keyword) (expression : Option Segment) (span : Span) : Draft :=
  match k with
  | .when => d.addBranch .when expression span
  | .elseWhen => d.addBranch .elseWhen expression span
  | .otherwise => d.addBranch .otherwise expression span
  | .switch => d.updateSwitch fun b => { b with subject := expression }
  | .case => d.updateSwitch fun b => { b with cases := b.cases ++ [⟨expression, [], span⟩] }
  | .fallback => d.updateSwitch fun b => { b with fallback := some ⟨[], span⟩ }

/-- Adds a text to a switch block: to its DEFAULT, else to its last case; before any case there is no place for it. -/
def addToSwitch? (b : SwitchBody) (line : TextLine) : Option SwitchBody :=
  match b.fallback with
  | some d => some { b with fallback := some ⟨d.body ++ [line], d.span.cover line.span⟩ }
  | none =>
    if b.cases.isEmpty then none
    else
      some { b with
        cases := mapLast (fun c => { c with body := c.body ++ [line], span := c.span.cover line.span }) b.cases }

/-- The body behind a bullet without keyword, and a finding if there is no place for it. -/
def addText (d : Draft) (line : TextLine) : Draft × List Diagnostic :=
  match d with
  | undecided => (text [line], [])
  | text ls => (text (ls ++ [line]), [])
  | conditional bs =>
    (conditional (mapLast (fun b => { b with body := b.body ++ [line], span := b.span.cover line.span }) bs), [])
  | switch b =>
    match addToSwitch? b line with
    | some b => (switch b, [])
    | none =>
      (d, [.error .misplacedKeyword line.span "text inside a switch block must follow a CASE or DEFAULT"])

end Draft

/-- The expression that the bullet of a keyword carries, and the findings about it: keywords without an expression
have nothing but blanks behind their colon, and the others have at least one segment. -/
def branchExpression (k : Keyword) (start : Nat) (rest : List Char) (span : Span) :
    Option Segment × List Diagnostic :=
  let scanned := textDiagnostics start rest
  if k.takesExpression then
    match (tokensFrom start rest).filterMap Token.segment? with
    | segment :: _ => (some segment, scanned)
    | [] =>
      -- An expression that is not closed is there all the same.
      if scanned.isEmpty then
        (none, [.error .invalidCondition span
          (k.label ++ " requires an expression written as $\x7b...\x7d")])
      else (none, scanned)
  else if Text.allBlank rest then (none, scanned)
  else (none, scanned ++ [.error .invalidCondition span s!"{k.label} does not take an expression"])

/-- The body behind one more group of lines, and the findings about that group. -/
def Draft.add (d : Draft) : BodyItem → Draft × List Diagnostic
  | .stray span => (d, [.error .unexpectedBodyLine span "body lines must start with '-'"])
  | .bullet start content =>
    let span := Span.ofSize start (Text.byteSize content)
    match Keyword.detect? content with
    | none =>
      let (d, findings) := d.addText (.ofText start content)
      (d, textDiagnostics start content ++ findings)
    | some (k, size, rest) =>
      let misplaced := d.misplacement? k
      let reports := (misplaced.map fun m => Diagnostic.error .misplacedKeyword span m.message).toList
      -- A keyword that opens no branch is dropped with its expression.
      if misplaced.isSome && !d.admitsMisplaced k then (d, reports)
      else
        let (expression, findings) := branchExpression k (start + size) rest span
        (d.addKeyword k expression span, reports ++ findings)

/-- The body behind the groups of lines, and the findings about them. -/
def Draft.addAll (d : Draft) : List BodyItem → Draft × List Diagnostic
  | [] => (d, [])
  | item :: items =>
    let (next, findings) := d.add item
    let (final, more) := next.addAll items
    (final, findings ++ more)

/-- The finding about a branch with nothing below it. -/
def emptyBranch (span : Span) (k : Keyword) : Diagnostic :=
  .warning .emptyBranch span s!"{k.label} branch has no body lines"

/-- The finished body. -/
def Draft.body : Draft → Body
  | .undecided => .text []
  | .text ls => .text ls
  | .conditional bs => .conditional bs
  | .switch b => .switch b

/-- The findings about empty branches. -/
def Draft.emptyBranches : Draft → List Diagnostic
  | .conditional bs => (bs.filter (·.body.isEmpty)).map fun b => emptyBranch b.span b.kind.keyword
  | .switch b =>
    (b.cases.filter (·.body.isEmpty)).map (fun c => emptyBranch c.span .case) ++
      ((b.fallback.filter (·.body.isEmpty)).map fun d => emptyBranch d.span .fallback).toList
  | _ => []

/-- The body that bullets make, and the findings about it. -/
def bulletBody (items : List BodyItem) : Body × List Diagnostic :=
  let (final, findings) := Draft.undecided.addAll items
  (final.body, findings ++ final.emptyBranches)

end LgLang.Syntax
