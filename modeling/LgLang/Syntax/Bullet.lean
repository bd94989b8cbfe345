import LgLang.Syntax.LineKind
import LgLang.Diagnostic

/-!
# Bullets of a body

The lines of a body are grouped: a line that starts with a hyphen opens a bullet, and lines of other text behind it
continue it until a blank line or a comment. Text that continues no bullet is stray. The text of a bullet is what
stands in the file from behind its hyphen to the end of its last line, line ends included.
-/

namespace LgLang.Syntax

/-- A group of body lines. -/
inductive BodyItem where
  /-- The text behind the hyphen and its offset. -/
  | bullet (start : Nat) (text : List Char)
  | stray (span : Span)
  deriving DecidableEq, Repr

/-- The offset just past the group. -/
def BodyItem.stop : BodyItem → Nat
  | bullet start text => start + Text.byteSize text
  | stray span => span.stop

/-- A group that following lines may continue. The text of a bullet is kept with the blanks at its end. -/
inductive OpenItem where
  | bullet (start : Nat) (text : List Char)
  | stray (start stop : Nat)
  deriving DecidableEq, Repr

namespace OpenItem

/-- The bullet that a line opens. -/
def ofBullet (l : Text.Line) : OpenItem :=
  let tail := (Text.trimStart l.raw).drop 1
  if Text.allBlank tail then bullet (l.contentStart + 1) tail
  else
    let (blanks, text) := splitBlanks tail
    bullet (l.contentStart + 1 + Text.byteSize blanks) text

def ofStray (l : Text.Line) : OpenItem :=
  stray l.contentStart l.contentStop

/-- The group with one more line. -/
def extend (l : Text.Line) : OpenItem → OpenItem
  | bullet start text => bullet start (text ++ '\n' :: l.raw)
  | stray start _ => stray start l.contentStop

/-- The group without the blanks at its end. -/
def close : OpenItem → BodyItem
  | bullet start text => .bullet start (Text.trimEnd text)
  | stray start stop => .stray (.between start stop)

end OpenItem

/-- The groups of the lines that follow an open group, that group included. -/
def groupFrom (current : Option OpenItem) : List Text.Line → List BodyItem
  | [] => (current.map OpenItem.close).toList
  | l :: ls =>
    match kindOf l with
    | .blank | .comment => (current.map OpenItem.close).toList ++ groupFrom none ls
    | .bullet => (current.map OpenItem.close).toList ++ groupFrom (some (.ofBullet l)) ls
    | _ =>
      match current with
      | some item => groupFrom (some (item.extend l)) ls
      | none => groupFrom (some (.ofStray l)) ls

/-- The groups of the lines of a body. -/
def groupLines (ls : List Text.Line) : List BodyItem :=
  groupFrom none ls

end LgLang.Syntax
