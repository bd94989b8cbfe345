import LgLang.Text.Line
import LgLang.Span

/-!
# Positions in an editor

Editors speak of a line and a column counted in UTF-16 units. `position` converts a byte offset to such a position:
offsets past the end count as the end, and an offset inside a character as the start of it. `offset?` converts back:
a column past the visible end of its line means that end, and a line past the last one has no offset, except that
column zero of the line right after the last is the end of the text.
-/

namespace LgLang

/-- A zero-based line and a column in UTF-16 units. -/
structure Position where
  line : Nat
  character : Nat
  deriving DecidableEq, Repr, Inhabited

namespace Position

/-- Positions are compared by line, then by column. -/
instance : Ord Position where
  compare p q := (compare p.line q.line).then (compare p.character q.character)

/-- The position after a character that stands at `p`. -/
def advance (p : Position) (c : Char) : Position :=
  if c = '\n' then ⟨p.line + 1, 0⟩ else ⟨p.line, p.character + Text.charUnits16 c⟩

end Position

namespace Text

/-- The position `n` bytes into `cs`, which itself begins at `p`. -/
def positionFrom (p : Position) : List Char → Nat → Position
  | [], _ => p
  | c :: cs, n => if c.utf8Size ≤ n then positionFrom (p.advance c) cs (n - c.utf8Size) else p

/-- The position of a byte offset. -/
def position (cs : List Char) (offset : Nat) : Position :=
  positionFrom ⟨0, 0⟩ cs offset

/-- The number of bytes before the first character boundary at which at least `column` UTF-16 units have passed, or
the size of the whole line when it has fewer. -/
def columnOffset : List Char → Nat → Nat
  | [], _ => 0
  | c :: cs, column => if column = 0 then 0 else c.utf8Size + columnOffset cs (column - charUnits16 c)

/-- The byte offset of a position, if the text has its line. -/
def offset? (cs : List Char) (p : Position) : Option Nat :=
  let ls := lines cs
  match ls[p.line]? with
  | some l => some (l.start + columnOffset l.text p.character)
  | none => if p.line = ls.length ∧ p.character = 0 then some (byteSize cs) else none

/-- The positions of both ends of a span. -/
def range (cs : List Char) (s : Span) : Position × Position :=
  (position cs s.start, position cs s.stop)

theorem positionFrom_byteSize_append (p : Position) (xs ys : List Char) :
    positionFrom p (xs ++ ys) (byteSize xs) = xs.foldl Position.advance p := by
  induction xs generalizing p with
  | nil =>
    cases ys with
    | nil => rfl
    | cons y ys =>
      have := y.utf8Size_pos
      rw [List.nil_append, positionFrom, if_neg (by simp only [byteSize_nil]; omega)]
      rfl
  | cons x xs ih =>
    rw [List.cons_append, positionFrom, if_pos (by simp), byteSize_cons, Nat.add_sub_cancel_left, ih]
    rfl

/-- At a character boundary, the position is what the characters before it add up to. -/
theorem position_byteSize_append (xs ys : List Char) :
    position (xs ++ ys) (byteSize xs) = xs.foldl Position.advance ⟨0, 0⟩ :=
  positionFrom_byteSize_append _ _ _

end Text

end LgLang
