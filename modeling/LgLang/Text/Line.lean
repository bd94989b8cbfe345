import LgLang.Text.Utf8
import LgLang.Text.Blank

/-!
# Lines

A text is cut into lines at its line feeds. One carriage return at the end of a line belongs to the terminator and
is not visible. The lines of a text put together again with line feeds are the text (`joinLines_linesFrom`).
-/

namespace LgLang.Text

/-- A physical line: the offset of its first byte and its characters up to the line feed or the end of the text. -/
structure Line where
  start : Nat
  raw : List Char
  deriving DecidableEq, Repr, Inhabited

/-- A line without the carriage return that may precede its line feed. -/
def stripReturn (cs : List Char) : List Char :=
  match cs.getLast? with
  | some '\r' => cs.dropLast
  | _ => cs

theorem length_dropWhile_le (p : Char → Bool) (cs : List Char) : (cs.dropWhile p).length ≤ cs.length :=
  (List.dropWhile_sublist p).length_le

/-- The lines of a text whose first byte has offset `start`. -/
def linesFrom (start : Nat) (cs : List Char) : List Line :=
  let raw := cs.takeWhile (· != '\n')
  match h : cs.dropWhile (· != '\n') with
  | [] => [⟨start, raw⟩]
  | _ :: rest => ⟨start, raw⟩ :: linesFrom (start + byteSize raw + 1) rest
termination_by cs.length
decreasing_by
  have := length_dropWhile_le (· != '\n') cs
  rw [h, List.length_cons] at this
  omega

/-- The lines of a text; there is one more than there are line feeds. -/
def lines (cs : List Char) : List Line :=
  linesFrom 0 cs

namespace Line

/-- The visible characters of the line. -/
def text (l : Line) : List Char :=
  stripReturn l.raw

/-- The offset just past the visible characters. -/
def stop (l : Line) : Nat :=
  l.start + byteSize l.text

/-- The visible characters without surrounding blanks. -/
def content (l : Line) : List Char :=
  trim l.text

/-- The offset of the first character of the content. -/
def contentStart (l : Line) : Nat :=
  l.start + byteSize (l.text.takeWhile isBlank)

/-- The offset just past the content. -/
def contentStop (l : Line) : Nat :=
  l.contentStart + byteSize l.content

end Line

/-- Raw lines written one after another with a line feed between them. -/
def joinLines : List (List Char) → List Char
  | [] => []
  | [l] => l
  | l :: ls => l ++ '\n' :: joinLines ls

theorem linesFrom_ne_nil (start : Nat) (cs : List Char) : linesFrom start cs ≠ [] := by
  rw [linesFrom]; split <;> simp

/-- The lines of a text, joined again, are the text. -/
theorem joinLines_linesFrom (start : Nat) (cs : List Char) :
    joinLines ((linesFrom start cs).map Line.raw) = cs := by
  fun_induction linesFrom start cs with
  | case1 start cs raw h =>
    have := List.takeWhile_append_dropWhile (p := (· != '\n')) (l := cs)
    rw [h, List.append_nil] at this
    simpa [joinLines, raw] using this
  | case2 start cs raw c rest h ih =>
    have hsplit := List.takeWhile_append_dropWhile (p := (· != '\n')) (l := cs)
    rw [h] at hsplit
    have hc : c = '\n' := by
      have := List.head?_dropWhile_not (· != '\n') cs
      rw [h] at this
      simpa using this
    obtain ⟨l, ls, hl⟩ : ∃ l ls, linesFrom (start + byteSize raw + 1) rest = l :: ls :=
      List.exists_cons_of_ne_nil (linesFrom_ne_nil _ _)
    rw [hl] at ih
    rw [List.map_cons, hl, List.map_cons, joinLines, ← List.map_cons, ih, ← hc]
    · exact hsplit
    · simp

end LgLang.Text
