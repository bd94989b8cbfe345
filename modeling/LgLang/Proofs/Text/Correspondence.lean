import LgLang.Proofs.Text.Position
import Mathlib.Data.List.Infix
import Mathlib.Data.Set.Basic
import Mathlib.Order.Bounds.Defs

/-!
# How offsets and positions correspond

Offsets and positions of a text determine each other as far as they can (`corresponds`). Every offset has the position
of the last place at or before it where the text can be cut (`position_floor`), and every such place is found again from
its position, but for the carriage return that may stand between it and the end of its line (`offset?_position`,
`offset?_behindReturn`). Every column of a line has the first place in the visible text of the line where so many units
have passed, or the end of that text (`offset?_columnPlaces`).
-/

namespace LgLang.Text

variable {cs xs ys : List Char} {n b column : Nat} {p : Position} {l : Line}

/-! ## The place that an offset counts as -/

/-- Before each offset the text can be cut so that no other cut comes between, and there it has its position. -/
theorem exists_floor (p : Position) (cs : List Char) (n : Nat) :
    ∃ xs ys, cs = xs ++ ys ∧ byteSize xs ≤ n ∧ (∀ c ∈ ys.head?, n < byteSize xs + c.utf8Size) ∧
      positionFrom p cs n = xs.foldl Position.advance p := by
  induction cs generalizing p n with
  | nil => exact ⟨[], [], rfl, Nat.zero_le _, (fun c hc => by cases hc), rfl⟩
  | cons c cs ih =>
    by_cases hc : c.utf8Size ≤ n
    · obtain ⟨xs, ys, rfl, hxs, hys, hposition⟩ := ih (p.advance c) (n - c.utf8Size)
      refine ⟨c :: xs, ys, rfl, ?_, ?_, ?_⟩
      · rw [byteSize_cons]
        omega
      · intro d hd
        have hnext := hys d hd
        rw [byteSize_cons]
        omega
      · rw [positionFrom, if_pos hc, hposition, List.foldl_cons]
    · refine ⟨[], c :: cs, rfl, Nat.zero_le _, ?_, ?_⟩
      · intro d hd
        obtain rfl := Option.some.inj hd
        rw [byteSize_nil]
        omega
      · rw [positionFrom, if_neg hc]
        rfl

/-- **An offset has the position of the last place at or before it where the text can be cut.** -/
theorem position_floor (cs : List Char) (n : Nat) :
    ∃ b, IsGreatest {b | isBoundary cs b = true ∧ b ≤ n} b ∧ position cs n = position cs b := by
  obtain ⟨xs, ys, rfl, hxs, hys, hposition⟩ := exists_floor ⟨0, 0⟩ cs n
  refine ⟨byteSize xs, ⟨⟨isBoundary_iff.2 ⟨xs, ys, rfl, rfl⟩, hxs⟩, ?_⟩, ?_⟩
  · rintro b ⟨hb, hle⟩
    obtain ⟨xs', ys', hsplit, rfl⟩ := isBoundary_iff.1 hb
    by_contra hlater
    obtain ⟨mid, rfl, rfl⟩ := exists_between_of_byteSize_le hsplit (Nat.le_of_not_le hlater)
    cases mid with
    | nil => simp at hlater
    | cons c mid =>
      have hnext := hys c rfl
      rw [byteSize_append, byteSize_cons] at hle
      omega
  · rw [position_byteSize_append]
    exact hposition

/-- An offset past the end counts as the end. -/
theorem position_clamp (h : byteSize cs ≤ n) : position cs n = position cs (byteSize cs) := by
  obtain ⟨b, ⟨⟨hb, -⟩, hgreatest⟩, hposition⟩ := position_floor cs n
  have hend : isBoundary cs (byteSize cs) = true := isBoundary_iff.2 ⟨cs, [], (List.append_nil cs).symm, rfl⟩
  obtain ⟨xs, ys, rfl, rfl⟩ := isBoundary_iff.1 hb
  have hle : byteSize (xs ++ ys) ≤ byteSize xs := hgreatest ⟨hend, h⟩
  have hsame : byteSize xs = byteSize (xs ++ ys) := by
    rw [byteSize_append] at hle ⊢
    omega
  rw [hposition, hsame]

/-! ## Behind a carriage return -/

/-- A column past the end of a line counts as its end. -/
theorem columnOffset_of_units16_le (h : units16 cs ≤ column) : columnOffset cs column = byteSize cs := by
  induction cs generalizing column with
  | nil => rfl
  | cons c cs ih =>
    have hpos := charUnits16_pos c
    rw [units16_cons] at h
    rw [columnOffset, if_neg (by omega), ih (by omega), byteSize_cons]

theorem stripReturn_concat (cs : List Char) : stripReturn (cs ++ ['\r']) = cs := by
  unfold stripReturn
  split
  · exact List.dropLast_concat
  · next hlast => exact absurd List.getLast?_concat hlast

/-- Whole lines do not end in a carriage return, so that one at the end stands in the line begun behind them. -/
theorem getLast?_unlines_append {ls : List (List Char)} {tail : List Char} {c : Char} (hc : c ≠ '\n')
    (h : (unlines ls ++ tail).getLast? = some c) : tail.getLast? = some c := by
  cases tail with
  | cons d tail => rwa [List.getLast?_append_of_ne_nil _ (List.cons_ne_nil d tail)] at h
  | nil =>
    rw [List.append_nil] at h
    cases ls using List.reverseRecOn with
    | nil => cases h
    | append_singleton ls l =>
      rw [unlines, List.flatMap_append, List.flatMap_singleton, ← List.append_assoc, List.getLast?_concat] at h
      exact absurd (Option.some.inj h).symm hc

/-- **Behind a carriage return that ends a line, the place before it is found.** -/
theorem offset?_behindReturn (h : isBoundary cs n = true) (hreturn : BehindReturn cs n) :
    offset? cs (position cs n) = some (n - 1) := by
  obtain ⟨xs, ys, rfl, rfl⟩ := isBoundary_iff.1 h
  obtain ⟨hlast, hnext⟩ := behindReturn_append.1 hreturn
  obtain ⟨ls, tail, rfl, hls, htail⟩ := exists_unlines xs
  -- The carriage return stands in the line of the position, and the line ends behind it.
  obtain ⟨visible, rfl⟩ := List.getLast?_eq_some_iff.1 (getLast?_unlines_append (by decide) hlast)
  have hrest : ys.takeWhile (· != '\n') = [] := by
    cases ys with
    | nil => rfl
    | cons c ys => exact List.takeWhile_cons_of_neg (by simpa using hnext)
  have hreturn : ('\r' : Char).utf8Size = 1 := rfl
  rw [position_unlines hls htail]
  simp only [offset?, lines_unlines hls htail, hrest, List.append_nil, Line.text, stripReturn_concat]
  rw [columnOffset_of_units16_le (by rw [units16_append]; omega)]
  simp only [byteSize_append, byteSize_cons, byteSize_nil, hreturn, Option.some.injEq]
  omega

/-! ## The places of a line -/

/-- A text has one line more than line feeds. -/
theorem length_linesFrom (start : Nat) (cs : List Char) : (linesFrom start cs).length = cs.count '\n' + 1 := by
  fun_induction linesFrom start cs with
  | case1 start cs raw hdrop =>
    have hnone := not_mem_takeWhile_ne '\n' cs
    rw [takeWhile_ne_eq_self hdrop] at hnone
    rw [List.count_eq_zero.2 hnone]
    rfl
  | case2 start cs raw c rest hdrop ih =>
    obtain ⟨rfl, hsplit⟩ := takeWhile_ne_append hdrop
    rw [List.length_cons, ih, ← hsplit, List.count_append, List.count_eq_zero.2 (not_mem_takeWhile_ne '\n' cs),
      List.count_cons_self, Nat.zero_add]

/-- The places of the visible text of line `k` where at least `column` units have passed on the line. -/
def columnPlaces (cs : List Char) (k column : Nat) (l : Line) : Set Nat :=
  {b | isBoundary cs b = true ∧ (position cs b).line = k ∧ b ≤ l.stop ∧ column ≤ (position cs b).character}

/-- These are the ends of the prefixes of the visible text that have so many units. -/
theorem mem_columnPlaces {k : Nat} (hl : (lines cs)[k]? = some l) :
    b ∈ columnPlaces cs k column l ↔
      ∃ xs ys, l.text = xs ++ ys ∧ b = l.start + byteSize xs ∧ column ≤ units16 xs := by
  obtain ⟨rest, hraw⟩ := stripReturn_prefix l.raw
  constructor
  · rintro ⟨hb, hline, hstop, hcolumn⟩
    obtain ⟨xs, ys, rfl, rfl⟩ := isBoundary_iff.1 hb
    obtain ⟨ls, tail, rfl, hls, htail⟩ := exists_unlines xs
    rw [position_unlines hls htail] at hline hcolumn
    obtain rfl := hline
    rw [lines_unlines hls htail] at hl
    obtain rfl := Option.some.inj hl
    -- Both what stands before the place and the visible text begin the line.
    have hle : byteSize tail ≤ byteSize (Line.text ⟨byteSize (unlines ls), tail ++ ys.takeWhile (· != '\n')⟩) := by
      rw [byteSize_append, Line.stop] at hstop
      exact Nat.le_of_add_le_add_left hstop
    obtain ⟨mid, htext, -⟩ := exists_between_of_byteSize_le hraw.symm hle
    exact ⟨tail, mid, htext, byteSize_append _ _, hcolumn⟩
  · rintro ⟨xs, ys, htext, rfl, hcolumn⟩
    obtain ⟨ls, below, hcs, hstart, rfl, hls, hfeed⟩ := linesFrom_getElem? 0 cs k hl
    have hraw : l.raw = xs ++ ys ++ rest := by rw [← htext, ← hraw, Line.text]
    have hxs : '\n' ∉ xs := by
      rw [hraw] at hfeed
      exact fun hmem => hfeed (List.mem_append_left _ (List.mem_append_left _ hmem))
    have hsplit : cs = unlines ls ++ xs ++ (ys ++ rest ++ below) := by
      rw [hcs, hraw]
      simp
    have hplace : l.start + byteSize xs = byteSize (unlines ls ++ xs) := by
      rw [hstart, byteSize_append, Nat.zero_add]
    have hposition : position cs (l.start + byteSize xs) = ⟨ls.length, units16 xs⟩ := by
      rw [hsplit, hplace, position_unlines hls hxs]
    refine ⟨isBoundary_iff.2 ⟨_, _, hsplit, hplace⟩, by rw [hposition], ?_, by rw [hposition]; exact hcolumn⟩
    rw [Line.stop, htext, byteSize_append]
    omega

/-- A column is reached no later than at the end of a prefix with so many units. -/
theorem columnOffset_le (h : column ≤ units16 xs) (ys : List Char) : columnOffset (xs ++ ys) column ≤ byteSize xs := by
  induction xs generalizing column with
  | nil =>
    obtain rfl := Nat.le_zero.1 h
    cases ys <;> simp [columnOffset]
  | cons c xs ih =>
    rw [units16_cons] at h
    rw [List.cons_append, columnOffset]
    split
    · exact Nat.zero_le _
    · rw [byteSize_cons]
      exact Nat.add_le_add_left (ih (by omega)) _

/-- A column that the text has is reached at the end of a prefix with so many units. -/
theorem exists_columnOffset (h : column ≤ units16 cs) :
    ∃ xs ys, cs = xs ++ ys ∧ columnOffset cs column = byteSize xs ∧ column ≤ units16 xs := by
  induction cs generalizing column with
  | nil => exact ⟨[], [], rfl, rfl, h⟩
  | cons c cs ih =>
    rw [columnOffset]
    by_cases hzero : column = 0
    · exact ⟨[], c :: cs, rfl, if_pos hzero, Nat.le_of_eq hzero⟩
    · rw [units16_cons] at h
      have hrest : column - charUnits16 c ≤ units16 cs := by omega
      obtain ⟨xs, ys, rfl, hxs, hcolumn⟩ := ih hrest
      refine ⟨c :: xs, ys, rfl, ?_, ?_⟩
      · rw [if_neg hzero, hxs, byteSize_cons]
      · rw [units16_cons]
        omega

/-- **A column of a line is found at its first place in the visible text**, and at the end of that text if it has
none. -/
theorem offset?_columnPlaces {p : Position} (hl : (lines cs)[p.line]? = some l) :
    ∃ n, offset? cs p = some n ∧ (IsLeast (columnPlaces cs p.line p.character l) n ∨
      columnPlaces cs p.line p.character l = ∅ ∧ n = l.stop) := by
  refine ⟨l.start + columnOffset l.text p.character, by simp only [offset?, hl], ?_⟩
  by_cases hcolumn : p.character ≤ units16 l.text
  · left
    obtain ⟨xs, ys, htext, hxs, hcolumn⟩ := exists_columnOffset hcolumn
    refine ⟨(mem_columnPlaces hl).2 ⟨xs, ys, htext, by rw [hxs], hcolumn⟩, ?_⟩
    intro b hb
    obtain ⟨xs, ys, htext, rfl, hcolumn⟩ := (mem_columnPlaces hl).1 hb
    rw [htext]
    exact Nat.add_le_add_left (columnOffset_le hcolumn ys) _
  · right
    refine ⟨Set.eq_empty_iff_forall_notMem.2 fun b hb => hcolumn ?_, ?_⟩
    · obtain ⟨xs, ys, htext, -, hprefix⟩ := (mem_columnPlaces hl).1 hb
      rw [htext, units16_append]
      omega
    · rw [columnOffset_of_units16_le (Nat.le_of_not_le hcolumn), Line.stop]

/-! ## Both ways -/

/-- How the offsets of a text and the positions in it correspond. -/
structure Corresponds (cs : List Char) : Prop where
  /-- Later offsets have later positions. -/
  monotone : ∀ n m, n ≤ m → AtMost (position cs n) (position cs m)
  /-- An offset past the end counts as the end. -/
  clamped : ∀ n, byteSize cs ≤ n → position cs n = position cs (byteSize cs)
  /-- An offset inside a character counts as the start of it. -/
  floored : ∀ n, ∃ b, IsGreatest {b | isBoundary cs b = true ∧ b ≤ n} b ∧ position cs n = position cs b
  /-- A place is found again from its position, but for a carriage return that ends its line. -/
  found : ∀ n, isBoundary cs n = true →
    offset? cs (position cs n) = some (if BehindReturn cs n then n - 1 else n)
  /-- A column of a line is found at its first place in the visible text, or at the end of that text. -/
  columns : ∀ p l, (lines cs)[p.line]? = some l → ∃ n, offset? cs p = some n ∧
    (IsLeast (columnPlaces cs p.line p.character l) n ∨ columnPlaces cs p.line p.character l = ∅ ∧ n = l.stop)
  /-- There are as many lines as line feeds, and one more. -/
  counted : (lines cs).length = cs.count '\n' + 1
  /-- Past the last line there is the end of the text only, at the start of the next line. -/
  past : ∀ p, (lines cs).length ≤ p.line →
    offset? cs p = if p = ⟨(lines cs).length, 0⟩ then some (byteSize cs) else none

/-- **Offsets and positions of every text correspond.** -/
theorem corresponds (cs : List Char) : Corresponds cs where
  monotone _ _ h := position_mono h
  clamped _ h := position_clamp h
  floored := position_floor cs
  found n h := by
    split
    · next hreturn => exact offset?_behindReturn h hreturn
    · next hreturn => exact offset?_position h hreturn
  columns _ _ hl := offset?_columnPlaces hl
  counted := length_linesFrom 0 cs
  past p hp := by
    obtain ⟨line, character⟩ := p
    simp only [offset?, List.getElem?_eq_none hp, Position.mk.injEq]

example : position "a\r\nb".toList 2 = ⟨0, 2⟩ ∧ offset? "a\r\nb".toList ⟨0, 2⟩ = some 1 := by
  decide +kernel

end LgLang.Text
