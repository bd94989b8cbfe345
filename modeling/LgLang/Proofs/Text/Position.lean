import LgLang.Text.Position
import LgLang.Proofs.Text.Bytes

/-!
# From offsets to positions and back

Whatever offset a position has in a text, the text can be cut there (`isBoundary_of_offset?`). A place where a text can
be cut is found again from its position (`offset?_position`), unless it lies behind a carriage return that ends a line:
such a carriage return is not visible, so that its column is past the visible end of the line. Even there no other place
has the same position (`position_injective`), and positions are in the order of their offsets (`position_mono`).

The first two facts are read off a text written as whole lines and the beginning of one more (`unlines`).
-/

namespace LgLang.Text

variable {cs xs ys : List Char} {n : Nat}

/-- Lines written one after another, each with its line feed. -/
def unlines (ls : List (List Char)) : List Char :=
  ls.flatMap (· ++ ['\n'])

@[simp] theorem unlines_nil : unlines [] = [] := rfl

@[simp] theorem unlines_cons (l : List Char) (ls : List (List Char)) :
    unlines (l :: ls) = l ++ '\n' :: unlines ls := by
  simp [unlines]

/-- Every text is made of whole lines and the beginning of one more. -/
theorem exists_unlines (cs : List Char) :
    ∃ ls tail, cs = unlines ls ++ tail ∧ (∀ l ∈ ls, '\n' ∉ l) ∧ '\n' ∉ tail := by
  induction cs with
  | nil => exact ⟨[], [], rfl, fun _ h => absurd h List.not_mem_nil, List.not_mem_nil⟩
  | cons c cs ih =>
    obtain ⟨ls, tail, rfl, hls, htail⟩ := ih
    by_cases hc : c = '\n'
    · subst hc
      refine ⟨[] :: ls, tail, by simp, ?_, htail⟩
      intro l hl
      rcases List.mem_cons.1 hl with rfl | hl
      · exact List.not_mem_nil
      · exact hls l hl
    · have hextend : ∀ l : List Char, '\n' ∉ l → '\n' ∉ c :: l := fun l hl hmem =>
        (List.mem_cons.1 hmem).elim (fun h => hc h.symm) hl
      cases ls with
      | nil => exact ⟨[], c :: tail, rfl, hls, hextend tail htail⟩
      | cons l ls =>
        refine ⟨(c :: l) :: ls, tail, by simp, ?_, htail⟩
        intro l' hl'
        rcases List.mem_cons.1 hl' with rfl | hl'
        · exact hextend l (hls l List.mem_cons_self)
        · exact hls l' (List.mem_cons_of_mem _ hl')

/-! ## Lines and positions of such a text -/

theorem takeWhile_line {l : List Char} (hl : '\n' ∉ l) (rest : List Char) :
    (l ++ rest).takeWhile (· != '\n') = l ++ rest.takeWhile (· != '\n') := by
  rw [List.takeWhile_append_of_pos]
  intro c hc
  have hne : c ≠ '\n' := fun h => hl (h ▸ hc)
  simpa using hne

theorem dropWhile_line {l : List Char} (hl : '\n' ∉ l) (rest : List Char) :
    (l ++ rest).dropWhile (· != '\n') = rest.dropWhile (· != '\n') := by
  rw [List.dropWhile_append_of_pos]
  intro c hc
  have hne : c ≠ '\n' := fun h => hl (h ▸ hc)
  simpa using hne

/-- The first line of a text is what comes before the first line feed. -/
theorem linesFrom_head (start : Nat) (cs : List Char) :
    (linesFrom start cs)[0]? = some ⟨start, cs.takeWhile (· != '\n')⟩ := by
  rw [linesFrom]
  split <;> rfl

theorem linesFrom_line {l : List Char} (hl : '\n' ∉ l) (start : Nat) (rest : List Char) :
    linesFrom start (l ++ '\n' :: rest) = ⟨start, l⟩ :: linesFrom (start + byteSize l + 1) rest := by
  have htake : (l ++ '\n' :: rest).takeWhile (· != '\n') = l := by
    rw [takeWhile_line hl]
    simp
  have hdrop : (l ++ '\n' :: rest).dropWhile (· != '\n') = '\n' :: rest := by
    rw [dropWhile_line hl]
    simp
  rw [linesFrom]
  simp only [htake]
  split
  · next h => rw [hdrop] at h; cases h
  · next h =>
    rw [hdrop] at h
    obtain ⟨-, rfl⟩ := List.cons.inj h
    rfl

/-- The line behind whole lines. -/
theorem linesFrom_unlines {ls : List (List Char)} (hls : ∀ l ∈ ls, '\n' ∉ l) (start : Nat) (rest : List Char) :
    (linesFrom start (unlines ls ++ rest))[ls.length]? =
      some ⟨start + byteSize (unlines ls), rest.takeWhile (· != '\n')⟩ := by
  induction ls generalizing start with
  | nil => exact linesFrom_head start rest
  | cons l ls ih =>
    have hnewline : ('\n' : Char).utf8Size = 1 := rfl
    rw [unlines_cons, List.append_assoc, List.cons_append, linesFrom_line (hls l List.mem_cons_self),
      List.length_cons, List.getElem?_cons_succ, ih (fun l' hl' => hls l' (List.mem_cons_of_mem _ hl'))]
    simp only [byteSize_append, byteSize_cons, hnewline, Option.some.injEq, Line.mk.injEq, and_true]
    omega

/-- The line of a place is what stands between the line feeds around it. -/
theorem lines_unlines {ls : List (List Char)} {tail : List Char} (hls : ∀ l ∈ ls, '\n' ∉ l) (htail : '\n' ∉ tail)
    (ys : List Char) : (lines (unlines ls ++ tail ++ ys))[ls.length]? =
      some ⟨byteSize (unlines ls), tail ++ ys.takeWhile (· != '\n')⟩ := by
  rw [lines, List.append_assoc, linesFrom_unlines hls, takeWhile_line htail, Nat.zero_add]

theorem foldl_advance_line {l : List Char} (hl : '\n' ∉ l) (p : Position) :
    l.foldl Position.advance p = ⟨p.line, p.character + units16 l⟩ := by
  induction l generalizing p with
  | nil => rfl
  | cons c l ih =>
    have hc : c ≠ '\n' := fun h => hl (h ▸ List.mem_cons_self)
    rw [List.foldl_cons, ih (fun h => hl (List.mem_cons_of_mem _ h)), Position.advance, if_neg hc, units16_cons]
    simp only [Nat.add_assoc]

theorem foldl_advance_unlines {ls : List (List Char)} (hls : ∀ l ∈ ls, '\n' ∉ l) (k : Nat) :
    (unlines ls).foldl Position.advance ⟨k, 0⟩ = ⟨k + ls.length, 0⟩ := by
  induction ls generalizing k with
  | nil => rfl
  | cons l ls ih =>
    have hnext : Position.advance ⟨k, 0 + units16 l⟩ '\n' = ⟨k + 1, 0⟩ := rfl
    rw [unlines_cons, List.foldl_append, foldl_advance_line (hls l List.mem_cons_self), List.foldl_cons, hnext,
      ih (fun l' hl' => hls l' (List.mem_cons_of_mem _ hl')), List.length_cons]
    congr 1
    omega

/-- A position counts the line feeds before it, and the units since the last of them. -/
theorem position_unlines {ls : List (List Char)} {tail : List Char} (hls : ∀ l ∈ ls, '\n' ∉ l) (htail : '\n' ∉ tail)
    (ys : List Char) :
    position (unlines ls ++ tail ++ ys) (byteSize (unlines ls ++ tail)) = ⟨ls.length, units16 tail⟩ := by
  rw [position_byteSize_append, List.foldl_append, foldl_advance_unlines hls, foldl_advance_line htail]
  simp

/-! ## Columns -/

theorem columnOffset_units16 (xs ys : List Char) : columnOffset (xs ++ ys) (units16 xs) = byteSize xs := by
  induction xs with
  | nil => cases ys <;> simp [columnOffset]
  | cons c xs ih =>
    have hpos := charUnits16_pos c
    have hcolumn : charUnits16 c + units16 xs ≠ 0 := by omega
    rw [List.cons_append, units16_cons, columnOffset, if_neg hcolumn, Nat.add_sub_cancel_left, ih, byteSize_cons]

/-- A column ends where a character of its line does. -/
theorem isBoundary_columnOffset (cs : List Char) (column : Nat) : isBoundary cs (columnOffset cs column) = true := by
  rw [isBoundary_iff]
  induction cs generalizing column with
  | nil => exact ⟨[], [], rfl, rfl⟩
  | cons c cs ih =>
    by_cases hcolumn : column = 0
    · exact ⟨[], c :: cs, rfl, by rw [columnOffset, if_pos hcolumn]; rfl⟩
    · obtain ⟨xs, ys, hcs, hsize⟩ := ih (column - charUnits16 c)
      refine ⟨c :: xs, ys, by rw [hcs, List.cons_append], ?_⟩
      rw [columnOffset, if_neg hcolumn, hsize, byteSize_cons]

theorem stripReturn_prefix (cs : List Char) : stripReturn cs <+: cs := by
  unfold stripReturn
  split
  · exact List.dropLast_prefix cs
  · exact List.prefix_refl cs

theorem stripReturn_of_getLast? (h : cs.getLast? ≠ some '\r') : stripReturn cs = cs := by
  unfold stripReturn
  split
  · next hlast => exact absurd hlast h
  · rfl

/-- Only the end of a line is taken off. -/
theorem stripReturn_append_of_ne_nil (xs : List Char) (h : ys ≠ []) :
    stripReturn (xs ++ ys) = xs ++ stripReturn ys := by
  have hlast : (xs ++ ys).getLast? = ys.getLast? := by
    rw [List.getLast?_append]
    cases hys : ys.getLast? with
    | none => exact absurd (List.getLast?_eq_none_iff.1 hys) h
    | some c => rfl
  unfold stripReturn
  rw [hlast]
  split
  · exact List.dropLast_append_of_ne_nil h
  · rfl

/-! ## There and back -/

/-- Each line stands behind as many whole lines as its number says, up to the next line feed. -/
theorem linesFrom_getElem? (start : Nat) (cs : List Char) {l : Line} : ∀ k, (linesFrom start cs)[k]? = some l →
    ∃ ls rest, cs = unlines ls ++ l.raw ++ rest ∧ l.start = start + byteSize (unlines ls) ∧ ls.length = k ∧
      (∀ l ∈ ls, '\n' ∉ l) ∧ '\n' ∉ l.raw := by
  have hnone : ∀ l ∈ ([] : List (List Char)), '\n' ∉ l := fun _ h => absurd h List.not_mem_nil
  fun_induction linesFrom start cs with
  | case1 start cs raw hdrop =>
    intro k h
    obtain ⟨rfl, hl⟩ : k = 0 ∧ ⟨start, raw⟩ = l := by simpa [List.getElem?_singleton] using h
    obtain rfl := hl
    refine ⟨[], [], ?_, rfl, rfl, hnone, not_mem_takeWhile_ne '\n' cs⟩
    simpa using (takeWhile_ne_eq_self hdrop).symm
  | case2 start cs raw c rest hdrop ih =>
    intro k h
    obtain ⟨rfl, hsplit⟩ := takeWhile_ne_append hdrop
    have hfeed : ('\n' : Char).utf8Size = 1 := rfl
    have hraw : '\n' ∉ raw := not_mem_takeWhile_ne '\n' cs
    cases k with
    | zero =>
      obtain rfl := Option.some.inj h
      exact ⟨[], '\n' :: rest, hsplit.symm, rfl, rfl, hnone, hraw⟩
    | succ k =>
      obtain ⟨ls, below, hrest, hstart, hlength, hls, hl⟩ := ih k h
      refine ⟨raw :: ls, below, ?_, ?_, ?_, ?_, hl⟩
      · rw [unlines_cons, ← hsplit]
        simp [hrest, raw]
      · rw [hstart, unlines_cons, byteSize_append, byteSize_cons, hfeed]
        omega
      · rw [List.length_cons, hlength]
      · intro m hm
        rcases List.mem_cons.1 hm with rfl | hm
        · exact hraw
        · exact hls m hm

/-- **A position has an offset only where the text can be cut.** -/
theorem isBoundary_of_offset? {p : Position} (h : offset? cs p = some n) : isBoundary cs n = true := by
  rw [isBoundary_iff]
  unfold offset? at h
  dsimp only at h
  split at h
  · next l hl =>
    obtain ⟨ls, ys, hcs, hstart, -⟩ := linesFrom_getElem? 0 cs _ hl
    obtain ⟨before, after, hvisible, hcolumn⟩ := isBoundary_iff.1 (isBoundary_columnOffset l.text p.character)
    obtain ⟨rest, hraw⟩ := stripReturn_prefix l.raw
    -- The text is cut behind the part of the line that the column covers.
    refine ⟨unlines ls ++ before, after ++ rest ++ ys, ?_, ?_⟩
    · rw [hcs, ← hraw, show stripReturn l.raw = before ++ after from hvisible]
      simp
    · rw [← Option.some.inj h, hstart, hcolumn, byteSize_append]
      omega
  · split at h
    · exact ⟨cs, [], (List.append_nil cs).symm, (Option.some.inj h).symm⟩
    · cases h

/-- The offset is behind a carriage return that ends a line: a line feed comes next, or the end of the text. -/
def BehindReturn (cs : List Char) (n : Nat) : Prop :=
  (takeBytes? cs n).bind List.getLast? = some '\r' ∧ ((dropBytes? cs n).bind List.head?).getD '\n' = '\n'

instance (cs : List Char) (n : Nat) : Decidable (BehindReturn cs n) :=
  inferInstanceAs (Decidable (_ ∧ _))

theorem behindReturn_append :
    BehindReturn (xs ++ ys) (byteSize xs) ↔ xs.getLast? = some '\r' ∧ ys.head?.getD '\n' = '\n' := by
  rw [BehindReturn, takeBytes?_byteSize_append, dropBytes?_byteSize_append]
  rfl

/-- What comes before a place in a line is visible, unless it ends in a carriage return that ends the line. -/
theorem prefix_stripReturn {tail : List Char} (h : ¬ (tail.getLast? = some '\r' ∧ ys.head?.getD '\n' = '\n')) :
    tail <+: stripReturn (tail ++ ys.takeWhile (· != '\n')) := by
  by_cases hrest : ys.takeWhile (· != '\n') = []
  · have hnext : ys.head?.getD '\n' = '\n' := by
      cases ys with
      | nil => rfl
      | cons c ys =>
        by_cases hc : c = '\n'
        · exact hc
        · rw [List.takeWhile_cons_of_pos (by simpa using hc)] at hrest
          cases hrest
    have hline : stripReturn (tail ++ ys.takeWhile (· != '\n')) = tail := by
      rw [hrest, List.append_nil, stripReturn_of_getLast? fun hlast => h ⟨hlast, hnext⟩]
    exact ⟨[], by rw [hline, List.append_nil]⟩
  · rw [stripReturn_append_of_ne_nil tail hrest]
    exact List.prefix_append _ _

/-- **A place where the text can be cut is found again from its position**, if it is not behind a carriage return that
ends a line. -/
theorem offset?_position (h : isBoundary cs n = true) (hreturn : ¬ BehindReturn cs n) :
    offset? cs (position cs n) = some n := by
  obtain ⟨xs, ys, rfl, rfl⟩ := isBoundary_iff.1 h
  obtain ⟨ls, tail, rfl, hls, htail⟩ := exists_unlines xs
  have hvisible : tail <+: stripReturn (tail ++ ys.takeWhile (· != '\n')) := by
    refine prefix_stripReturn fun ⟨hlast, hnext⟩ => hreturn (behindReturn_append.2 ⟨?_, hnext⟩)
    rw [List.getLast?_append, hlast]
    rfl
  obtain ⟨rest, hvisible⟩ := hvisible
  rw [position_unlines hls htail]
  simp only [offset?, lines_unlines hls htail, Line.text, ← hvisible, columnOffset_units16, byteSize_append]

/-! ## Different places -/

/-- Characters move a position forward: down, or to the right on its line. -/
theorem foldl_advance_forward (hne : xs ≠ []) (p : Position) :
    p.line < (xs.foldl Position.advance p).line ∨
      p.line = (xs.foldl Position.advance p).line ∧ p.character < (xs.foldl Position.advance p).character := by
  induction xs generalizing p with
  | nil => exact absurd rfl hne
  | cons c xs ih =>
    have hfirst : p.line < (p.advance c).line ∨
        p.line = (p.advance c).line ∧ p.character < (p.advance c).character := by
      unfold Position.advance
      split
      · exact Or.inl (Nat.lt_succ_self _)
      · exact Or.inr ⟨rfl, Nat.lt_add_of_pos_right (charUnits16_pos c)⟩
    rw [List.foldl_cons]
    by_cases hxs : xs = []
    · rw [hxs]
      exact hfirst
    · have hrest := ih hxs (p.advance c)
      omega

/-- **Different places where a text can be cut have different positions.** -/
theorem position_injective {m : Nat} (hn : isBoundary cs n = true) (hm : isBoundary cs m = true)
    (h : position cs n = position cs m) : n = m := by
  -- The later place has more characters before it, so it would be further on.
  have hordered : ∀ {n m : Nat}, isBoundary cs n = true → isBoundary cs m = true → position cs n = position cs m →
      n ≤ m → n = m := by
    intro n m hn hm h hle
    obtain ⟨xs, ys, hxs, rfl⟩ := isBoundary_iff.1 hn
    obtain ⟨xs', ys', hxs', rfl⟩ := isBoundary_iff.1 hm
    obtain ⟨mid, rfl, -⟩ := exists_between_of_byteSize_le (hxs.symm.trans hxs') hle
    have hposition := position_byteSize_append xs ys
    have hposition' := position_byteSize_append (xs ++ mid) ys'
    rw [← hxs, h, hxs', hposition', List.foldl_append] at hposition
    have hmid : mid = [] := by
      refine Classical.byContradiction fun hne => ?_
      have hforward := foldl_advance_forward hne (xs.foldl Position.advance ⟨0, 0⟩)
      rw [hposition] at hforward
      omega
    rw [hmid, List.append_nil]
  rcases Nat.le_total n m with hle | hle
  · exact hordered hn hm h hle
  · exact (hordered hm hn h.symm hle).symm

/-! ## The order of positions -/

/-- A position above another, or not behind it on the same line. -/
def AtMost (p q : Position) : Prop :=
  p.line < q.line ∨ p.line = q.line ∧ p.character ≤ q.character

theorem AtMost.refl (p : Position) : AtMost p p :=
  Or.inr ⟨rfl, Nat.le_refl _⟩

theorem AtMost.antisymm {p q : Position} (hpq : AtMost p q) (hqp : AtMost q p) : p = q := by
  have hsame : p.line = q.line ∧ p.character = q.character := by
    unfold AtMost at hpq hqp
    omega
  rw [← Position.mk.injEq] at hsame
  exact hsame

theorem atMost_positionFrom (p : Position) (cs : List Char) (n : Nat) : AtMost p (positionFrom p cs n) := by
  induction cs generalizing p n with
  | nil => exact .refl p
  | cons c cs ih =>
    rw [positionFrom]
    split
    · have hrest := ih (p.advance c) (n - c.utf8Size)
      have hfirst := foldl_advance_forward (List.cons_ne_nil c []) p
      rw [List.foldl_cons, List.foldl_nil] at hfirst
      unfold AtMost at hrest ⊢
      omega
    · exact .refl p

/-- **Later offsets have later positions.** -/
theorem position_mono {m : Nat} (h : n ≤ m) : AtMost (position cs n) (position cs m) := by
  suffices hfrom : ∀ p, AtMost (positionFrom p cs n) (positionFrom p cs m) from hfrom ⟨0, 0⟩
  induction cs generalizing n m with
  | nil => exact AtMost.refl
  | cons c cs ih =>
    intro p
    by_cases hc : c.utf8Size ≤ n
    · rw [positionFrom, positionFrom, if_pos hc, if_pos (Nat.le_trans hc h)]
      exact ih (Nat.sub_le_sub_right h _) (p.advance c)
    · rw [positionFrom, if_neg hc]
      exact atMost_positionFrom p (c :: cs) m

/-- A later place where the text can be cut has a later position. -/
theorem not_atMost_position {m : Nat} (hn : isBoundary cs n = true) (hm : isBoundary cs m = true) (h : n < m) :
    ¬AtMost (position cs m) (position cs n) := by
  intro hback
  have hforth : AtMost (position cs n) (position cs m) := position_mono (Nat.le_of_lt h)
  exact Nat.ne_of_lt h (position_injective hn hm (hforth.antisymm hback))

end LgLang.Text
