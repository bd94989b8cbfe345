/-!
# Text measured in bytes and in UTF-16 units

Texts are handled as lists of characters. Locations in a text are offsets counted in bytes of its UTF-8 form, so
this module measures character lists in bytes (`byteSize`), cuts them at byte offsets (`dropBytes?`,
`takeBytes?`, `slice?`), and counts the UTF-16 units that editors use for columns (`units16`). Cutting succeeds
exactly at character boundaries: `dropBytes?_byteSize_append` and `takeBytes?_byteSize_append` say what a cut at
the boundary between two parts of a text gives.
-/

namespace LgLang.Text

/-- Number of bytes of `cs` in UTF-8. -/
def byteSize (cs : List Char) : Nat :=
  cs.foldr (fun c n => c.utf8Size + n) 0

@[simp] theorem byteSize_nil : byteSize [] = 0 := rfl

@[simp] theorem byteSize_cons (c : Char) (cs : List Char) :
    byteSize (c :: cs) = c.utf8Size + byteSize cs := rfl

@[simp] theorem byteSize_append (xs ys : List Char) :
    byteSize (xs ++ ys) = byteSize xs + byteSize ys := by
  induction xs with
  | nil => simp
  | cons c xs ih => simp [ih, Nat.add_assoc]

/-- What follows the first `n` bytes of a text, or `none` when byte `n` lies inside a character or past the end. -/
def dropBytes? : List Char → Nat → Option (List Char)
  | cs, 0 => some cs
  | [], _ + 1 => none
  | c :: cs, n + 1 => if c.utf8Size ≤ n + 1 then dropBytes? cs (n + 1 - c.utf8Size) else none

/-- The first `n` bytes of a text, or `none` when byte `n` lies inside a character or past the end. -/
def takeBytes? : List Char → Nat → Option (List Char)
  | _, 0 => some []
  | [], _ + 1 => none
  | c :: cs, n + 1 =>
    if c.utf8Size ≤ n + 1 then (takeBytes? cs (n + 1 - c.utf8Size)).map (c :: ·) else none

/-- The bytes from `start` up to `stop`, or `none` when they are not a range of whole characters of the text. -/
def slice? (cs : List Char) (start stop : Nat) : Option (List Char) :=
  if start ≤ stop then (dropBytes? cs start).bind (takeBytes? · (stop - start)) else none

/-- Whether byte offset `n` lies between two characters of the text, or at one of its ends. -/
def isBoundary (cs : List Char) (n : Nat) : Bool :=
  (dropBytes? cs n).isSome

theorem dropBytes?_byteSize_append (xs ys : List Char) :
    dropBytes? (xs ++ ys) (byteSize xs) = some ys := by
  induction xs with
  | nil => cases ys <;> rfl
  | cons c xs ih =>
    have hc : 0 < c.utf8Size := c.utf8Size_pos
    obtain ⟨m, hm⟩ : ∃ m, byteSize (c :: xs) = m + 1 :=
      ⟨byteSize (c :: xs) - 1, by simp only [byteSize_cons]; omega⟩
    have hsub : m + 1 - c.utf8Size = byteSize xs := by
      simp only [byteSize_cons] at hm; omega
    have hle : c.utf8Size ≤ m + 1 := by
      simp only [byteSize_cons] at hm; omega
    rw [hm, List.cons_append, dropBytes?, if_pos hle, hsub, ih]

theorem takeBytes?_byteSize_append (xs ys : List Char) :
    takeBytes? (xs ++ ys) (byteSize xs) = some xs := by
  induction xs with
  | nil => cases ys <;> rfl
  | cons c xs ih =>
    have hc : 0 < c.utf8Size := c.utf8Size_pos
    obtain ⟨m, hm⟩ : ∃ m, byteSize (c :: xs) = m + 1 :=
      ⟨byteSize (c :: xs) - 1, by simp only [byteSize_cons]; omega⟩
    have hsub : m + 1 - c.utf8Size = byteSize xs := by
      simp only [byteSize_cons] at hm; omega
    have hle : c.utf8Size ≤ m + 1 := by
      simp only [byteSize_cons] at hm; omega
    rw [hm, List.cons_append, takeBytes?, if_pos hle, hsub, ih]
    rfl

/-- The middle of a text is its slice from the size of what precedes it. -/
theorem slice?_middle (xs ys zs : List Char) :
    slice? (xs ++ ys ++ zs) (byteSize xs) (byteSize xs + byteSize ys) = some ys := by
  unfold slice?
  rw [if_pos (by omega), List.append_assoc, dropBytes?_byteSize_append]
  have : byteSize xs + byteSize ys - byteSize xs = byteSize ys := by omega
  simp [this, takeBytes?_byteSize_append]

/-- Number of UTF-16 units of one character: two outside the basic plane. -/
def charUnits16 (c : Char) : Nat :=
  if c.toNat < 0x10000 then 1 else 2

/-- Number of UTF-16 units of a text. -/
def units16 (cs : List Char) : Nat :=
  cs.foldr (fun c n => charUnits16 c + n) 0

theorem charUnits16_pos (c : Char) : 0 < charUnits16 c := by
  unfold charUnits16; split <;> omega

@[simp] theorem units16_nil : units16 [] = 0 := rfl

@[simp] theorem units16_cons (c : Char) (cs : List Char) :
    units16 (c :: cs) = charUnits16 c + units16 cs := rfl

@[simp] theorem units16_append (xs ys : List Char) :
    units16 (xs ++ ys) = units16 xs + units16 ys := by
  induction xs with
  | nil => simp
  | cons c xs ih => simp [ih, Nat.add_assoc]

end LgLang.Text
