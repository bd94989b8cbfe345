import LgLang.Text.Utf8

/-!
# Cutting a text at byte offsets

A text can be cut exactly where a whole number of characters ends: at the sizes of its prefixes (`isBoundary_iff`).
Every character takes at least one byte, so that places in a text are ordered as their offsets are
(`exists_between_of_byteSize_le`), and the size of a prefix determines the prefix (`append_inj_of_byteSize`).

Readers also cut a text at the first character of some kind (`takeWhile_ne_append`), or look back for a word that ends it
(`exists_word_append`).
-/

namespace LgLang.Text

variable {cs xs ys xs' ys' : List Char} {n : Nat}

@[simp] theorem byteSize_eq_zero : byteSize cs = 0 ↔ cs = [] := by
  constructor
  · intro h
    cases cs with
    | nil => rfl
    | cons c cs =>
      have hc := c.utf8Size_pos
      rw [byteSize_cons] at h
      omega
  · rintro rfl
    rfl

theorem byteSize_reverse (cs : List Char) : byteSize cs.reverse = byteSize cs := by
  induction cs with
  | nil => rfl
  | cons c cs ih =>
    rw [List.reverse_cons, byteSize_append, ih, byteSize_cons, byteSize_cons, byteSize_nil, Nat.add_zero, Nat.add_comm]

/-- Of two places where a text can be cut, the one with the smaller offset comes first. -/
theorem exists_between_of_byteSize_le (h : xs ++ ys = xs' ++ ys') (hle : byteSize xs ≤ byteSize xs') :
    ∃ mid, xs' = xs ++ mid ∧ ys = mid ++ ys' := by
  rcases List.append_eq_append_iff.1 h with ⟨mid, hxs, hys⟩ | ⟨mid, hxs, hys⟩
  · exact ⟨mid, hxs, hys⟩
  · have hmid : byteSize mid = 0 := by
      rw [hxs, byteSize_append] at hle
      omega
    obtain rfl := byteSize_eq_zero.1 hmid
    exact ⟨[], by simpa using hxs.symm, by simpa using hys.symm⟩

theorem append_inj_of_byteSize (h : xs ++ ys = xs' ++ ys') (hsize : byteSize xs = byteSize xs') :
    xs = xs' ∧ ys = ys' := by
  obtain ⟨mid, rfl, rfl⟩ := exists_between_of_byteSize_le h (Nat.le_of_eq hsize)
  have hmid : byteSize mid = 0 := by
    rw [byteSize_append] at hsize
    omega
  obtain rfl := byteSize_eq_zero.1 hmid
  simp

theorem dropBytes?_eq_some_iff : dropBytes? cs n = some ys ↔ ∃ xs, cs = xs ++ ys ∧ n = byteSize xs := by
  constructor
  · fun_induction dropBytes? cs n with
    | case1 cs => exact fun h => ⟨[], Option.some.inj h, rfl⟩
    | case2 n => exact fun h => by cases h
    | case3 c cs n hle ih =>
      intro h
      obtain ⟨xs, rfl, hn⟩ := ih h
      refine ⟨c :: xs, rfl, ?_⟩
      rw [byteSize_cons]
      omega
    | case4 c cs n hle => exact fun h => by cases h
  · rintro ⟨xs, rfl, rfl⟩
    exact dropBytes?_byteSize_append xs ys

theorem isBoundary_iff : isBoundary cs n = true ↔ ∃ xs ys, cs = xs ++ ys ∧ n = byteSize xs := by
  rw [isBoundary, Option.isSome_iff_exists]
  constructor
  · rintro ⟨ys, h⟩
    obtain ⟨xs, hcs, hn⟩ := dropBytes?_eq_some_iff.1 h
    exact ⟨xs, ys, hcs, hn⟩
  · rintro ⟨xs, ys, hcs, hn⟩
    exact ⟨ys, dropBytes?_eq_some_iff.2 ⟨xs, hcs, hn⟩⟩

/-! ## At a separator -/

variable {separator c : Char} {rest : List Char}

theorem not_mem_takeWhile_ne (separator : Char) (cs : List Char) : separator ∉ cs.takeWhile (· != separator) := by
  intro hmem
  have hne := List.all_eq_true.1 List.all_takeWhile separator hmem
  simp at hne

/-- A text without the separator is not cut. -/
theorem takeWhile_ne_eq_self (h : cs.dropWhile (· != separator) = []) : cs.takeWhile (· != separator) = cs := by
  have hsplit := List.takeWhile_append_dropWhile (p := (· != separator)) (l := cs)
  rwa [h, List.append_nil] at hsplit

/-- Where a text is cut at a separator, there is the separator. -/
theorem takeWhile_ne_append (h : cs.dropWhile (· != separator) = c :: rest) :
    c = separator ∧ cs.takeWhile (· != separator) ++ separator :: rest = cs := by
  have hhead := List.head?_dropWhile_not (· != separator) cs
  rw [h] at hhead
  obtain rfl : c = separator := by simpa using hhead
  have hsplit := List.takeWhile_append_dropWhile (p := (· != c)) (l := cs)
  rw [h] at hsplit
  exact ⟨rfl, hsplit⟩

/-! ## Words -/

variable {p : Char → Bool} {before word : List Char}

/-- A text ends in a word, possibly empty, of characters of some kind. -/
theorem exists_word_append (p : Char → Bool) (cs : List Char) :
    ∃ before word, cs = before ++ word ∧ (∀ c ∈ before.getLast?, p c = false) ∧ ∀ c ∈ word, p c = true := by
  refine ⟨(cs.reverse.dropWhile p).reverse, (cs.reverse.takeWhile p).reverse, ?_, ?_, ?_⟩
  · rw [← List.reverse_append, List.takeWhile_append_dropWhile, List.reverse_reverse]
  · intro c hc
    have hstop := List.head?_dropWhile_not p cs.reverse
    rw [List.getLast?_reverse] at hc
    rw [Option.mem_def.1 hc] at hstop
    exact hstop
  · intro c hc
    exact List.all_eq_true.1 List.all_takeWhile c (List.mem_reverse.1 hc)

/-- A look back over the word that ends a text stops at the first character of another kind. -/
theorem takeWhile_reverse_append (hbefore : ∀ c ∈ before.getLast?, p c = false) (hword : ∀ c ∈ word, p c = true) :
    (before ++ word).reverse.takeWhile p = word.reverse := by
  have hstop : before.reverse.takeWhile p = [] := by
    rw [← List.head?_reverse] at hbefore
    cases hreverse : before.reverse with
    | nil => rfl
    | cons c rest =>
      rw [hreverse] at hbefore
      exact List.takeWhile_cons_of_neg (Bool.eq_false_iff.1 (hbefore c rfl))
  rw [List.reverse_append, List.takeWhile_append_of_pos fun c hc => hword c (List.mem_reverse.1 hc), hstop,
    List.append_nil]

end LgLang.Text
