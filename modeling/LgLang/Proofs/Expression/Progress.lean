import LgLang.Proofs.Expression.Balance
import Mathlib.Logic.Function.Iterate

/-!
# Where the reader of expressions stays

The reader goes over an expression in rounds, one step each, until nothing is left. A round moves forward from every
character but an `@` or a `$`, and on these it changes nothing at all (`step_mark`, `step_forward`). What a round reads
has none of them outside of string literals (`Reads.passes`), so that the reader does not get past the first one
that stands there. The rounds come to an end exactly when there is none (`rounds_end_iff`).
-/

namespace LgLang.Expression.Scan

open Quoting (outside)
open Text (byteSize)

variable {s : Scan} {c mark : Char} {cs whole : List Char} {n : Nat}

/-! ## One round -/

/-- On an `@` or a `$` a step changes nothing. -/
theorem step_mark (hrest : s.rest = mark :: cs) (hmark : mark = '@' ∨ mark = '$') : s.step = s := by
  have hword : s.rest.takeWhile isNameRest = [] := by
    rw [hrest]
    rcases hmark with rfl | rfl <;> rfl
  have hbehind : s.rest.dropWhile isNameRest = s.rest := by
    rw [hrest]
    rcases hmark with rfl | rfl <;> rfl
  have hfollowing : ((s.rest.dropWhile Text.isAsciiBlank).head? == some '(') = false := by
    rw [hrest]
    rcases hmark with rfl | rfl <;> rfl
  have hname : s.step = s.passName := by
    unfold step
    rw [hrest]
    rcases hmark with rfl | rfl <;> rfl
  rw [hname, passName]
  simp only [hword, hbehind, hfollowing, Bool.and_false, Bool.false_eq_true, if_false]
  rfl

/-- From every other character a step moves forward. -/
theorem step_forward (hrest : s.rest = c :: cs) (hmark : c ≠ '@' ∧ c ≠ '$') : s.step.rest.length < s.rest.length := by
  refine (step_reads hrest).forward_of_head fun d ds hrest' => ?_
  obtain ⟨rfl, -⟩ := List.cons.inj (hrest.symm.trans hrest')
  exact hmark

theorem step_end (hrest : s.rest = []) : s.step = s := by
  unfold step
  rw [hrest]

theorem offset_lt_of_forward (h : s.step.rest.length < s.rest.length) : s.offset < s.step.offset := by
  obtain ⟨c, cs, hrest⟩ := List.exists_cons_of_length_pos (Nat.zero_lt_of_lt h)
  obtain ⟨read, hsplit, hoffset, -⟩ := (step_reads hrest).outside
  have hread : byteSize read ≠ 0 := by
    intro hzero
    rw [Text.byteSize_eq_zero.1 hzero, List.nil_append] at hsplit
    rw [← hsplit] at h
    exact Nat.lt_irrefl _ h
  omega

/-! ## Many rounds -/

/-- The scan of an expression behind some rounds. -/
def rounds (cs : List Char) (n : Nat) : Scan :=
  step^[n] (start cs)

theorem rounds_succ (cs : List Char) (n : Nat) : rounds cs (n + 1) = (rounds cs n).step :=
  Function.iterate_succ_apply' step n (start cs)

/-- The scan has read a part of the expression that has no `@` and no `$` outside of literals, and is now outside of
literals itself, or else at the end. -/
def Passed (whole : List Char) (s : Scan) : Prop :=
  ∃ read, whole = read ++ s.rest ∧ s.offset = byteSize read ∧ Markless read ∧
    (outside.after read = outside ∨ s.rest = [])

theorem Passed.step (h : s.Passed whole) : s.step.Passed whole := by
  cases hrest : s.rest with
  | nil =>
    rw [step_end hrest]
    exact h
  | cons c cs =>
    obtain ⟨before, hwhole, hoffset, hbefore, hout⟩ := h
    rcases hout with hout | hend
    · have hreads := step_reads hrest
      obtain ⟨read, hsplit, hnext, hread, hbehind⟩ := hreads.passes
      refine ⟨before ++ read, ?_, ?_, ?_, ?_⟩
      · rw [List.append_assoc, ← hsplit]
        exact hwhole
      · rw [Text.byteSize_append, hnext, hoffset]
      · intro d hd
        rw [Quoting.unquoted_append, hout] at hd
        rcases List.mem_append.1 hd with hd | hd
        · exact hbefore d hd
        · exact hread d hd
      · rw [Quoting.after_append, hout]
        exact hbehind
    · rw [hend] at hrest
      cases hrest

theorem passed_rounds (cs : List Char) (n : Nat) : (rounds cs n).Passed cs := by
  induction n with
  | zero => exact ⟨[], rfl, rfl, List.forall_mem_nil _, Or.inl rfl⟩
  | succ n ih =>
    rw [rounds_succ]
    exact ih.step

/-- An expression has an `@` or a `$` outside of literals where the reader stands on one. -/
theorem Passed.not_markless (h : s.Passed whole) (hrest : s.rest = mark :: cs) (hmark : mark = '@' ∨ mark = '$') :
    ¬Markless whole := by
  intro hmarkless
  obtain ⟨read, rfl, -, -, hout | hend⟩ := h
  · have hquote : isQuote mark = false := by rcases hmark with rfl | rfl <;> rfl
    have hmem : mark ∈ outside.unquoted (read ++ s.rest) := by
      rw [hrest, Quoting.unquoted_append, hout, Quoting.unquoted_other hquote]
      exact List.mem_append_right _ List.mem_cons_self
    obtain ⟨hat, hdollar⟩ := hmarkless mark hmem
    exact hmark.elim hat hdollar
  · rw [hend] at hrest
    cases hrest

theorem Passed.markless_of_end (h : s.Passed whole) (hend : s.rest = []) : Markless whole := by
  obtain ⟨read, rfl, -, hread, -⟩ := h
  rwa [hend, List.append_nil]

/-- The rounds go on until the reader is at the end or stands on an `@` or a `$`, and there it stops. -/
theorem exists_iterate_run (s : Scan) :
    ∃ n, s.run = step^[n] s ∧ ∀ m < n, (step^[m] s).offset < (step^[m] s).step.offset := by
  fun_induction run s with
  | case1 s next hforward ih =>
    obtain ⟨n, hrun, hforwards⟩ := ih
    refine ⟨n + 1, hrun, ?_⟩
    intro m hm
    cases m with
    | zero => exact offset_lt_of_forward hforward
    | succ m => exact hforwards m (Nat.lt_of_succ_lt_succ hm)
  | case2 s next hstop => exact ⟨0, rfl, fun m hm => absurd hm (Nat.not_lt_zero m)⟩

theorem run_fixed (s : Scan) : s.run.step = s.run := by
  cases hrest : s.run.rest with
  | nil => exact step_end hrest
  | cons c cs =>
    by_cases hmark : c ≠ '@' ∧ c ≠ '$'
    · exact absurd (step_forward hrest hmark) (run_stops s)
    · rw [not_and_or, not_not, not_not] at hmark
      exact step_mark hrest hmark

/-- The rounds go to where the scan stops, each of them forward, and stay there. -/
theorem exists_rounds_run (cs : List Char) :
    ∃ n, (start cs).run = rounds cs n ∧ (∀ m < n, (rounds cs m).offset < (rounds cs (m + 1)).offset) ∧
      ∀ m, n ≤ m → rounds cs m = rounds cs n := by
  obtain ⟨n, hrun, hforward⟩ := exists_iterate_run (start cs)
  refine ⟨n, hrun, ?_, ?_⟩
  · intro m hm
    rw [rounds_succ]
    exact hforward m hm
  · intro m hm
    obtain ⟨more, rfl⟩ := Nat.exists_eq_add_of_le' hm
    rw [rounds, Function.iterate_add_apply, ← hrun, Function.iterate_fixed (run_fixed _), hrun]
    rfl

theorem forward_of_markless (hmarkless : Markless cs) (hrest : (rounds cs n).rest ≠ []) :
    (rounds cs n).offset < (rounds cs (n + 1)).offset := by
  obtain ⟨c, rest, hrest⟩ := List.exists_cons_of_ne_nil hrest
  rw [rounds_succ]
  apply offset_lt_of_forward
  apply step_forward hrest
  by_contra hmark
  rw [not_and_or, not_not, not_not] at hmark
  exact (passed_rounds cs n).not_markless hrest hmark hmarkless

/-- The rounds have come to the first `@` or `$` outside of literals, each of them forward, and stay there. -/
structure StaysAt (cs read : List Char) (mark : Char) (rest : List Char) (n : Nat) : Prop where
  split : cs = read ++ mark :: rest
  isMark : mark = '@' ∨ mark = '$'
  isOutside : outside.after read = outside
  first : Markless read
  rest_eq : (rounds cs n).rest = mark :: rest
  offset_eq : (rounds cs n).offset = byteSize read
  forward : ∀ m < n, (rounds cs m).offset < (rounds cs (m + 1)).offset
  stays : ∀ m, n ≤ m → rounds cs m = rounds cs n

theorem exists_staysAt (hmarks : ¬Markless cs) : ∃ read mark rest n, StaysAt cs read mark rest n := by
  obtain ⟨n, hrun, hforward, hstays⟩ := exists_rounds_run cs
  have hpassed := passed_rounds cs n
  cases hrest : (rounds cs n).rest with
  | nil => exact absurd (hpassed.markless_of_end hrest) hmarks
  | cons mark rest =>
    have hmark : mark = '@' ∨ mark = '$' := by
      by_contra hmark
      rw [not_or] at hmark
      have hlt := step_forward hrest hmark
      rw [← hrun, run_fixed] at hlt
      exact Nat.lt_irrefl _ hlt
    obtain ⟨read, hsplit, hoffset, hread, hout | hend⟩ := hpassed
    · rw [hrest] at hsplit
      exact ⟨read, mark, rest, n, hsplit, hmark, hout, hread, hrest, hoffset, hforward, hstays⟩
    · rw [hrest] at hend
      cases hend

/-- **The rounds of the reader come to an end exactly when no `@` and no `$` stands outside of literals. Each of them moves
forward then; otherwise they come to the first such character and stay there for ever. What is found is what was found
where they end or stay.** -/
theorem rounds_end_iff (cs : List Char) :
    ((∃ n, (rounds cs n).rest = []) ↔ Markless cs) ∧
      (Markless cs → ∀ n, (rounds cs n).rest ≠ [] → (rounds cs n).offset < (rounds cs (n + 1)).offset) ∧
      (¬Markless cs → ∃ read mark rest n, StaysAt cs read mark rest n) ∧
      ∃ n, scan cs = (rounds cs n).findings ∧ ∀ m, n ≤ m → rounds cs m = rounds cs n := by
  obtain ⟨n, hrun, -, hstays⟩ := exists_rounds_run cs
  refine ⟨⟨?_, ?_⟩, fun hmarkless m => forward_of_markless hmarkless, exists_staysAt, n, ?_, hstays⟩
  · rintro ⟨m, hend⟩
    exact (passed_rounds cs m).markless_of_end hend
  · intro hmarkless
    refine ⟨n, ?_⟩
    rw [← hrun]
    exact (run_faultless hmarkless).1
  · rw [← hrun]
    rfl

/-- An `@` in a literal is passed, and the reader stays at the one behind it. -/
theorem rounds_end_iff_markBehindLiteral :
    (Markless "f('@')".toList ∧ ∃ n, (rounds "f('@')".toList n).rest = []) ∧
      ¬Markless "f('@', @x)".toList ∧ ∃ read mark rest n, StaysAt "f('@', @x)".toList read mark rest n := by
  have hmarkless : Markless "f('@')".toList := by decide +kernel
  have hmarks : ¬Markless "f('@', @x)".toList := by decide +kernel
  obtain ⟨hend, -, -, -⟩ := rounds_end_iff "f('@')".toList
  obtain ⟨-, -, hstays, -⟩ := rounds_end_iff "f('@', @x)".toList
  exact ⟨⟨hmarkless, hend.2 hmarkless⟩, hmarks, hstays hmarks⟩

end LgLang.Expression.Scan
