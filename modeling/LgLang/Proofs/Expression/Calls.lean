import LgLang.Expression.Scan
import LgLang.Proofs.Text.Place

/-!
# Where the calls of an expression stand

The built-in reader notes a call where it passes the called name, and it never goes back. So the names of the calls stand
in the expression, none is empty, and each ends before the next begins (`scan_calls`). No two of them touch, because
what follows the name of a call cannot start another name. A step that stays where it is may note a call that was noted
before; the scan ends before such a step.
-/

namespace LgLang.Expression

open Text (Stands byteSize)

variable {cs read rest whole : List Char} {s : Scan} {size : Nat}

/-- Calls whose names stand in a text below an offset. No name is empty, and none touches the next. -/
structure CallsPlaced (whole : List Char) (size : Nat) (calls : List CallSite) : Prop where
  holds : ∀ c ∈ calls, c.span.Holds whole c.name.toList
  within : ∀ c ∈ calls, c.span.start < c.span.stop ∧ c.span.stop ≤ size
  apart : calls.Pairwise fun c d => c.span.stop < d.span.start

theorem CallsPlaced.nil : CallsPlaced whole size [] :=
  ⟨fun _ hc => absurd hc List.not_mem_nil, fun _ hc => absurd hc List.not_mem_nil, .nil⟩

theorem CallsPlaced.mono {calls : List CallSite} {size' : Nat} (h : CallsPlaced whole size calls) (hle : size ≤ size') :
    CallsPlaced whole size' calls :=
  ⟨h.holds, fun c hc => ⟨(h.within c hc).1, Nat.le_trans (h.within c hc).2 hle⟩, h.apart⟩

theorem CallsPlaced.concat {calls : List CallSite} {call : CallSite} {start : Nat} (h : CallsPlaced whole start calls)
    (hholds : call.span.Holds whole call.name.toList) (hbefore : ∀ c ∈ calls, c.span.stop < call.span.start)
    (hne : call.span.start < call.span.stop) (hstop : call.span.stop ≤ size) :
    CallsPlaced whole size (calls ++ [call]) := by
  refine ⟨List.forall_mem_append.2 ⟨h.holds, List.forall_mem_singleton.2 hholds⟩,
    List.forall_mem_append.2 ⟨fun c hc => ?_, List.forall_mem_singleton.2 ⟨hne, hstop⟩⟩, ?_⟩
  · have hwithin := h.within c hc
    have hlt := hbefore c hc
    omega
  · refine List.pairwise_append.2 ⟨h.apart, List.pairwise_singleton _ _, fun c hc d hd => ?_⟩
    obtain rfl := List.mem_singleton.1 hd
    exact hbefore c hc

/-- A name begins with these characters. -/
def StartsName (cs : List Char) : Prop :=
  ∃ c ∈ cs.head?, isNameStart c = true

theorem not_startsName_of_head {c : Char} (h : isNameStart c = false) : ¬StartsName (c :: cs) := by
  rintro ⟨d, hd, hstart⟩
  obtain rfl := Option.some.inj hd
  cases h.symm.trans hstart

namespace Scan

/-- The scan has come as far as its offset says, and the calls noted so far lie behind it. Where one of them ends at the
offset, no name begins there. -/
structure Placed (whole : List Char) (s : Scan) : Prop where
  stands : Stands whole s.offset s.rest
  calls : CallsPlaced whole s.offset s.calls
  behind : ∀ c ∈ s.calls, c.span.stop < s.offset ∨ ¬StartsName s.rest

theorem Placed.pass (h : s.Placed whole) (hsplit : s.rest = read ++ rest) (hread : read ≠ []) :
    (s.pass read rest).Placed whole := by
  have hstands := h.stands
  rw [hsplit] at hstands
  refine ⟨hstands.right, h.calls.mono (Nat.le_add_right _ _), fun c hc => Or.inl ?_⟩
  have hstop := (h.calls.within c hc).2
  have hpos : 0 < byteSize read := Nat.pos_of_ne_zero fun hzero => hread (Text.byteSize_eq_zero.1 hzero)
  show c.span.stop < s.offset + byteSize read
  omega

/-- A scan that has moved forward has passed something. -/
theorem ne_nil_of_forward (hsplit : whole = read ++ rest) (hforward : rest.length < whole.length) :
    read ≠ [] := by
  rintro rfl
  rw [hsplit, List.nil_append] at hforward
  exact Nat.lt_irrefl _ hforward

theorem passString_placed (h : s.Placed whole) {quote : Char} (hrest : s.rest = quote :: cs) :
    (s.passString quote cs).Placed whole := by
  unfold passString
  split
  · next inside rest hquoted =>
    refine h.pass ?_ (List.cons_ne_nil _ _)
    rw [hrest, List.cons_append, append_of_quoted? hquoted]
  · have hmistake : (s.mistake "unterminated string literal"
        (.ofSize s.offset (byteSize (quote :: cs)))).Placed whole := ⟨h.stands, h.calls, h.behind⟩
    refine hmistake.pass ?_ (List.cons_ne_nil _ _)
    rw [List.append_nil]
    exact hrest

theorem passCloser_placed (h : s.Placed whole) {closer : Char} (hrest : s.rest = closer :: cs) :
    (s.passCloser closer cs).Placed whole := by
  have hmistake : ∀ (opened : List (Char × Nat)) (message : String) (span : Span),
      ({ s with opened := opened }.mistake message span).Placed whole := fun _ _ _ => ⟨h.stands, h.calls, h.behind⟩
  have hopened : ∀ opened : List (Char × Nat), ({ s with opened := opened } : Scan).Placed whole :=
    fun _ => ⟨h.stands, h.calls, h.behind⟩
  unfold passCloser
  split
  · exact (hmistake s.opened _ _).pass hrest (List.cons_ne_nil _ _)
  · next outer _ =>
    dsimp only
    split
    · exact (hopened outer).pass hrest (List.cons_ne_nil _ _)
    · exact (hmistake outer _ _).pass hrest (List.cons_ne_nil _ _)

theorem exists_withoutFinalDots_append (cs : List Char) :
    ∃ dots, cs = withoutFinalDots cs ++ dots ∧ ∀ c ∈ dots, c = '.' := by
  refine ⟨(cs.reverse.takeWhile (· == '.')).reverse, ?_, ?_⟩
  · rw [withoutFinalDots, ← List.reverse_append, List.takeWhile_append_dropWhile, List.reverse_reverse]
  · intro c hc
    have hdot := List.mem_takeWhile_imp (List.mem_reverse.1 hc)
    exact eq_of_beq hdot

/-- A name that does not begin with a dot keeps its beginning without the dots at its end. -/
theorem byteSize_withoutFinalDots {c : Char} (hc : c ≠ '.') (cs : List Char) :
    0 < byteSize (withoutFinalDots (c :: cs)) := by
  obtain ⟨dots, hsplit, hdots⟩ := exists_withoutFinalDots_append (c :: cs)
  refine Nat.pos_of_ne_zero fun hzero => ?_
  rw [Text.byteSize_eq_zero.1 hzero, List.nil_append] at hsplit
  exact hc (hdots c (hsplit ▸ List.mem_cons_self))

/-- A parenthesis, with blanks before it or none, does not start a name. -/
theorem not_startsName_of_parenthesis (h : (rest.dropWhile Text.isAsciiBlank).head? = some '(') : ¬StartsName rest := by
  cases rest with
  | nil => cases h
  | cons c rest =>
    by_cases hblank : Text.isAsciiBlank c = true
    · refine not_startsName_of_head ?_
      simp only [Text.isAsciiBlank, Bool.or_eq_true, beq_iff_eq] at hblank
      rcases hblank with (((h | h) | h) | h) | h <;> subst h <;> decide
    · rw [List.dropWhile_cons_of_neg hblank] at h
      obtain rfl := Option.some.inj h
      exact not_startsName_of_head (by decide)

/-- A name is passed with its call, if the scan moves forward over it. -/
theorem passName_placed (h : s.Placed whole) {c : Char} (hrest : s.rest = c :: cs) (hstart : isNameStart c = true)
    (hforward : s.passName.rest.length < s.rest.length) : s.passName.Placed whole := by
  have hsplit : s.rest = s.rest.takeWhile isNameRest ++ s.rest.dropWhile isNameRest :=
    List.takeWhile_append_dropWhile.symm
  have hbehind : s.passName.rest = s.rest.dropWhile isNameRest := by
    unfold passName
    dsimp only
    split <;> rfl
  rw [hbehind] at hforward
  have hread := ne_nil_of_forward hsplit hforward
  have hpassed := h.pass hsplit hread
  unfold passName
  dsimp only
  split
  · next hcall =>
    -- The character that starts the name also continues it, or the scan would not move.
    have hname : isNameRest c = true := by
      refine Classical.byContradiction fun hnot => hread ?_
      rw [hrest, List.takeWhile_cons_of_neg hnot]
    have hdot : c ≠ '.' := by
      rintro rfl
      exact absurd hstart (by decide)
    have hword : s.rest.takeWhile isNameRest = c :: cs.takeWhile isNameRest := by
      rw [hrest, List.takeWhile_cons_of_pos hname]
    have hpos := byteSize_withoutFinalDots hdot (cs.takeWhile isNameRest)
    rw [← hword] at hpos
    obtain ⟨dots, hdots, -⟩ := exists_withoutFinalDots_append (s.rest.takeWhile isNameRest)
    have hsize := congrArg byteSize hdots
    rw [Text.byteSize_append] at hsize
    have hstop : s.offset + byteSize (withoutFinalDots (s.rest.takeWhile isNameRest)) ≤
        s.offset + byteSize (s.rest.takeWhile isNameRest) := by
      omega
    have hstands := h.stands
    rw [hsplit, hdots] at hstands
    refine ⟨hpassed.stands, h.calls.concat ?_ (fun d hd => ?_) (Nat.lt_add_of_pos_right hpos) hstop, fun d hd => ?_⟩
    · show (Span.ofSize s.offset _).Holds whole (String.ofList _).toList
      rw [String.toList_ofList]
      exact Span.holds_ofSize hstands.left.left
    · -- A name begins here, and so no earlier call ends here.
      exact (h.behind d hd).resolve_right fun hnot => hnot ⟨c, by rw [hrest, List.head?_cons, Option.mem_some_iff], hstart⟩
    · refine Or.inr (not_startsName_of_parenthesis ?_)
      have hparenthesis := (Bool.and_eq_true_iff.1 hcall).2
      exact eq_of_beq hparenthesis
  · exact hpassed

/-- One step that moves forward. -/
theorem step_placed (h : s.Placed whole) (hforward : s.step.rest.length < s.rest.length) : s.step.Placed whole := by
  cases hrest : s.rest with
  | nil =>
    rw [hrest] at hforward
    exact absurd hforward (Nat.not_lt_zero _)
  | cons c cs =>
    have hopened : ({ s with opened := (c, s.offset) :: s.opened } : Scan).Placed whole :=
      ⟨h.stands, h.calls, h.behind⟩
    have hstep : s.step = s.step := rfl
    conv_rhs at hstep => rw [step, hrest]
    dsimp only at hstep
    split at hstep
    · rw [hstep]
      exact passString_placed h hrest
    · split at hstep
      · rw [hstep]
        exact hopened.pass hrest (List.cons_ne_nil _ _)
      · split at hstep
        · rw [hstep]
          exact passCloser_placed h hrest
        · split at hstep
          · next hname =>
            rw [hstep] at hforward ⊢
            exact passName_placed h hrest hname hforward
          · split at hstep
            · rw [hstep] at hforward ⊢
              have hsplit := List.takeWhile_append_dropWhile (p := fun d => d.isAlphanum || d == '.') (l := c :: cs)
              rw [← hrest] at hsplit hforward ⊢
              exact h.pass hsplit.symm (ne_nil_of_forward hsplit.symm hforward)
            · rw [hstep]
              exact h.pass hrest (List.cons_ne_nil _ _)

theorem run_placed (h : s.Placed whole) : s.run.Placed whole := by
  fun_induction run s with
  | case1 s next hforward ih => exact ih (step_placed h hforward)
  | case2 s next hstop => exact h

end Scan

/-- **The names of the calls in an expression stand in it, are not empty, and do not touch.** -/
theorem scan_calls (cs : List Char) : CallsPlaced cs (byteSize cs) (scan cs).calls := by
  have hstart : (Scan.start cs).Placed cs := ⟨Stands.self cs, .nil, fun _ hc => absurd hc List.not_mem_nil⟩
  have hend := Scan.run_placed hstart
  have hoffset := hend.stands.le_byteSize
  exact hend.calls.mono (by omega)

end LgLang.Expression
