import LgLang.Proofs.Expression.Calls

/-!
# Where the mistakes of an expression stand

The built-in reader reports a string or a bracket where it passes it, and brackets that are still open at the end where
it has noted them. All brackets take one byte, so that the places of mistakes begin and end between characters of the
expression (`scan_mistakes`).
-/

namespace LgLang.Expression

open Text (Stands byteSize)

variable {cs read rest whole : List Char} {s : Scan} {c : Char}

theorem utf8Size_of_isOpener (h : isOpener c = true) : c.utf8Size = 1 := by
  simp only [isOpener, Bool.or_eq_true, beq_iff_eq] at h
  rcases h with (rfl | rfl) | rfl <;> rfl

theorem utf8Size_of_isCloser (h : isCloser c = true) : c.utf8Size = 1 := by
  simp only [isCloser, Bool.or_eq_true, beq_iff_eq] at h
  rcases h with (rfl | rfl) | rfl <;> rfl

namespace Scan

/-- The mistakes noted so far are parts of the expression, and every bracket that is open is one byte of it. -/
structure Watched (whole : List Char) (s : Scan) : Prop where
  mistakes : ∀ m ∈ s.mistakes, m.span.Fits whole
  opened : ∀ o ∈ s.opened, (Span.ofSize o.2 1).Fits whole

theorem Watched.pass (h : s.Watched whole) (read rest : List Char) : (s.pass read rest).Watched whole :=
  ⟨h.mistakes, h.opened⟩

theorem Watched.mistake (h : s.Watched whole) (message : String) {span : Span} (hspan : span.Fits whole) :
    (s.mistake message span).Watched whole :=
  ⟨List.forall_mem_append.2 ⟨h.mistakes, List.forall_mem_singleton.2 hspan⟩, h.opened⟩

/-- The first character that is still to be read, if it takes one byte. -/
theorem fits_next (hstands : Stands whole s.offset s.rest) (hrest : s.rest = c :: cs) (hsize : c.utf8Size = 1) :
    (Span.ofSize s.offset 1).Fits whole := by
  rw [hrest] at hstands
  have hfirst : Stands whole s.offset ([c] ++ cs) := hstands
  have hholds := Span.holds_ofSize hfirst.left
  rw [Text.byteSize_cons, hsize, Text.byteSize_nil] at hholds
  exact hholds.fits

theorem passString_watched (h : s.Watched whole) (hstands : Stands whole s.offset s.rest) {quote : Char}
    (hrest : s.rest = quote :: cs) : (s.passString quote cs).Watched whole := by
  unfold passString
  split
  · exact h.pass _ _
  · rw [hrest] at hstands
    exact (h.mistake _ (Span.holds_ofSize hstands).fits).pass _ _

theorem passCloser_watched (h : s.Watched whole) (hstands : Stands whole s.offset s.rest) {closer : Char}
    (hrest : s.rest = closer :: cs) (hcloser : isCloser closer = true) : (s.passCloser closer cs).Watched whole := by
  have hnext := fits_next hstands hrest (utf8Size_of_isCloser hcloser)
  unfold passCloser
  split
  · exact (h.mistake _ hnext).pass _ _
  · next opener place outer hopened =>
    have houter : ({ s with opened := outer } : Scan).Watched whole :=
      ⟨h.mistakes, fun o ho => h.opened o (hopened ▸ List.mem_cons_of_mem _ ho)⟩
    have hplace := h.opened (opener, place) (hopened ▸ List.mem_cons_self)
    dsimp only
    split
    · exact houter.pass _ _
    · exact (houter.mistake _ (Span.fits_between hplace.start hnext.stop)).pass _ _

theorem passName_watched (h : s.Watched whole) : s.passName.Watched whole := by
  unfold passName
  dsimp only
  split
  · exact ⟨h.mistakes, h.opened⟩
  · exact h.pass _ _

theorem step_watched (h : s.Watched whole) (hstands : Stands whole s.offset s.rest) : s.step.Watched whole := by
  unfold step
  split
  · exact h
  · next c cs hrest =>
    split
    · exact passString_watched h hstands hrest
    · split
      · next hopener =>
        have hnext := fits_next hstands hrest (utf8Size_of_isOpener hopener)
        have hopened : ({ s with opened := (c, s.offset) :: s.opened } : Scan).Watched whole :=
          ⟨h.mistakes, List.forall_mem_cons.2 ⟨hnext, h.opened⟩⟩
        exact hopened.pass _ _
      · split
        · next hcloser => exact passCloser_watched h hstands hrest hcloser
        · split
          · exact passName_watched h
          · split
            · exact h.pass _ _
            · exact h.pass _ _

theorem run_watched (h : s.Watched whole) (hplaced : s.Placed whole) : s.run.Watched whole := by
  fun_induction run s with
  | case1 s next hforward ih => exact ih (step_watched h hplaced.stands) (step_placed hplaced hforward)
  | case2 s next hstop => exact h

end Scan

/-- **The mistakes of an expression are parts of it.** -/
theorem scan_mistakes (cs : List Char) : ∀ m ∈ (scan cs).mistakes, m.span.Fits cs := by
  have hplaced : (Scan.start cs).Placed cs := ⟨Stands.self cs, .nil, fun _ hc => absurd hc List.not_mem_nil⟩
  have hstart : (Scan.start cs).Watched cs :=
    ⟨fun _ hm => absurd hm List.not_mem_nil, fun _ ho => absurd ho List.not_mem_nil⟩
  have hend := Scan.run_watched hstart hplaced
  refine List.forall_mem_append.2 ⟨hend.mistakes, fun m hm => ?_⟩
  obtain ⟨⟨opener, place⟩, ho, rfl⟩ := List.mem_map.1 hm
  split at ho
  · exact hend.opened _ (List.mem_reverse.1 ho)
  · exact absurd ho List.not_mem_nil

end LgLang.Expression
