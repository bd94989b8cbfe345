import LgLang.Proofs.Syntax.Located

/-!
# Names that do not touch

An offset between two names that touch would be on both. In a file there are no such offsets: the name of a template
ends with its header line, above everything in its body, and bracket references are kept apart by their brackets
(`parse_namesApart`). Both are read off the lines that the template was made of (`parse_lines`).
-/

namespace LgLang.Syntax

open Text (Stands Line Consecutive byteSize)

variable {cs : List Char} {l : Line} {ls : List Line} {t : Template}

/-! ## The lines of a template -/

/-- The template was made of a header line and body lines that stand in the text one below the other. -/
def Template.FromLines (cs : List Char) (t : Template) : Prop :=
  ∃ l header doc bodyLines, Consecutive cs (l :: bodyLines) ∧ readHeader l = .ok header ∧
    t = (templateOf l header doc bodyLines).1

theorem parseLines_lines (seenTemplate : Bool) (doc : List String) (h : Consecutive cs ls) :
    ∀ t ∈ (parseLines seenTemplate doc ls).file.templates, t.FromLines cs := by
  fun_induction parseLines seenTemplate doc ls with
  | case1 => exact fun _ ht => absurd ht List.not_mem_nil
  | case2 _ _ _ _ _ _ ih => exact ih h.tail
  | case3 _ _ _ _ _ _ ih => exact ih h.tail
  | case4 _ _ _ _ _ _ _ _ ih => exact ih h.tail
  | case5 _ _ _ _ _ _ _ _ ih => exact ih h.tail
  | case6 _ _ _ _ _ _ _ _ ih => exact ih (h.tail.dropWhile _)
  | case7 _ doc l rest _ _ header hread bodyLines comments hbody template _ htemplate ih =>
    have hown := h
    rw [append_bodyLines hbody] at hown
    refine List.forall_mem_cons.2 ⟨⟨l, header, doc, bodyLines, hown.left, hread, ?_⟩, ih (h.tail.dropWhile _)⟩
    exact (congrArg Prod.fst htemplate).symm
  | case8 _ _ _ _ _ _ ih => exact ih (h.tail.dropWhile _)
  | case9 _ _ _ _ _ _ ih => exact ih (h.tail.dropWhile _)

theorem parse_lines (text : String) : ∀ t ∈ (parse text).file.templates, t.FromLines text.toList :=
  parseLines_lines false [] (Text.consecutive_lines text.toList)

/-! ## The name in the header -/

/-- The name lies in the content of the header line. -/
theorem readHeader_nameSpan_within {header : Header} (h : readHeader l = .ok header) :
    Within l.contentStart l.contentStop header.nameSpan := by
  unfold readHeader at h
  dsimp only at h
  split at h
  · cases h
  · next parts hparts =>
    obtain ⟨⟨before, after, hname, hplace⟩, -⟩ := append_splitHeader? hparts
    split at h
    · cases h
    · obtain rfl := Except.ok.inj h
      have hsize := congrArg byteSize hname
      simp only [Text.byteSize_append] at hsize
      refine ⟨Nat.le_add_right _ _, ?_⟩
      show l.contentStart + parts.namePlace + byteSize parts.name ≤ l.contentStart + byteSize l.content
      omega

/-! ## The body below the header -/

/-- What a body keeps stands below the line above it. -/
theorem readBody_below (h : Consecutive cs (l :: ls)) :
    Kept cs (l.rawStop + 1) (byteSize cs) (readBody ls).1.textLines (readBody ls).1.keptSegments ∧
      ∀ stop, (readBody ls).2.1 = some stop → l.rawStop < stop := by
  cases ls with
  | nil =>
    refine ⟨.nil, fun stop hstop => ?_⟩
    cases hstop
  | cons first rest =>
    have hfirst := h.rawStop_lt first List.mem_cons_self
    have hbelow : ∀ m ∈ first :: rest, first.start ≤ m.start := by
      refine List.forall_mem_cons.2 ⟨Nat.le_refl _, fun m hm => ?_⟩
      have hlt := h.tail.rawStop_lt m hm
      have hle : first.start ≤ first.rawStop := Nat.le_add_right _ _
      omega
    have hstands := h.tail.head
    -- The body is read from where its first line begins.
    have hread := readBody_read h.tail hbelow (fun m hm => (h.tail.stands m hm).le_byteSize) hstands.isBoundary
      (Nat.le_refl _) (Nat.le_trans (Nat.le_add_right _ _) hstands.le_byteSize)
    refine ⟨hread.placed.kept.mono hfirst hread.stop_le, fun stop hstop => ?_⟩
    have hle := hread.le_stop
    rw [hstop] at hle
    exact Nat.lt_of_lt_of_le hfirst hle

/-! ## Templates -/

/-- No two names in a template touch: its own, those in its segments, and those in brackets. -/
structure Template.NamesApart (t : Template) : Prop where
  inside : t.span.Covers t.nameSpan
  segments : ∀ s ∈ t.segments, t.nameSpan.stop < s.span.start
  references : ∀ r ∈ t.references, t.nameSpan.stop < r.span.start
  apart : t.references.Pairwise fun r r' => r.span.stop < r'.span.start

theorem Template.FromLines.namesApart (h : t.FromLines cs) : t.NamesApart := by
  obtain ⟨l, header, doc, bodyLines, hlines, hread, rfl⟩ := h
  obtain ⟨hstart, hstop⟩ := readHeader_nameSpan_within hread
  obtain ⟨hkept, hbehind⟩ := readBody_below hlines
  have hraw := l.contentStop_le_rawStop
  have hsegments : (templateOf l header doc bodyLines).1.segments = (readBody bodyLines).1.keptSegments :=
    Template.segments_eq hkept.segments_ordered
  refine ⟨⟨hstart, ?_⟩, fun s hs => ?_, fun r hr => ?_, hkept.references_apart⟩
  · -- A template without anything in its body ends with its header line.
    have hend : l.contentStop ≤ (readBody bodyLines).2.1.getD l.stop := by
      cases hbody : (readBody bodyLines).2.1 with
      | none => exact l.contentStop_le_stop
      | some stop =>
        have hlt := hbehind stop hbody
        show l.contentStop ≤ stop
        omega
    exact Nat.le_trans hstop (Nat.le_trans hend (Nat.le_max_right _ _))
  · rw [hsegments] at hs
    have hbelow := (hkept.segments_located s hs).2.1
    show header.nameSpan.stop < s.span.start
    omega
  · have hbelow := (hkept.references_located r hr).2.1
    show header.nameSpan.stop < r.span.start
    omega

/-- **No two names in a template of a file touch.** -/
theorem parse_namesApart (text : String) : ∀ t ∈ (parse text).file.templates, t.NamesApart :=
  fun t ht => (parse_lines text t ht).namesApart

end LgLang.Syntax
