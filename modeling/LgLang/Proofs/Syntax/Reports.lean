import LgLang.Proofs.Syntax.Bullets
import LgLang.Proofs.Syntax.Headings
import LgLang.Proofs.Syntax.Properties

/-!
# What a file tells of its headings

The templates of a file are those of its headings, in the same order. The findings about the body of a heading are among
those of the file, and all others lie outside its body lines (`Parsed.OfHeadings`, `parse_ofHeadings`).
-/

namespace LgLang.Syntax

open Text (Line Consecutive byteSize)

variable {seen : Bool} {doc : List String} {cs : List Char} {lo hi : Nat} {l : Line} {above above' ls ms : List Line}
  {item : BodyItem} {items : List BodyItem} {place : Span} {p : Parsed} {h : Heading}

/-! ## Findings about bodies -/

theorem BodyItem.Concerns.covers (h : item.Concerns place) : item.span.Covers place := by
  rcases h with rfl | h
  · exact .refl _
  · cases item with
    | bullet start text => exact Passage.covers_token (p := ⟨start, text⟩) h
    | stray span => cases h

theorem BodyItem.span_start (item : BodyItem) : item.span.start = item.start := by
  cases item <;> rfl

theorem BodyItem.span_stop (item : BodyItem) : item.span.stop = item.stop := by
  cases item <;> rfl

theorem Grouped.le_start (h : Grouped cs hi lo items) : ∀ item ∈ items, lo ≤ item.start := by
  induction h with
  | nil => exact fun _ hmem => absurd hmem List.not_mem_nil
  | @cons lo first items _ hlo _ _ ih =>
    have hfirst := first.start_le_stop
    refine List.forall_mem_cons.2 ⟨hlo, fun item hitem => ?_⟩
    have hstart := ih item hitem
    omega

theorem Grouped.pairwise (h : Grouped cs hi lo items) : items.Pairwise fun i j => i.span.Before j.span := by
  induction h with
  | nil => exact .nil
  | cons _ _ _ hrest ih =>
    refine List.pairwise_cons.2 ⟨fun item hitem => ?_, ih⟩
    have hstart := hrest.le_start item hitem
    rwa [Span.Before, BodyItem.span_start, BodyItem.span_stop]

/-- What a group covers lies between the offsets of the groups. -/
theorem Grouped.within (h : Grouped cs hi lo items) (hitem : item ∈ items) (hplace : item.span.Covers place) :
    Within lo hi place := by
  obtain ⟨hstart, hstop⟩ := hplace
  rw [item.span_start] at hstart
  rw [item.span_stop] at hstop
  exact ⟨Nat.le_trans (h.le_start item hitem) hstart, Nat.le_trans hstop (h.le_stop item hitem).2⟩

/-- **The findings about a body lie in its lines.** -/
theorem readBody_within (h : Consecutive cs ls) (hlo : ∀ l ∈ ls, lo ≤ l.start) (hhi : ∀ l ∈ ls, l.rawStop ≤ hi) :
    ∀ f ∈ (readBody ls).2.2, Within lo hi f.span := by
  unfold readBody
  split
  · exact List.forall_mem_nil _
  · next first rest hfirst =>
    split
    · intro f hf
      obtain ⟨l, hl, hcovers⟩ := structuredBody_covers first rest f hf
      have hmem : l ∈ ls := (List.dropWhile_sublist _).subset (hfirst ▸ hl)
      have hstart := l.start_le_contentStart
      have hstop := l.contentStop_le_rawStop
      have hcovered : l.contentStart ≤ f.span.start ∧ f.span.stop ≤ l.contentStop := hcovers
      have hl := hlo l hmem
      have hl' := hhi l hmem
      exact ⟨by omega, by omega⟩
    · intro f hf
      obtain ⟨item, hitem, hconcerns⟩ := bulletBody_concerns (groupLines ls) f hf
      exact (groupLines_grouped h hlo hhi).within hitem hconcerns.covers

/-! ## Findings about single lines -/

theorem readImport_error_span {inHeader : Bool} {finding : Diagnostic} (h : readImport l inHeader = .error finding) :
    finding.span = contentSpan l := by
  unfold readImport at h
  dsimp only at h
  split at h
  · cases h
    rfl
  · split at h
    · cases h
      rfl
    · split at h
      · cases h
        rfl
      · cases h

theorem readImport_ok_span {inHeader : Bool} {i : Import} (h : readImport l inHeader = .ok i) : i.span = contentSpan l := by
  unfold readImport at h
  dsimp only at h
  split at h
  · cases h
  · split at h
    · cases h
    · split at h
      · cases h
      · cases h
        rfl

theorem lateImport_span (i : Import) : ∀ f ∈ lateImport i, f.span = i.span := by
  unfold lateImport
  split
  · exact List.forall_mem_nil _
  · exact List.forall_mem_singleton.2 rfl

theorem readHeader_error_span {finding : Diagnostic} (h : readHeader l = .error finding) :
    finding.span = contentSpan l := by
  unfold readHeader at h
  dsimp only at h
  split at h
  · cases h
    rfl
  · split at h
    · cases h
      rfl
    · cases h

/-! ## Files -/

/-- The place lies above some lines, or below them. -/
def Outside (ls : List Line) (place : Span) : Prop :=
  (∀ l ∈ ls, place.stop < l.start) ∨ ∀ l ∈ ls, l.rawStop < place.start

/-- What was read from lines that stand below others gives account of the headings in them. -/
structure Parsed.OfHeadings (above ls : List Line) (p : Parsed) : Prop where
  templates : p.file.templates = (headingsFrom above ls).map Heading.template
  told : ∀ h ∈ headingsFrom above ls, ∀ f ∈ h.findings, f ∈ p.diagnostics
  others : ∀ h ∈ headingsFrom above ls, ∀ f ∈ p.diagnostics, f ∈ h.findings ∨ Outside h.bodyLines f.span
  below : ∀ n, (∀ l ∈ ls, n ≤ l.start) → ∀ f ∈ p.diagnostics, n ≤ f.span.start

/-! ### The lines of a heading -/

theorem exists_append_of_mem_headings (hh : h ∈ headingsFrom above ls) : ∃ before, ls = before ++ h.line :: h.below := by
  induction ls generalizing above with
  | nil => exact absurd hh List.not_mem_nil
  | cons l ls ih =>
    have hrest : h ∈ headingsFrom (above ++ [l]) ls → ∃ before, l :: ls = before ++ h.line :: h.below := by
      intro hmem
      obtain ⟨before, heq⟩ := ih hmem
      exact ⟨l :: before, congrArg (l :: ·) heq⟩
    cases hread : readHeader l with
    | error finding =>
      rw [headingsFrom_of_error hread] at hh
      exact hrest hh
    | ok header =>
      rw [headingsFrom_of_ok hread] at hh
      rcases List.mem_cons.1 hh with rfl | hmem
      · exact ⟨[], rfl⟩
      · exact hrest hmem

namespace Heading

/-- The lines below a heading are those of its body, comments and what is read next. -/
theorem append_below (h : Heading) :
    ∃ comments, h.line :: h.below = (h.line :: h.bodyLines) ++ (comments ++ h.below.dropWhile (!isBoundary ·)) :=
  ⟨_, append_bodyLines rfl⟩

theorem bodyLines_subset_below (h : Heading) : ∀ m ∈ h.bodyLines, m ∈ h.below := by
  obtain ⟨comments, heq⟩ := h.append_below
  obtain ⟨-, hbelow⟩ := List.cons.inj heq
  intro m hm
  rw [hbelow]
  exact List.mem_append_left _ hm

theorem consecutive_bodyLines (hh : h ∈ headingsFrom above ls) (hls : Consecutive cs ls) :
    Consecutive cs h.bodyLines := by
  obtain ⟨before, rfl⟩ := exists_append_of_mem_headings hh
  obtain ⟨comments, heq⟩ := h.append_below
  have hbelow := hls.right
  rw [heq] at hbelow
  exact hbelow.left.tail

theorem bodyLines_subset (hh : h ∈ headingsFrom above ls) : ∀ m ∈ h.bodyLines, m ∈ ls := by
  obtain ⟨before, rfl⟩ := exists_append_of_mem_headings hh
  intro m hm
  exact List.mem_append_right _ (List.mem_cons_of_mem _ (h.bodyLines_subset_below m hm))

/-- The lines that are read next stand below the body. -/
theorem rawStop_lt (hlines : Consecutive cs (h.line :: h.below)) :
    ∀ m ∈ h.bodyLines, ∀ n ∈ h.below.dropWhile (!isBoundary ·), m.rawStop < n.start := by
  obtain ⟨comments, heq⟩ := h.append_below
  rw [heq] at hlines
  intro m hm n hn
  exact (List.pairwise_append.1 hlines.pairwise).2.2 m (List.mem_cons_of_mem _ hm) n (List.mem_append_right _ hn)

theorem findings_within (hlines : Consecutive cs (h.line :: h.below)) (hlo : ∀ m ∈ h.bodyLines, lo ≤ m.start)
    (hhi : ∀ m ∈ h.bodyLines, m.rawStop ≤ hi) : ∀ f ∈ h.findings, Within lo hi f.span := by
  obtain ⟨comments, heq⟩ := h.append_below
  rw [heq] at hlines
  exact readBody_within hlines.left.tail hlo hhi

end Heading

/-! ### Going on -/

namespace Parsed.OfHeadings

theorem empty : Parsed.empty.OfHeadings above [] where
  templates := rfl
  told := fun _ hh => absurd hh List.not_mem_nil
  others := fun _ hh => absurd hh List.not_mem_nil
  below := fun _ _ _ hf => absurd hf List.not_mem_nil

theorem consImport (hp : p.OfHeadings above ls) (i : Import) : (p.consImport i).OfHeadings above ls :=
  ⟨hp.templates, hp.told, hp.others, hp.below⟩

/-- Lines without a heading, with findings about the first of them. -/
theorem pass {findings : List Diagnostic} (hp : p.OfHeadings above' ms)
    (hheadings : headingsFrom above (l :: ls) = headingsFrom above' ms) (hms : ms.Sublist ls)
    (hlines : Consecutive cs (l :: ls)) (hfindings : ∀ f ∈ findings, f.span = contentSpan l) :
    (p.after findings).OfHeadings above (l :: ls) where
  templates := hp.templates.trans (congrArg _ hheadings.symm)
  told := by
    rw [hheadings]
    exact fun h hh f hf => List.mem_append_right _ (hp.told h hh f hf)
  others := by
    rw [hheadings]
    intro h hh f hf
    rcases List.mem_append.1 hf with hf | hf
    · refine Or.inr (Or.inl fun m hm => ?_)
      have hbelow := hlines.rawStop_lt m (hms.subset (Heading.bodyLines_subset hh m hm))
      rw [hfindings f hf]
      exact Nat.lt_of_le_of_lt l.contentStop_le_rawStop hbelow
    · exact hp.others h hh f hf
  below := by
    intro n hn f hf
    obtain ⟨hl, hls⟩ := List.forall_mem_cons.1 hn
    rcases List.mem_append.1 hf with hf | hf
    · rw [hfindings f hf]
      exact Nat.le_trans hl l.start_le_contentStart
    · exact hp.below n (fun m hm => hls m (hms.subset hm)) f hf

/-- A line that is no header. -/
theorem next {k : LineKind} {findings : List Diagnostic} (hp : p.OfHeadings (above ++ [l]) ls) (hkind : kindOf l = k)
    (hk : k ≠ .header) (hlines : Consecutive cs (l :: ls)) (hfindings : ∀ f ∈ findings, f.span = contentSpan l) :
    (p.after findings).OfHeadings above (l :: ls) :=
  hp.pass (headingsFrom_cons hkind hk) (.refl ls) hlines hfindings

/-- A line that is reported and the lines up to the next boundary, which are passed over with it. -/
theorem skip {finding : Diagnostic}
    (hp : p.OfHeadings (above ++ [l] ++ ls.takeWhile (!isBoundary ·)) (ls.dropWhile (!isBoundary ·)))
    (hheadings : headingsFrom above (l :: ls) = headingsFrom (above ++ [l]) ls) (hlines : Consecutive cs (l :: ls))
    (hfinding : finding.span = contentSpan l) : (p.after [finding]).OfHeadings above (l :: ls) :=
  hp.pass (hheadings.trans (headingsFrom_dropWhile _ _)) (List.dropWhile_sublist _) hlines
    (List.forall_mem_singleton.2 hfinding)

/-- A heading with the lines of its body. -/
theorem heading (hread : readHeader h.line = .ok h.header)
    (hp : p.OfHeadings (h.above ++ [h.line] ++ h.below.takeWhile (!isBoundary ·)) (h.below.dropWhile (!isBoundary ·)))
    (hlines : Consecutive cs (h.line :: h.below)) :
    ((p.consTemplate h.template).after h.findings).OfHeadings h.above (h.line :: h.below) := by
  have hheadings : headingsFrom h.above (h.line :: h.below) = h ::
      headingsFrom (h.above ++ [h.line] ++ h.below.takeWhile (!isBoundary ·)) (h.below.dropWhile (!isBoundary ·)) := by
    rw [headingsFrom_of_ok hread, headingsFrom_dropWhile]
  have hbelow : ∀ m ∈ h.below, h.line.rawStop < m.start := hlines.rawStop_lt
  have hnext : ∀ n ∈ h.below.dropWhile (!isBoundary ·), n ∈ h.below := fun n hn => (List.dropWhile_sublist _).subset hn
  refine ⟨?_, ?_, ?_, ?_⟩
  · rw [hheadings, List.map_cons, ← hp.templates]
    rfl
  · rw [hheadings]
    refine List.forall_mem_cons.2 ⟨fun f hf => List.mem_append_left _ hf, fun g hg f hf => ?_⟩
    exact List.mem_append_right _ (hp.told g hg f hf)
  · rw [hheadings]
    refine List.forall_mem_cons.2 ⟨fun f hf => ?_, fun g hg f hf => ?_⟩
    · -- What is read next is about lines below this body.
      refine (List.mem_append.1 hf).imp_right fun hf => Or.inr fun m hm => ?_
      exact hp.below (m.rawStop + 1) (Heading.rawStop_lt hlines m hm) f hf
    · rcases List.mem_append.1 hf with hf | hf
      · -- The findings about this body lie above the body of every other heading.
        refine Or.inr (Or.inl fun n hn => ?_)
        have hmem := Heading.bodyLines_subset hg n hn
        have hpos := hbelow n (hnext n hmem)
        have hwithin : Within 0 (n.start - 1) f.span := Heading.findings_within hlines (fun _ _ => Nat.zero_le _)
          (fun m hm => Nat.le_sub_one_of_lt (Heading.rawStop_lt hlines m hm n hmem)) f hf
        have hstop : f.span.stop ≤ n.start - 1 := hwithin.2
        omega
      · exact hp.others g hg f hf
  · intro n hn f hf
    obtain ⟨-, hrest⟩ := List.forall_mem_cons.1 hn
    rcases List.mem_append.1 hf with hf | hf
    · have hwithin := Heading.findings_within hlines (fun m hm => hrest m (h.bodyLines_subset_below m hm))
        (fun m hm => (hlines.stands m (List.mem_cons_of_mem _ (h.bodyLines_subset_below m hm))).le_byteSize) f hf
      exact hwithin.1
    · exact hp.below n (fun m hm => hrest m (hnext m hm)) f hf

end Parsed.OfHeadings

/-- What is read below some lines gives account of the headings there. -/
theorem parseLines_ofHeadings (hdoc : Resumes above doc ls) (hlines : Consecutive cs ls) :
    (parseLines seen doc ls).OfHeadings above ls := by
  fun_induction parseLines seen doc ls generalizing above with
  | case1 => exact .empty
  | case2 seen doc l rest _ hkind ih =>
    exact (ih (hdoc.blank hkind) hlines.tail).next hkind LineKind.noConfusion hlines (List.forall_mem_nil _)
  | case3 seen doc l rest _ hkind ih =>
    exact (ih (hdoc.comment hkind) hlines.tail).next hkind LineKind.noConfusion hlines (List.forall_mem_nil _)
  | case4 seen doc l rest _ hkind finding hread ih =>
    exact (ih (.importLine hkind) hlines.tail).next hkind LineKind.noConfusion hlines
      (List.forall_mem_singleton.2 (readImport_error_span hread))
  | case5 seen doc l rest _ hkind i hread ih =>
    refine ((ih (.importLine hkind) hlines.tail).consImport i).next hkind LineKind.noConfusion hlines fun f hf => ?_
    rw [lateImport_span i f hf, readImport_ok_span hread]
  | case6 seen doc l rest _ hkind finding hread ih =>
    have hpassing : footing (above ++ [l]) = .passing := by
      rw [footing_append_singleton, Footing.next_header_error _ hkind hread]
    exact (ih (.passing hpassing) (hlines.tail.dropWhile _)).skip (headingsFrom_of_error hread) hlines
      (readHeader_error_span hread)
  | case7 seen doc l rest _ hkind header hread bodyLines comments hbody template findings htemplate ih =>
    have hbelow : Resumes (above ++ [l] ++ rest.takeWhile (!isBoundary ·)) _ (rest.dropWhile (!isBoundary ·)) :=
      .body hread
    rw [hbody] at hbelow
    have hrest := ih hbelow (hlines.tail.dropWhile _)
    have hmade : (Heading.mk above l header rest).read = (template, findings) := by
      rw [Heading.read, Heading.bodyLines, ← hdoc.doc, hbody, htemplate]
    have hheading := Parsed.OfHeadings.heading (h := ⟨above, l, header, rest⟩) hread hrest hlines
    rwa [Heading.template, Heading.findings, hmade] at hheading
  | case8 seen doc l rest _ hkind ih =>
    exact (ih (hdoc.stray (Or.inl hkind)) (hlines.tail.dropWhile _)).skip (headingsFrom_cons hkind LineKind.noConfusion)
      hlines rfl
  | case9 seen doc l rest _ hkind ih =>
    exact (ih (hdoc.stray (Or.inr hkind)) (hlines.tail.dropWhile _)).skip (headingsFrom_cons hkind LineKind.noConfusion)
      hlines rfl

/-- **What is read of a file gives account of its headings.** -/
theorem parse_ofHeadings (text : String) : (parse text).OfHeadings [] (Text.lines text.toList) :=
  parseLines_ofHeadings ⟨rfl, Or.inl rfl⟩ (Text.consecutive_lines text.toList)

/-- **The templates of a file are those of its headings.** -/
theorem parse_templates (text : String) : (parse text).file.templates = (headings text).map Heading.template :=
  (parse_ofHeadings text).templates

end LgLang.Syntax
