import LgLang.Proofs.Syntax.Reports

/-!
# What becomes of the expressions of a template

Every expression in a bullet or in the value of a property should be a segment of its template, or else lie in the place
of some finding, so that nobody has to wonder why nothing is said of it (`ExpressionsKept`).

Properties and bullets of plain text keep all their expressions, and a bullet that is dropped is reported. But of the
bullet of a keyword with an expression only the first one is kept. Nothing is said of the others unless the bullet is
reported as a whole, as one that is misplaced or opens an empty branch. So expressions are kept exactly when every such
bullet with more than one expression is reported (`expressionsKept_iff`).
-/

namespace LgLang.Syntax

open Text (Line Consecutive byteSize)

variable {cs : List Char} {ls : List Line} {h : Heading} {p q : Passage} {s : Segment}

/-- Every expression in the bullets and properties of a template is a segment of the template, or a finding covers it. -/
def ExpressionsKept (text : String) : Prop :=
  ∀ h ∈ headings text, ∀ p ∈ bullets h.bodyLines ++ propertyValues h.bodyLines, ∀ s ∈ p.segments,
    s ∈ h.template.segments ∨ ∃ f ∈ (parse text).diagnostics, f.span.Covers s.span

/-! ## The two forms of bodies -/

theorem groupLines_of_silent (hls : ∀ l ∈ ls, isSilent l = true) : groupLines ls = [] := by
  induction ls with
  | nil => rfl
  | cons l ls ih =>
    obtain ⟨hl, hls⟩ := List.forall_mem_cons.1 hls
    have hrest : groupFrom none ls = [] := ih hls
    unfold isSilent at hl
    rw [groupLines, groupFrom]
    split at hl
    · next hkind => simp only [hkind, hrest]; rfl
    · next hkind => simp only [hkind, hrest]; rfl
    · cases hl

theorem readBody_of_bullets (hform : isStructured ls = false) :
    (readBody ls).1 = (bulletBody (groupLines ls)).1 ∧ (readBody ls).2.2 = (bulletBody (groupLines ls)).2 := by
  unfold readBody
  cases hstart : ls.dropWhile isSilent with
  | nil =>
    rw [groupLines_of_silent (List.dropWhile_eq_nil_iff.1 hstart)]
    exact ⟨rfl, rfl⟩
  | cons first rest =>
    rw [isStructured, hstart] at hform
    simp only [hform]
    exact ⟨rfl, rfl⟩

theorem readBody_of_properties (hform : isStructured ls = true) :
    ∃ first rest, ls.dropWhile isSilent = first :: rest ∧ (readBody ls).1 = (structuredBody first rest).1 ∧
      (readBody ls).2.2 = (structuredBody first rest).2.2 := by
  rw [isStructured] at hform
  unfold readBody
  cases hstart : ls.dropWhile isSilent with
  | nil =>
    rw [hstart] at hform
    cases hform
  | cons first rest =>
    rw [hstart] at hform
    simp only [hform]
    exact ⟨first, rest, rfl, rfl, rfl⟩

theorem mem_bullets : p ∈ bullets ls ↔ isStructured ls = false ∧ .bullet p.start p.text ∈ groupLines ls := by
  unfold bullets
  split
  · next hform => simp [hform]
  · next hform =>
    have hform' : isStructured ls = false := by simpa using hform
    simp only [hform', true_and, List.mem_filterMap]
    constructor
    · rintro ⟨item, hitem, hpassage⟩
      cases item with
      | stray span => cases hpassage
      | bullet start text =>
        obtain rfl := Option.some.inj hpassage
        exact hitem
    · intro hitem
      exact ⟨_, hitem, rfl⟩

theorem mem_segments {t : Template} : s ∈ t.segments ↔ s ∈ t.body.keptSegments :=
  List.mem_mergeSort

/-! ## Bullets of a heading -/

namespace Heading

/-- **Every bullet keeps its expressions in the template or is reported as a whole.** -/
theorem bullet_keeps (hp : p ∈ bullets h.bodyLines) :
    (∀ s ∈ p.kept, s ∈ h.template.segments) ∨ ∃ f ∈ h.findings, f.span = p.span := by
  obtain ⟨hform, hitem⟩ := mem_bullets.1 hp
  obtain ⟨hbody, hfindings⟩ := readBody_of_bullets hform
  have hkeeps := bulletBody_keeps (groupLines h.bodyLines) p (List.mem_filterMap.2 ⟨_, hitem, rfl⟩)
  rw [← hbody, ← hfindings] at hkeeps
  exact hkeeps.imp_left fun hkept s hs => mem_segments.2 (hkept s hs)

/-- **Every property keeps its expressions in the template, or its line is reported.** -/
theorem property_keeps (hp : p ∈ propertyValues h.bodyLines) :
    (∀ s ∈ p.segments, s ∈ h.template.segments) ∨ ∃ f ∈ h.findings, f.span.Covers p.span := by
  unfold propertyValues at hp
  split at hp
  · next hform =>
    obtain ⟨first, rest, hfirst, hbody, hfindings⟩ := readBody_of_properties hform
    rw [hfirst] at hp
    obtain ⟨l, hl, hvalue⟩ := List.mem_filterMap.1 hp
    have hkeeps := structuredBody_keeps first rest l hl p hvalue
    rw [← hbody, ← hfindings] at hkeeps
    rcases hkeeps with hkept | ⟨f, hf, hspan⟩
    · exact Or.inl fun s hs => mem_segments.2 (hkept s hs)
    · exact Or.inr ⟨f, hf, hspan ▸ covers_propertyValue hvalue⟩
  · cases hp

/-- **A template has no other expressions than those of its bullets and properties.** -/
theorem segments_subset : ∀ s ∈ h.template.segments,
    ∃ p ∈ bullets h.bodyLines ++ propertyValues h.bodyLines, s ∈ p.segments := by
  intro s hs
  have hkept : s ∈ (readBody h.bodyLines).1.keptSegments := mem_segments.1 hs
  cases hform : isStructured h.bodyLines with
  | false =>
    rw [(readBody_of_bullets hform).1] at hkept
    obtain ⟨p, hp, hsp⟩ := bulletBody_kept_subset _ s hkept
    refine ⟨p, List.mem_append_left _ ?_, Passage.kept_subset p s hsp⟩
    rw [bullets, hform]
    exact hp
  | true =>
    obtain ⟨first, rest, hfirst, hbody, -⟩ := readBody_of_properties hform
    rw [hbody] at hkept
    obtain ⟨p, hp, hsp⟩ := structuredBody_kept_subset first rest s hkept
    refine ⟨p, List.mem_append_right _ ?_, hsp⟩
    rw [propertyValues, if_pos hform, hfirst]
    exact hp

theorem bullets_pairwise (hlines : Consecutive cs h.bodyLines) :
    (groupLines h.bodyLines).Pairwise fun i j => i.span.Before j.span := by
  have hgrouped : Grouped cs (byteSize cs) 0 (groupLines h.bodyLines) :=
    groupLines_grouped hlines (fun _ _ => Nat.zero_le _) fun l hl => (hlines.stands l hl).le_byteSize
  exact hgrouped.pairwise

/-- Of two bullets only one covers an expression. -/
theorem eq_of_mem_segments (hlines : Consecutive cs h.bodyLines) (hp : p ∈ bullets h.bodyLines)
    (hq : q ∈ bullets h.bodyLines) (hs : s ∈ p.segments) (hs' : s ∈ q.segments) : p = q := by
  have heq := Span.eq_of_covers (bullets_pairwise hlines) (mem_bullets.1 hp).2 (mem_bullets.1 hq).2
    (Passage.covers_segment hs) (Passage.covers_segment hs') (Passage.segment_lt hs)
  cases p
  cases q
  cases heq
  rfl

/-- An expression in a bullet that its template has is one of those that are kept of the bullet. -/
theorem mem_kept (hlines : Consecutive cs h.bodyLines) (hp : p ∈ bullets h.bodyLines) (hs : s ∈ p.segments)
    (hkept : s ∈ h.template.segments) : s ∈ p.kept := by
  obtain ⟨hform, -⟩ := mem_bullets.1 hp
  have hbody : s ∈ (bulletBody (groupLines h.bodyLines)).1.keptSegments := by
    rw [← (readBody_of_bullets hform).1]
    exact mem_segments.1 hkept
  obtain ⟨q, hq, hsq⟩ := bulletBody_kept_subset _ s hbody
  have hq' : q ∈ bullets h.bodyLines := by
    rw [bullets, hform]
    exact hq
  have hs' : s ∈ q.segments := Passage.kept_subset q s hsq
  rwa [eq_of_mem_segments hlines hp hq' hs hs']

/-- A finding that covers an expression in a bullet is about the bullet as a whole. -/
theorem span_eq_of_covers (hlines : Consecutive cs h.bodyLines) (hp : p ∈ bullets h.bodyLines) (hs : s ∈ p.segments)
    {f : Diagnostic} (hf : f ∈ h.findings) (hcovers : f.span.Covers s.span) : f.span = p.span := by
  obtain ⟨hform, hitem⟩ := mem_bullets.1 hp
  have hf' : f ∈ (bulletBody (groupLines h.bodyLines)).2 := by
    rw [← (readBody_of_bullets hform).2]
    exact hf
  obtain ⟨item, hitem', hconcerns⟩ := bulletBody_concerns _ f hf'
  have heq := Span.eq_of_covers (bullets_pairwise hlines) hitem' hitem (hconcerns.covers.trans hcovers)
    (Passage.covers_segment hs) (Passage.segment_lt hs)
  rw [heq] at hconcerns
  rcases hconcerns with hspan | hunterminated
  · exact hspan
  · exact absurd hcovers (Passage.not_covers_segment hunterminated hs)

/-- A place outside the lines of a body covers no expression in its bullets. -/
theorem not_covers_of_outside (hlines : Consecutive cs h.bodyLines) (hp : p ∈ bullets h.bodyLines)
    (hs : s ∈ p.segments) {place : Span} (hplace : Outside h.bodyLines place) : ¬ place.Covers s.span := by
  rintro ⟨hstart, hstop⟩
  obtain ⟨-, hitem⟩ := mem_bullets.1 hp
  have hcovers : (BodyItem.bullet p.start p.text).span.Covers s.span := Passage.covers_segment hs
  have hlt := Passage.segment_lt hs
  rcases hplace with habove | hbelow
  · have hgrouped : Grouped cs (byteSize cs) (place.stop + 1) (groupLines h.bodyLines) :=
      groupLines_grouped hlines habove fun l hl => (hlines.stands l hl).le_byteSize
    have hlo := (hgrouped.within hitem hcovers).1
    omega
  · have hgrouped : Grouped cs place.start 0 (groupLines h.bodyLines) :=
      groupLines_grouped hlines (fun _ _ => Nat.zero_le _) fun l hl => Nat.le_of_lt (hbelow l hl)
    have hhi := (hgrouped.within hitem hcovers).2
    omega

end Heading

/-! ## Files -/

/-- **Expressions are kept exactly when every bullet of a keyword with an expression that has more than one of them is
reported as a whole.** -/
theorem expressionsKept_iff (text : String) :
    ExpressionsKept text ↔
      ∀ h ∈ headings text, ∀ p ∈ bullets h.bodyLines, p.takesExpression = true → 1 < p.segments.length →
        ∃ f ∈ (parse text).diagnostics, f.span = p.span := by
  have hread := parse_ofHeadings text
  constructor
  · intro hkept h hh p hp htakes hmany
    have hlines := Heading.consecutive_bodyLines hh (Text.consecutive_lines text.toList)
    obtain ⟨first, second, rest, hsegments⟩ : ∃ first second rest, p.segments = first :: second :: rest := by
      match hsegments : p.segments with
      | [] => simp [hsegments] at hmany
      | [_] => simp [hsegments] at hmany
      | first :: second :: rest => exact ⟨first, second, rest, rfl⟩
    have hsecond : second ∈ p.segments := by simp [hsegments]
    rcases hkept h hh p (List.mem_append_left _ hp) second hsecond with hmem | ⟨f, hf, hcovers⟩
    · -- Only the first expression is kept, and the second stands behind it.
      have hkeeps := Heading.mem_kept hlines hp hsecond hmem
      rw [Passage.kept, if_pos htakes, hsegments] at hkeeps
      have heq : second = first := List.mem_singleton.1 hkeeps
      have hpairwise := p.segments_pairwise
      rw [hsegments, heq] at hpairwise
      have hbefore : first.span.stop ≤ first.span.start := (List.pairwise_cons.1 hpairwise).1 first List.mem_cons_self
      have hlt := Passage.segment_lt hsecond
      rw [heq] at hlt
      omega
    · -- No finding about other lines can cover it.
      rcases hread.others h hh f hf with hown | houtside
      · exact ⟨f, hf, Heading.span_eq_of_covers hlines hp hsecond hown hcovers⟩
      · exact absurd hcovers (Heading.not_covers_of_outside hlines hp hsecond houtside)
  · intro hreported h hh p hp s hs
    rcases List.mem_append.1 hp with hp | hp
    · rcases Heading.bullet_keeps hp with hkept | ⟨f, hf, hspan⟩
      · by_cases hmany : p.takesExpression = true ∧ 1 < p.segments.length
        · obtain ⟨f, hf, hspan⟩ := hreported h hh p hp hmany.1 hmany.2
          exact Or.inr ⟨f, hf, hspan ▸ Passage.covers_segment hs⟩
        · refine Or.inl (hkept s ?_)
          rw [Passage.kept]
          split
          · next htakes =>
            rw [List.take_of_length_le (Nat.not_lt.1 fun hlt => hmany ⟨htakes, hlt⟩)]
            exact hs
          · exact hs
      · exact Or.inr ⟨f, hread.told h hh f hf, hspan ▸ Passage.covers_segment hs⟩
    · refine (Heading.property_keeps hp).imp (fun hkept => hkept s hs) ?_
      rintro ⟨f, hf, hcovers⟩
      exact ⟨f, hread.told h hh f hf, hcovers.trans (Passage.covers_segment hs)⟩

/-- Of two expressions behind IF the second is lost. -/
theorem not_expressionsKept_secondCondition : ¬ ExpressionsKept "# T\n- IF: $\x7ba\x7d $\x7bb\x7d\n- x" := by
  unfold ExpressionsKept
  decide +kernel

end LgLang.Syntax
