import LgLang.Proofs.Sorting
import LgLang.Proofs.Syntax.Located
import Mathlib.Order.Interval.Set.Defs

/-!
# The segment at an offset

An editor asks for the segment under its cursor. The search looks only into templates whose span touches the offset,
and takes the first segment there that touches it. It finds the same as a look at all segments of the file would
(`segmentAt?_earliest`): a template covers its segments, so that none is hidden with a template that is passed over, and
templates do not touch, so that at most one of them is looked into. An offset between two segments that touch is on
both, and the earlier one is taken.

A body of any form has the segments of its texts and those behind its keywords (`Body.HasSegment`). Inside of its
expression every one of them is found (`segmentAt?_of_content`), so that an editor can show something for each.
-/

namespace LgLang.Syntax

variable {cs : List Char} {offset : Nat} {b : Body} {t : Template} {f : File} {p : Parsed} {s s' : Segment}

/-! ## The segments of a file -/

/-- The segment is in a text of the body or stands behind one of its keywords. -/
inductive Body.HasSegment (s : Segment) : Body → Prop where
  | line {ls : List TextLine} {l : TextLine} (hl : l ∈ ls) (hs : s ∈ l.segments) : HasSegment s (.text ls)
  | property {b : StructuredBody} {p : Property} (hp : p ∈ b.properties) (hs : s ∈ p.value.segments) :
    HasSegment s (.structured b)
  | condition {bs : List Branch} {b : Branch} (hb : b ∈ bs) (hs : b.condition = some s) : HasSegment s (.conditional bs)
  | branch {bs : List Branch} {b : Branch} {l : TextLine} (hb : b ∈ bs) (hl : l ∈ b.body) (hs : s ∈ l.segments) :
    HasSegment s (.conditional bs)
  | subject {b : SwitchBody} (hs : b.subject = some s) : HasSegment s (.switch b)
  | value {b : SwitchBody} {c : Case} (hc : c ∈ b.cases) (hs : c.value = some s) : HasSegment s (.switch b)
  | case {b : SwitchBody} {c : Case} {l : TextLine} (hc : c ∈ b.cases) (hl : l ∈ c.body) (hs : s ∈ l.segments) :
    HasSegment s (.switch b)
  | fallback {b : SwitchBody} {d : Fallback} {l : TextLine} (hd : b.fallback = some d) (hl : l ∈ d.body)
    (hs : s ∈ l.segments) : HasSegment s (.switch b)

/-- The segment is one of some template of the file. -/
def File.HasSegment (f : File) (s : Segment) : Prop :=
  ∃ t ∈ f.templates, t.body.HasSegment s

/-- The segments of all templates. -/
def File.segments (f : File) : List Segment :=
  f.templates.flatMap (·.segments)

/-- A body keeps the segments that it has, whatever its form. -/
theorem Body.mem_keptSegments : s ∈ b.keptSegments ↔ b.HasSegment s := by
  constructor
  · intro h
    cases b with
    | text ls =>
      obtain ⟨l, hl, hs⟩ := List.mem_flatMap.1 h
      exact .line hl hs
    | structured b =>
      obtain ⟨p, hp, hs⟩ := List.mem_flatMap.1 h
      exact .property hp hs
    | conditional bs =>
      obtain ⟨b, hb, hs⟩ := List.mem_flatMap.1 h
      rcases List.mem_append.1 hs with hcondition | hbody
      · exact .condition hb (Option.mem_toList.1 hcondition)
      · obtain ⟨l, hl, hs⟩ := List.mem_flatMap.1 hbody
        exact .branch hb hl hs
    | switch b =>
      rcases List.mem_append.1 h with h | hfallback
      · rcases List.mem_append.1 h with hsubject | hcases
        · exact .subject (Option.mem_toList.1 hsubject)
        · obtain ⟨c, hc, hs⟩ := List.mem_flatMap.1 hcases
          rcases List.mem_append.1 hs with hvalue | hbody
          · exact .value hc (Option.mem_toList.1 hvalue)
          · obtain ⟨l, hl, hs⟩ := List.mem_flatMap.1 hbody
            exact .case hc hl hs
      · obtain ⟨l, hl, hs⟩ := List.mem_flatMap.1 hfallback
        cases hd : b.fallback with
        | none =>
          rw [hd] at hl
          exact absurd hl List.not_mem_nil
        | some d =>
          rw [hd] at hl
          exact .fallback hd hl hs
  · intro h
    cases h with
    | line hl hs => exact List.mem_flatMap_of_mem hl hs
    | property hp hs => exact List.mem_flatMap_of_mem hp hs
    | condition hb hs => exact List.mem_flatMap_of_mem hb (List.mem_append_left _ (Option.mem_toList.2 hs))
    | branch hb hl hs => exact List.mem_flatMap_of_mem hb (List.mem_append_right _ (List.mem_flatMap_of_mem hl hs))
    | subject hs =>
      exact List.mem_append_left _ (List.mem_append_left _ (Option.mem_toList.2 hs))
    | value hc hs =>
      refine List.mem_append_left _ (List.mem_append_right _ (List.mem_flatMap_of_mem hc ?_))
      exact List.mem_append_left _ (Option.mem_toList.2 hs)
    | case hc hl hs =>
      refine List.mem_append_left _ (List.mem_append_right _ (List.mem_flatMap_of_mem hc ?_))
      exact List.mem_append_right _ (List.mem_flatMap_of_mem hl hs)
    | fallback hd hl hs =>
      refine List.mem_append_right _ (List.mem_flatMap_of_mem ?_ hs)
      rw [hd]
      exact hl

theorem Template.mem_segments_iff : s ∈ t.segments ↔ t.body.HasSegment s :=
  List.mem_mergeSort.trans Body.mem_keptSegments

theorem File.mem_segments : s ∈ f.segments ↔ f.HasSegment s := by
  rw [File.segments, List.mem_flatMap]
  exact exists_congr fun t => and_congr_right fun _ => Template.mem_segments_iff

/-! ## The order of the segments -/

/-- Two marks stand before the expression of a segment, and one behind it. -/
theorem Segment.Located.contentSpan_ends (h : s.Located cs) :
    s.contentSpan.start = s.span.start + 2 ∧ s.span.stop = s.contentSpan.stop + 1 := by
  have hwhole := (Span.holds_iff.1 h.whole).2
  have hcontent := (Span.holds_iff.1 h.content).2
  rw [byteSize_closed] at hwhole
  have hinside := h.inside
  omega

namespace Parsed.Located

theorem segment_located (h : p.Located cs) (hs : s ∈ p.file.segments) : s.Located cs := by
  obtain ⟨t, ht, hst⟩ := List.mem_flatMap.1 hs
  exact ((h.templates t ht).segments s hst).1

/-- Segments of one template or of two stand in the text one behind the other. -/
theorem segments_ordered (h : p.Located cs) : p.file.segments.Pairwise fun s s' => s.span.Before s'.span := by
  refine List.pairwise_flatMap.2 ⟨fun t ht => (h.templates t ht).segmentsOrdered, ?_⟩
  -- Between two templates, the spans that cover the segments are apart.
  refine h.templatesOrdered.imp_of_mem fun ht hu hlt s hs s' hs' => ?_
  have hcovers := ((h.templates _ ht).segments s hs).2
  have hcovers' := ((h.templates _ hu).segments s' hs').2
  show s.span.stop ≤ s'.span.start
  exact Nat.le_trans hcovers.2 (Nat.le_trans (Nat.le_of_lt hlt) hcovers'.1)

/-- No two segments begin at one offset. -/
theorem segments_rise (h : p.Located cs) : p.file.segments.Pairwise fun s s' => s.span.start < s'.span.start := by
  refine h.segments_ordered.imp_of_mem fun {s s'} hs _ hbefore => ?_
  obtain ⟨hstart, hstop⟩ := (h.segment_located hs).contentSpan_ends
  have hcontent := s.contentSpan.start_le_stop
  have hle : s.span.stop ≤ s'.span.start := hbefore
  omega

end Parsed.Located

/-! ## The templates that are looked into -/

/-- The templates whose span touches the offset. -/
def File.templatesAt (f : File) (offset : Nat) : List Template :=
  f.templates.filter (·.span.contains offset)

/-- The search looks into these templates alone. -/
theorem File.segmentAt?_eq_templatesAt (f : File) (offset : Nat) :
    f.segmentAt? offset = ((f.templatesAt offset).flatMap (·.segments)).find? (·.span.contains offset) :=
  rfl

/-- Nothing is missed of templates that are passed over, if templates cover their segments. -/
theorem find?_segments_of_covers {ts : List Template} (h : ∀ t ∈ ts, ∀ s ∈ t.segments, t.span.Covers s.span) :
    ((ts.filter (·.span.contains offset)).flatMap (·.segments)).find? (·.span.contains offset) =
      (ts.flatMap (·.segments)).find? (·.span.contains offset) := by
  induction ts with
  | nil => rfl
  | cons t ts ih =>
    obtain ⟨ht, hts⟩ := List.forall_mem_cons.1 h
    rw [List.filter_cons, List.flatMap_cons, List.find?_append, ← ih hts]
    split
    · rw [List.flatMap_cons, List.find?_append]
    · next houtside =>
      -- A template that the offset does not touch covers no segment that it touches.
      have hnone : t.segments.find? (·.span.contains offset) = none :=
        List.find?_eq_none.2 fun s hs hin => houtside ((ht s hs).contains hin)
      rw [hnone, Option.none_or]

namespace Parsed.Located

theorem segmentAt?_eq_find? (h : p.Located cs) (offset : Nat) :
    p.file.segmentAt? offset = p.file.segments.find? (·.span.contains offset) := by
  rw [File.segmentAt?_eq_templatesAt]
  exact find?_segments_of_covers fun t ht s hs => ((h.templates t ht).segments s hs).2

/-- No two templates touch an offset. -/
theorem length_templatesAt_le_one (h : p.Located cs) (offset : Nat) : (p.file.templatesAt offset).length ≤ 1 := by
  have hapart : (p.file.templates.map (·.span)).Pairwise Span.Apart :=
    List.pairwise_map.2 (h.templatesOrdered.imp Or.inl)
  have hlength := Span.length_filter_contains_le_one hapart offset
  rwa [List.filter_map, List.length_map] at hlength

end Parsed.Located

/-! ## The segment that is found -/

/-- The segment starts the earliest of those whose span the offset touches, the ends of spans included. -/
structure File.EarliestAt (f : File) (offset : Nat) (s : Segment) : Prop where
  has : f.HasSegment s
  touches : offset ∈ Set.Icc s.span.start s.span.stop
  earliest : ∀ s', f.HasSegment s' → offset ∈ Set.Icc s'.span.start s'.span.stop → s.span.start ≤ s'.span.start

theorem Parsed.Located.segmentAt?_eq_some_iff (h : p.Located cs) :
    p.file.segmentAt? offset = some s ↔ p.file.EarliestAt offset s := by
  rw [h.segmentAt?_eq_find?, Sorting.find?_eq_some_iff_least h.segments_rise]
  constructor
  · rintro ⟨⟨hs, hin⟩, hleast⟩
    refine ⟨File.mem_segments.1 hs, Span.contains_iff.1 hin, fun s' hs' hin' => ?_⟩
    exact hleast s' (File.mem_segments.2 hs') (Span.contains_iff.2 hin')
  · intro hearliest
    refine ⟨⟨File.mem_segments.2 hearliest.has, Span.contains_iff.2 hearliest.touches⟩, fun s' hs' hin' => ?_⟩
    exact hearliest.earliest s' (File.mem_segments.1 hs') (Span.contains_iff.1 hin')

theorem Parsed.Located.segmentAt?_eq_none_iff (h : p.Located cs) :
    p.file.segmentAt? offset = none ↔ ∀ s, p.file.HasSegment s → offset ∉ Set.Icc s.span.start s.span.stop := by
  rw [h.segmentAt?_eq_find?, List.find?_eq_none]
  constructor
  · exact fun hnone s hs hin => hnone s (File.mem_segments.2 hs) (Span.contains_iff.2 hin)
  · exact fun hnone s hs hin => hnone s (File.mem_segments.1 hs) (Span.contains_iff.1 hin)

/-- **Every segment of a file is found at each offset in its expression:** one that touches it ends at its dollar
sign or begins behind its closing brace. -/
theorem Parsed.Located.segmentAt?_of_content (h : p.Located cs) (hs : p.file.HasSegment s)
    (hin : s.contentSpan.contains offset = true) : p.file.segmentAt? offset = some s := by
  have hmem := File.mem_segments.2 hs
  obtain ⟨hstart, hstop⟩ := (h.segment_located hmem).contentSpan_ends
  obtain ⟨hlo, hhi⟩ := Span.contains_iff.1 hin
  refine h.segmentAt?_eq_some_iff.2 ⟨hs, ⟨by omega, by omega⟩, fun s' hs' hin' => ?_⟩
  by_contra hlt
  have hne : s' ≠ s := fun heq => hlt (heq ▸ Nat.le_refl _)
  have hlo' := hin'.1
  have hhi' := hin'.2
  rcases Span.before_or_before h.segments_ordered (File.mem_segments.2 hs') hmem hne with hbefore | hbefore
  · have hle : s'.span.stop ≤ s.span.start := hbefore
    omega
  · have hle : s.span.stop ≤ s'.span.start := hbefore
    omega

/-- **The segment at an offset is the earliest of all segments of the file that the offset touches, and there is none
exactly when it touches none. No template with a segment at the offset is passed over, and never are two templates
looked into.** -/
theorem segmentAt?_earliest (text : String) (offset : Nat) :
    (∀ s, (parse text).file.segmentAt? offset = some s ↔ (parse text).file.EarliestAt offset s) ∧
      ((parse text).file.segmentAt? offset = none ↔
        ∀ s, (parse text).file.HasSegment s → offset ∉ Set.Icc s.span.start s.span.stop) ∧
      (∀ t ∈ (parse text).file.templates, ∀ s, t.body.HasSegment s → offset ∈ Set.Icc s.span.start s.span.stop →
        t ∈ (parse text).file.templatesAt offset) ∧
      ((parse text).file.templatesAt offset).length ≤ 1 := by
  have hlocated : (parse text).Located text.toList := (parse_placed text).toLocated
  refine ⟨fun s => hlocated.segmentAt?_eq_some_iff, hlocated.segmentAt?_eq_none_iff, fun t ht s hs hin => ?_,
    hlocated.length_templatesAt_le_one offset⟩
  have hcovers := ((hlocated.templates t ht).segments s (Template.mem_segments_iff.2 hs)).2
  exact List.mem_filter.2 ⟨ht, hcovers.contains (Span.contains_iff.2 hin)⟩

/-- Two segments touch in the DEFAULT of a switch, and another template stands below. -/
def touchingSegments : String :=
  "# T\n- SWITCH: $\x7ba\x7d\n- CASE: $\x7bb\x7d\n- x\n- DEFAULT:\n- $\x7bc\x7d$\x7bd\x7d\n# U\n- $\x7be\x7d"

/-- Between the two, the first is found, and the template of the second is the one that is looked into. -/
theorem segmentAt?_earliest_touchingSegments :
    (parse touchingSegments).file.EarliestAt 53 (segmentAt 49 ['c']) ∧
      (parse touchingSegments).file.segmentAt? 53 = some (segmentAt 49 ['c']) ∧
      ∃ t ∈ (parse touchingSegments).file.templates, t.body.HasSegment (segmentAt 53 ['d']) ∧
        53 ∈ Set.Icc (segmentAt 53 ['d']).span.start (segmentAt 53 ['d']).span.stop ∧
        t ∈ (parse touchingSegments).file.templatesAt 53 := by
  obtain ⟨hfound, -, hlooked, -⟩ := segmentAt?_earliest touchingSegments 53
  have hkept : ∀ s ∈ [segmentAt 49 ['c'], segmentAt 53 ['d']],
      ∃ t ∈ (parse touchingSegments).file.templates, s ∈ t.body.keptSegments := by
    decide +kernel
  have hfirst : ∀ t ∈ (parse touchingSegments).file.templates, ∀ s ∈ t.body.keptSegments,
      s.span.start ≤ 53 ∧ 53 ≤ s.span.stop → 49 ≤ s.span.start := by
    decide +kernel
  obtain ⟨t, ht, hc⟩ := hkept _ List.mem_cons_self
  obtain ⟨u, hu, hd⟩ := hkept _ (List.mem_cons_of_mem _ List.mem_cons_self)
  have hearliest : (parse touchingSegments).file.EarliestAt 53 (segmentAt 49 ['c']) := by
    refine ⟨⟨t, ht, Body.mem_keptSegments.1 hc⟩, ⟨by decide, by decide⟩, ?_⟩
    rintro s ⟨v, hv, hs⟩ hin
    exact hfirst v hv s (Body.mem_keptSegments.2 hs) hin
  have htouches : 53 ∈ Set.Icc (segmentAt 53 ['d']).span.start (segmentAt 53 ['d']).span.stop := ⟨by decide, by decide⟩
  exact ⟨hearliest, (hfound _).2 hearliest, u, hu, Body.mem_keptSegments.1 hd, htouches,
    hlooked u hu _ (Body.mem_keptSegments.1 hd) htouches⟩

end LgLang.Syntax
