import LgLang.Proofs.Syntax.Passages
import LgLang.Proofs.Syntax.Structures

/-!
# What becomes of properties

A line of a structured body that holds a property keeps the expressions of its value, or it is reported as a whole
(`StructureDraft.add_keeps`). Every finding lies in the line it is about (`StructureDraft.add_covers`). Both go over to
whole bodies by induction on the lines (`structuredBody_keeps`, `structuredBody_covers`).
-/

namespace LgLang.Syntax

open Text (Line byteSize)

variable {l opening : Line} {ls : List Line} {p : Passage}

/-! ## Property lines -/

/-- The value lies in the content of its line. -/
theorem covers_propertyValue (h : propertyValue? l = some p) : (contentSpan l).Covers p.span := by
  obtain ⟨⟨key, value, place⟩, hsplit, rfl⟩ := Option.map_eq_some_iff.1 h
  obtain ⟨between, after, hcontent, rfl⟩ := exists_append_of_splitProperty? hsplit
  have hsize := congrArg byteSize hcontent
  simp only [Text.byteSize_append] at hsize
  refine ⟨Nat.le_add_right _ _, ?_⟩
  show l.contentStart + byteSize (key ++ between) + byteSize value ≤ l.contentStart + byteSize l.content
  rw [Text.byteSize_append]
  omega

/-- A line that begins like a name says something. -/
theorem isSilent_eq_false {c : Char} {cs : List Char} (hcontent : l.content = c :: cs) (hc : isNameStart c = true) :
    isSilent l = false := by
  have hcomment : c ≠ '>' := by
    rintro rfl
    exact absurd hc (by decide)
  have hheader : c ≠ '#' := by
    rintro rfl
    exact absurd hc (by decide)
  unfold isSilent kindOf
  rw [hcontent, LineKind.ofContent]
  · by_cases hlink : (splitLink? (c :: cs)).isSome = true
    · rw [if_pos hlink]
    · by_cases hbullet : (c == '-') = true
      · rw [if_neg hlink, if_pos hbullet]
      · rw [if_neg hlink, if_neg hbullet]
  · exact hcomment
  · exact hheader

theorem propertyValue?_of_isSilent (h : isSilent l = true) : propertyValue? l = none := by
  cases hproperty : splitProperty? l.content with
  | none =>
    rw [propertyValue?, hproperty]
    rfl
  | some found =>
    unfold splitProperty? splitName? at hproperty
    cases hcontent : l.content with
    | nil =>
      rw [hcontent] at hproperty
      cases hproperty
    | cons c cs =>
      by_cases hc : isNameStart c = true
      · rw [isSilent_eq_false hcontent hc] at h
        cases h
      · rw [hcontent] at hproperty
        simp only [if_neg hc] at hproperty
        cases hproperty

/-! ## Lines of a structured body -/

namespace StructureDraft

/-- The expressions of the properties so far. -/
def keptSegments (d : StructureDraft) : List Segment :=
  d.properties.flatMap (·.value.segments)

variable {d : StructureDraft}

theorem addProperty_keptSegments (d : StructureDraft) (l : Line) :
    (d.addProperty l).1.keptSegments = d.keptSegments ++ (propertyValue? l).elim [] Passage.segments := by
  unfold addProperty propertyValue? keptSegments
  cases splitProperty? l.content with
  | none => simp
  | some found => simp [TextLine.ofText, Passage.segments, Passage.tokens]

theorem add_keptSegments (d : StructureDraft) (l : Line) :
    (d.add l).1.keptSegments = d.keptSegments ++ (propertyValue? l).elim [] Passage.segments ∨
      (d.add l).1.keptSegments = d.keptSegments ∧ ∃ f ∈ (d.add l).2, f.span = contentSpan l := by
  simp only [add]
  split
  · next hsilent =>
    rw [propertyValue?_of_isSilent hsilent]
    exact Or.inl (List.append_nil _).symm
  · split
    · exact Or.inr ⟨rfl, _, List.mem_singleton_self _, rfl⟩
    · split
      · next hclose =>
        have hnone : propertyValue? l = none := by
          rw [propertyValue?, eq_of_beq hclose]
          rfl
        rw [hnone]
        exact Or.inl (List.append_nil _).symm
      · exact Or.inl (addProperty_keptSegments _ l)

/-- What a body keeps it had before or has from the value in the line. -/
theorem add_kept_subset (d : StructureDraft) (l : Line) :
    ∀ s ∈ (d.add l).1.keptSegments, s ∈ d.keptSegments ∨ ∃ p ∈ propertyValue? l, s ∈ p.segments := by
  intro s hs
  rcases add_keptSegments d l with hadded | ⟨hsame, -⟩
  · rw [hadded] at hs
    refine (List.mem_append.1 hs).imp_right fun hs => ?_
    cases hvalue : propertyValue? l with
    | none =>
      rw [hvalue] at hs
      cases hs
    | some p =>
      rw [hvalue] at hs
      exact ⟨p, rfl, hs⟩
  · rw [hsame] at hs
    exact Or.inl hs

theorem addAll_kept_subset (d : StructureDraft) (ls : List Line) :
    ∀ s ∈ (d.addAll ls).1.keptSegments, s ∈ d.keptSegments ∨ ∃ p ∈ ls.filterMap propertyValue?, s ∈ p.segments := by
  induction ls generalizing d with
  | nil => exact fun s hs => Or.inl hs
  | cons l ls ih =>
    intro s hs
    rcases ih _ s hs with hs | ⟨p, hp, hs⟩
    · refine (add_kept_subset d l s hs).imp_right ?_
      rintro ⟨p, hp, hs⟩
      exact ⟨p, List.mem_filterMap.2 ⟨l, List.mem_cons_self, hp⟩, hs⟩
    · obtain ⟨m, hm, hvalue⟩ := List.mem_filterMap.1 hp
      exact Or.inr ⟨p, List.mem_filterMap.2 ⟨m, List.mem_cons_of_mem _ hm, hvalue⟩, hs⟩

theorem kept_subset_add (d : StructureDraft) (l : Line) : ∀ s ∈ d.keptSegments, s ∈ (d.add l).1.keptSegments := by
  intro s hs
  rcases add_keptSegments d l with hadded | ⟨hsame, -⟩
  · rw [hadded]
    exact List.mem_append_left _ hs
  · rwa [hsame]

theorem kept_subset_addAll (d : StructureDraft) (ls : List Line) :
    ∀ s ∈ d.keptSegments, s ∈ (d.addAll ls).1.keptSegments := by
  induction ls generalizing d with
  | nil => exact fun s hs => hs
  | cons l ls ih => exact fun s hs => ih _ s (kept_subset_add d l s hs)

theorem addAll_keeps (d : StructureDraft) (ls : List Line) :
    ∀ l ∈ ls, ∀ p ∈ propertyValue? l,
      (∀ s ∈ p.segments, s ∈ (d.addAll ls).1.keptSegments) ∨ ∃ f ∈ (d.addAll ls).2, f.span = contentSpan l := by
  induction ls generalizing d with
  | nil => exact List.forall_mem_nil _
  | cons m ls ih =>
    intro l hl p hp
    rcases List.mem_cons.1 hl with rfl | hl
    · rcases add_keptSegments d l with hadded | ⟨-, f, hf, hspan⟩
      · -- What this line adds is still there at the end.
        left
        intro s hs
        have hnext : s ∈ (d.add l).1.keptSegments := by
          rw [hadded, Option.mem_def.1 hp]
          exact List.mem_append_right _ hs
        exact kept_subset_addAll _ ls s hnext
      · exact Or.inr ⟨f, List.mem_append_left _ hf, hspan⟩
    · refine (ih _ l hl p hp).imp_right ?_
      rintro ⟨f, hf, hspan⟩
      exact ⟨f, List.mem_append_right _ hf, hspan⟩

/-! ### What findings are about -/

theorem addProperty_covers (d : StructureDraft) (l : Line) :
    ∀ f ∈ (d.addProperty l).2, (contentSpan l).Covers f.span := by
  unfold addProperty
  cases hsplit : splitProperty? l.content with
  | none => exact List.forall_mem_singleton.2 (.refl _)
  | some found =>
    obtain ⟨key, value, place⟩ := found
    have hvalue : propertyValue? l = some ⟨l.contentStart + place, value⟩ := by
      rw [propertyValue?, hsplit]
      rfl
    obtain ⟨between, after, hcontent, -⟩ := exists_append_of_splitProperty? hsplit
    have hkey : (contentSpan l).Covers (.ofSize l.contentStart (byteSize key)) := by
      have hsize := congrArg byteSize hcontent
      simp only [Text.byteSize_append] at hsize
      refine ⟨Nat.le_refl _, ?_⟩
      show l.contentStart + byteSize key ≤ l.contentStart + byteSize l.content
      omega
    refine List.forall_mem_append.2 ⟨fun f hf => ?_, fun f hf => ?_⟩
    · split at hf
      · rw [List.mem_singleton.1 hf]
        exact hkey
      · cases hf
    · exact (covers_propertyValue hvalue).trans
        (Passage.covers_token (p := ⟨_, value⟩) (textDiagnostics_unterminated f hf))

/-- **Each finding lies in the line that is read.** -/
theorem add_covers (d : StructureDraft) (l : Line) : ∀ f ∈ (d.add l).2, (contentSpan l).Covers f.span := by
  simp only [add]
  split
  · exact List.forall_mem_nil _
  · split
    · exact List.forall_mem_singleton.2 (.refl _)
    · split
      · exact List.forall_mem_nil _
      · exact addProperty_covers _ l

theorem addAll_covers (d : StructureDraft) (ls : List Line) :
    ∀ f ∈ (d.addAll ls).2, ∃ l ∈ ls, (contentSpan l).Covers f.span := by
  induction ls generalizing d with
  | nil => exact List.forall_mem_nil _
  | cons l ls ih =>
    refine List.forall_mem_append.2 ⟨fun f hf => ?_, fun f hf => ?_⟩
    · exact ⟨l, List.mem_cons_self, add_covers d l f hf⟩
    · obtain ⟨m, hm, hcovers⟩ := ih _ f hf
      exact ⟨m, List.mem_cons_of_mem _ hm, hcovers⟩

end StructureDraft

/-! ## Structured bodies -/

/-- **Every property keeps its expressions in the body, or its line is reported.** -/
theorem structuredBody_keeps (opening : Line) (ls : List Line) :
    ∀ l ∈ ls, ∀ p ∈ propertyValue? l,
      (∀ s ∈ p.segments, s ∈ (structuredBody opening ls).1.keptSegments) ∨
        ∃ f ∈ (structuredBody opening ls).2.2, f.span = contentSpan l := by
  have hlines : ∀ d : StructureDraft, ∀ before behind : List Diagnostic, ∀ l ∈ ls, ∀ p ∈ propertyValue? l,
      (∀ s ∈ p.segments, s ∈ (d.addAll ls).1.keptSegments) ∨
        ∃ f ∈ before ++ (d.addAll ls).2 ++ behind, f.span = contentSpan l := by
    intro d before behind l hl p hp
    refine (d.addAll_keeps ls l hl p hp).imp_right ?_
    rintro ⟨f, hf, hspan⟩
    exact ⟨f, List.mem_append_left _ (List.mem_append_right _ hf), hspan⟩
  unfold structuredBody
  cases splitOpening? opening.content with
  | none => exact hlines _ _ _
  | some found => exact hlines _ _ _

/-- **A body keeps nothing but the expressions of its properties.** -/
theorem structuredBody_kept_subset (opening : Line) (ls : List Line) :
    ∀ s ∈ (structuredBody opening ls).1.keptSegments, ∃ p ∈ ls.filterMap propertyValue?, s ∈ p.segments := by
  have hlines : ∀ closed stop, ∀ s ∈ (StructureDraft.addAll ⟨closed, stop, []⟩ ls).1.keptSegments,
      ∃ p ∈ ls.filterMap propertyValue?, s ∈ p.segments := by
    intro closed stop s hs
    exact (StructureDraft.addAll_kept_subset _ ls s hs).resolve_left List.not_mem_nil
  unfold structuredBody
  cases splitOpening? opening.content with
  | none => exact hlines _ _
  | some found => exact hlines _ _

/-- **Every finding lies in a line of the body.** -/
theorem structuredBody_covers (opening : Line) (ls : List Line) :
    ∀ f ∈ (structuredBody opening ls).2.2, ∃ l ∈ opening :: ls, (contentSpan l).Covers f.span := by
  have hopening : ∃ l ∈ opening :: ls, (contentSpan l).Covers (contentSpan opening) :=
    ⟨opening, List.mem_cons_self, .refl _⟩
  have hunclosed : ∀ closed : Bool, ∀ f ∈ (if closed then [] else
      [Diagnostic.error .unterminatedStructure (contentSpan opening) "structured body is missing its closing ']'"]),
        ∃ l ∈ opening :: ls, (contentSpan l).Covers f.span := by
    intro closed
    split
    · exact List.forall_mem_nil _
    · exact List.forall_mem_singleton.2 hopening
  have hlines : ∀ d : StructureDraft, ∀ f ∈ (d.addAll ls).2, ∃ l ∈ opening :: ls, (contentSpan l).Covers f.span := by
    intro d f hf
    obtain ⟨l, hl, hcovers⟩ := d.addAll_covers ls f hf
    exact ⟨l, List.mem_cons_of_mem _ hl, hcovers⟩
  unfold structuredBody
  cases splitOpening? opening.content with
  | none =>
    refine List.forall_mem_append.2 ⟨List.forall_mem_append.2 ⟨?_, hlines _⟩, hunclosed _⟩
    exact List.forall_mem_singleton.2 hopening
  | some found =>
    refine List.forall_mem_append.2 ⟨List.forall_mem_append.2 ⟨?_, hlines _⟩, hunclosed _⟩
    exact List.forall_mem_nil _

end LgLang.Syntax
