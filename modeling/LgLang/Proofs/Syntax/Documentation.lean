import LgLang.Proofs.Syntax.Reports

/-!
# The documentation of templates

The comment lines directly above a header document its template, whatever stands above them (`DocsKept`). The reader
collects them in two places: between templates, where it goes on line by line, and at the end of a body, from where they
are handed on to the template below. It does not collect them where it passes over lines, below a header without a name
or below text that belongs to no template. So every template has the documentation above it exactly when no comment that
is passed over stands directly above a header (`docsKept_iff`).
-/

namespace LgLang.Syntax

/-- The documentation above the heading: the text of the comment lines directly above, if there is any. -/
def Heading.comment? (h : Heading) : Option String :=
  docOf (commentsAbove h.above)

/-- The templates of the file have the documentation that stands above their headings. -/
def DocsKept (text : String) : Prop :=
  (parse text).file.templates.map (fun t => (t.nameSpan, t.doc)) =
    (headings text).map fun h => (h.header.nameSpan, h.comment?)

namespace Heading

variable {h : Heading}

theorem template_nameSpan (h : Heading) : h.template.nameSpan = h.header.nameSpan := rfl

theorem template_doc (h : Heading) : h.template.doc = docOf (docBefore h.above) := rfl

/-- Only a comment that is passed over does not document its template. -/
theorem doc_eq_comment?_iff : h.template.doc = h.comment? ↔ (footing h.above = .passing → h.comment? = none) := by
  rw [template_doc]
  by_cases hpassing : footing h.above = .passing
  · have hnone : docOf (docBefore h.above) = none := by
      rw [docBefore_of_passing hpassing]
      rfl
    rw [hnone]
    exact ⟨fun hdoc _ => hdoc.symm, fun hcomment => (hcomment hpassing).symm⟩
  · have hkept : docOf (docBefore h.above) = h.comment? := congrArg docOf (if_neg hpassing)
    exact ⟨fun _ hpassing' => absurd hpassing' hpassing, fun _ => hkept⟩

end Heading

/-- **Templates have the documentation above them exactly when no header below lines that are passed over has any.** -/
theorem docsKept_iff (text : String) :
    DocsKept text ↔ ∀ h ∈ headings text, footing h.above = .passing → h.comment? = none := by
  have hdocs : DocsKept text ↔ ∀ h ∈ headings text, h.template.doc = h.comment? := by
    unfold DocsKept
    rw [parse_templates, List.map_map, List.map_inj_left]
    refine forall₂_congr fun h _ => ?_
    show (h.template.nameSpan, h.template.doc) = (h.header.nameSpan, h.comment?) ↔ _
    rw [h.template_nameSpan, Prod.mk.injEq]
    exact and_iff_right rfl
  rw [hdocs]
  exact forall₂_congr fun h _ => h.doc_eq_comment?_iff

/-- A comment below a header without a name documents nothing. -/
theorem not_docsKept_belowInvalidHeader : ¬ DocsKept "# Bad!\n> doc\n# Good\n- x" := by
  unfold DocsKept
  decide +kernel

end LgLang.Syntax
