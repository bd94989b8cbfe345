import LgLang.Syntax.Parser

/-!
# Templates of a file

Every template that `parse` yields was read from a header line (`parse_template_of`). What holds of the template of
any header line therefore holds of every template of a file: its name stands in the text, over as many bytes as the
name has (`parse_nameSpan`).
-/

namespace LgLang.Syntax

/-- A property of the templates that header lines make is one of all templates of the lines of a file. -/
theorem parseLines_template_of {P : Template → Prop}
    (hP : ∀ l header doc bodyLines, readHeader l = .ok header → P (templateOf l header doc bodyLines).1)
    (seenTemplate : Bool) (doc : List String) (ls : List Text.Line) :
    ∀ t ∈ (parseLines seenTemplate doc ls).file.templates, P t := by
  fun_induction parseLines seenTemplate doc ls with
  | case1 => exact fun _ ht => absurd ht List.not_mem_nil
  | case2 _ _ _ _ _ _ ih => exact ih
  | case3 _ _ _ _ _ _ ih => exact ih
  | case4 _ _ _ _ _ _ _ _ ih => exact ih
  | case5 _ _ _ _ _ _ _ _ ih => exact ih
  | case6 _ _ _ _ _ _ _ _ ih => exact ih
  | case7 _ doc l _ _ _ header hread bodyLines _ _ template _ htemplate ih =>
    intro t ht
    rcases List.mem_cons.1 ht with rfl | hrest
    · have hmade := hP l header doc bodyLines hread
      rwa [htemplate] at hmade
    · exact ih t hrest
  | case8 _ _ _ _ _ _ ih => exact ih
  | case9 _ _ _ _ _ _ ih => exact ih

theorem parse_template_of {P : Template → Prop}
    (hP : ∀ l header doc bodyLines, readHeader l = .ok header → P (templateOf l header doc bodyLines).1)
    (text : String) : ∀ t ∈ (parse text).file.templates, P t :=
  parseLines_template_of hP _ _ _

theorem readHeader_nameSpan {l : Text.Line} {header : Header} (h : readHeader l = .ok header) :
    ∃ start, header.nameSpan = .ofSize start (Text.byteSize header.name.toList) := by
  unfold readHeader at h
  dsimp only at h
  split at h
  · cases h
  · split at h
    · cases h
    · obtain rfl := Except.ok.inj h
      exact ⟨_, by rw [String.toList_ofList]⟩

/-- The name of a template stands over as many bytes as it has. -/
theorem parse_nameSpan {text : String} {t : Template} (ht : t ∈ (parse text).file.templates) :
    ∃ start, t.nameSpan = .ofSize start (Text.byteSize t.name.toList) := by
  refine parse_template_of (P := fun t => ∃ start, t.nameSpan = .ofSize start (Text.byteSize t.name.toList)) ?_ text t ht
  intro l header doc bodyLines hread
  exact readHeader_nameSpan hread

end LgLang.Syntax
