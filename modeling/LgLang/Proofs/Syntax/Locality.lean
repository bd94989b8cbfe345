import LgLang.Proofs.Syntax.Shift

/-!
# Reading is local

A header or import line ends whatever stands above it: the lines from there on are read as if they were a file of their
own (`parseLines_append`). Two things only come from above: whether a template stands there, which late imports are told
by, and the comment right above, which documents the template of a header (`parseLines_of_boundary`). So a text put
below another one, from a header or import line on, adds to what the other holds what it holds itself, further behind
(`parse_append`).
-/

namespace LgLang.Syntax

open Text (Line byteSize)

variable {seen : Bool} {doc : List String} {l : Line} {ls ms : List Line} {n : Nat} {cs ds : List Char}

/-! ## One line of a file -/

theorem parseLines_blank (h : kindOf l = .blank) : parseLines seen doc (l :: ls) = parseLines seen [] ls := by
  rw [parseLines]
  simp only [h]

theorem parseLines_comment (h : kindOf l = .comment) :
    parseLines seen doc (l :: ls) = parseLines seen (doc ++ (commentText? l).toList) ls := by
  rw [parseLines]
  simp only [h]

theorem parseLines_import_error {finding : Diagnostic} (h : kindOf l = .importLine)
    (hread : readImport l (!seen) = .error finding) :
    parseLines seen doc (l :: ls) = (parseLines seen [] ls).after [finding] := by
  rw [parseLines]
  simp only [h, hread]

theorem parseLines_import_ok {i : Import} (h : kindOf l = .importLine) (hread : readImport l (!seen) = .ok i) :
    parseLines seen doc (l :: ls) = ((parseLines seen [] ls).consImport i).after (lateImport i) := by
  rw [parseLines]
  simp only [h, hread]

theorem parseLines_header_error {finding : Diagnostic} (h : kindOf l = .header) (hread : readHeader l = .error finding) :
    parseLines seen doc (l :: ls) = (parseLines seen [] (ls.dropWhile (!isBoundary ·))).after [finding] := by
  rw [parseLines]
  simp only [h, hread]

theorem parseLines_header_ok {header : Header} (h : kindOf l = .header) (hread : readHeader l = .ok header) :
    parseLines seen doc (l :: ls) =
      ((parseLines true ((splitTrailingComments (ls.takeWhile (!isBoundary ·))).2.filterMap commentText?)
        (ls.dropWhile (!isBoundary ·))).consTemplate
          (templateOf l header doc (splitTrailingComments (ls.takeWhile (!isBoundary ·))).1).1).after
        (templateOf l header doc (splitTrailingComments (ls.takeWhile (!isBoundary ·))).1).2 := by
  rw [parseLines]
  simp only [h, hread]

theorem parseLines_stray (h : kindOf l = .bullet ∨ kindOf l = .other) :
    parseLines seen doc (l :: ls) = (parseLines seen [] (ls.dropWhile (!isBoundary ·))).after
      [.error .unexpectedBodyLine (contentSpan l) "text outside of a template; expected a '# Name' header first"] := by
  rw [parseLines]
  rcases h with h | h <;> simp only [h]

/-! ## Lines further behind -/

theorem takeWhile_shift (n : Nat) (ls : List Line) :
    (ls.map (Line.shift n)).takeWhile (!isBoundary ·) = (ls.takeWhile (!isBoundary ·)).map (Line.shift n) := by
  rw [List.takeWhile_map]
  rfl

theorem dropWhile_shift (n : Nat) (ls : List Line) :
    (ls.map (Line.shift n)).dropWhile (!isBoundary ·) = (ls.dropWhile (!isBoundary ·)).map (Line.shift n) := by
  rw [List.dropWhile_map]
  rfl

theorem splitTrailingComments_shift (n : Nat) (ls : List Line) :
    splitTrailingComments (ls.map (Line.shift n)) =
      ((splitTrailingComments ls).1.map (Line.shift n), (splitTrailingComments ls).2.map (Line.shift n)) := by
  simp only [splitTrailingComments, ← List.map_reverse, List.dropWhile_map, List.takeWhile_map]
  rfl

theorem filterMap_commentText?_shift (n : Nat) (ls : List Line) :
    (ls.map (Line.shift n)).filterMap commentText? = ls.filterMap commentText? := by
  rw [List.filterMap_map]
  rfl

/-- What is read from lines further behind is the same, further behind. -/
theorem parseLines_shift (n : Nat) (seen : Bool) (doc : List String) (ls : List Line) :
    parseLines seen doc (ls.map (Line.shift n)) = (parseLines seen doc ls).shift n := by
  have hkindOf : ∀ {l : Line} {k : LineKind}, kindOf l = k → kindOf (l.shift n) = k := fun h => h
  fun_induction parseLines seen doc ls with
  | case1 => rw [List.map_nil, parseLines]; rfl
  | case2 seen doc l rest _ hkind ih =>
    rw [List.map_cons, parseLines_blank (hkindOf hkind), ih]
  | case3 seen doc l rest _ hkind ih =>
    rw [List.map_cons, parseLines_comment (hkindOf hkind), commentText?_shift, ih]
  | case4 seen doc l rest _ hkind finding hread ih =>
    have hread' : readImport (l.shift n) (!seen) = .error (finding.shift n) := by
      rw [readImport_shift, hread]
      rfl
    rw [List.map_cons, parseLines_import_error (hkindOf hkind) hread', ih, ← Parsed.after_shift]
    rfl
  | case5 seen doc l rest _ hkind i hread ih =>
    have hread' : readImport (l.shift n) (!seen) = .ok (i.shift n) := by
      rw [readImport_shift, hread]
      rfl
    rw [List.map_cons, parseLines_import_ok (hkindOf hkind) hread', ih, lateImport_shift, Parsed.consImport_shift,
      Parsed.after_shift]
  | case6 seen doc l rest _ hkind finding hread ih =>
    have hread' : readHeader (l.shift n) = .error (finding.shift n) := by
      rw [readHeader_shift, hread]
      rfl
    rw [List.map_cons, parseLines_header_error (hkindOf hkind) hread', dropWhile_shift, ih, ← Parsed.after_shift]
    rfl
  | case7 seen doc l rest _ hkind header hread bodyLines comments hbody template findings htemplate ih =>
    have hread' : readHeader (l.shift n) = .ok (header.shift n) := by
      rw [readHeader_shift, hread]
      rfl
    rw [List.map_cons, parseLines_header_ok (hkindOf hkind) hread', takeWhile_shift, dropWhile_shift,
      splitTrailingComments_shift, hbody]
    simp only [filterMap_commentText?_shift, templateOf_shift, htemplate, ih, Parsed.consTemplate_shift,
      Parsed.after_shift]
  | case8 seen doc l rest _ hkind ih =>
    rw [List.map_cons, parseLines_stray (Or.inl (hkindOf hkind)), dropWhile_shift, ih, contentSpan_shift,
      ← Parsed.after_shift]
    rfl
  | case9 seen doc l rest _ hkind ih =>
    rw [List.map_cons, parseLines_stray (Or.inr (hkindOf hkind)), dropWhile_shift, ih, contentSpan_shift,
      ← Parsed.after_shift]
    rfl

/-! ## Lines above a boundary -/

/-- What is read from one text and then from another. -/
def Parsed.append (p q : Parsed) : Parsed where
  file := ⟨p.file.imports ++ q.file.imports, p.file.templates ++ q.file.templates⟩
  diagnostics := p.diagnostics ++ q.diagnostics

namespace Parsed

variable {p q : Parsed}

theorem empty_append (q : Parsed) : Parsed.empty.append q = q := rfl

theorem after_append (findings : List Diagnostic) (p q : Parsed) :
    (p.after findings).append q = (p.append q).after findings := by
  simp only [append, after, List.append_assoc]

theorem consImport_append (i : Import) (p q : Parsed) : (p.consImport i).append q = (p.append q).consImport i := rfl

theorem consTemplate_append (t : Template) (p q : Parsed) :
    (p.consTemplate t).append q = (p.append q).consTemplate t := rfl

/-- Whether a template was read. -/
def hasTemplate (p : Parsed) : Bool :=
  !p.file.templates.isEmpty

end Parsed

theorem takeWhile_append_boundary (hl : isBoundary l = true) (ls : List Line) :
    (ls ++ l :: ms).takeWhile (!isBoundary ·) = ls.takeWhile (!isBoundary ·) := by
  induction ls with
  | nil => simp [hl]
  | cons m ls ih =>
    rw [List.cons_append, List.takeWhile_cons, List.takeWhile_cons, ih]

theorem dropWhile_append_boundary (hl : isBoundary l = true) (ls : List Line) :
    (ls ++ l :: ms).dropWhile (!isBoundary ·) = ls.dropWhile (!isBoundary ·) ++ l :: ms := by
  induction ls with
  | nil => simp [hl]
  | cons m ls ih =>
    rw [List.cons_append, List.dropWhile_cons, List.dropWhile_cons, ih]
    split <;> rfl

/-- Lines from a boundary on are read for themselves, but for the templates and the comment above. -/
theorem parseLines_append (seen : Bool) (doc : List String) (ls : List Line) (hl : isBoundary l = true)
    (ms : List Line) :
    ∃ doc', parseLines seen doc (ls ++ l :: ms) =
      (parseLines seen doc ls).append
        (parseLines (seen || (parseLines seen doc ls).hasTemplate) doc' (l :: ms)) := by
  fun_induction parseLines seen doc ls with
  | case1 seen doc =>
    refine ⟨doc, ?_⟩
    rw [List.nil_append, Parsed.empty_append, Parsed.hasTemplate]
    simp [Parsed.empty]
  | case2 seen doc m rest _ hkind ih =>
    obtain ⟨doc', ih⟩ := ih
    exact ⟨doc', (parseLines_blank hkind).trans ih⟩
  | case3 seen doc m rest _ hkind ih =>
    obtain ⟨doc', ih⟩ := ih
    exact ⟨doc', (parseLines_comment hkind).trans ih⟩
  | case4 seen doc m rest _ hkind finding hread ih =>
    obtain ⟨doc', ih⟩ := ih
    refine ⟨doc', ?_⟩
    rw [List.cons_append, parseLines_import_error hkind hread, ih, Parsed.after_append]
    rfl
  | case5 seen doc m rest _ hkind i hread ih =>
    obtain ⟨doc', ih⟩ := ih
    refine ⟨doc', ?_⟩
    rw [List.cons_append, parseLines_import_ok hkind hread, ih, Parsed.after_append, Parsed.consImport_append]
    rfl
  | case6 seen doc m rest _ hkind finding hread ih =>
    obtain ⟨doc', ih⟩ := ih
    refine ⟨doc', ?_⟩
    rw [List.cons_append, parseLines_header_error hkind hread, dropWhile_append_boundary hl, ih, Parsed.after_append]
    rfl
  | case7 seen doc m rest _ hkind header hread bodyLines comments hbody template findings htemplate ih =>
    obtain ⟨doc', ih⟩ := ih
    refine ⟨doc', ?_⟩
    have hseen : (seen || (((parseLines true (comments.filterMap commentText?) (rest.dropWhile (!isBoundary ·))).consTemplate
        template).after findings).hasTemplate) = true := Bool.or_true seen
    rw [List.cons_append, parseLines_header_ok hkind hread, takeWhile_append_boundary hl, dropWhile_append_boundary hl,
      hbody, htemplate, ih, hseen, Parsed.after_append, Parsed.consTemplate_append]
    rfl
  | case8 seen doc m rest _ hkind ih =>
    obtain ⟨doc', ih⟩ := ih
    refine ⟨doc', ?_⟩
    rw [List.cons_append, parseLines_stray (Or.inl hkind), dropWhile_append_boundary hl, ih, Parsed.after_append]
    rfl
  | case9 seen doc m rest _ hkind ih =>
    obtain ⟨doc', ih⟩ := ih
    refine ⟨doc', ?_⟩
    rw [List.cons_append, parseLines_stray (Or.inr hkind), dropWhile_append_boundary hl, ih, Parsed.after_append]
    rfl

/-! ## What comes from above -/

/-- The import, told to stand below a template if there is one. -/
def Import.below (late : Bool) (i : Import) : Import :=
  { i with inHeader := i.inHeader && !late }

/-- The template without its documentation, if it begins at that offset. -/
def Template.withoutDocAt (start : Nat) (t : Template) : Template :=
  if t.span.start = start then { t with doc := none } else t

/-- The findings other than that an import stands below a template. -/
def withoutLateImports (ds : List Diagnostic) : List Diagnostic :=
  ds.filter (·.code != .importNotInHeader)

/-- What is read from the same lines, once for themselves and once below others: if there is a template above, imports
are told to be late, and the template that begins at the offset may have other documentation. All else is the same. -/
structure Parsed.SameBelow (late : Bool) (start : Nat) (p q : Parsed) : Prop where
  imports : q.file.imports = p.file.imports.map (Import.below late)
  templates : q.file.templates.map (Template.withoutDocAt start) = p.file.templates.map (Template.withoutDocAt start)
  diagnostics : withoutLateImports q.diagnostics = withoutLateImports p.diagnostics

theorem withoutLateImports_append (ds es : List Diagnostic) :
    withoutLateImports (ds ++ es) = withoutLateImports ds ++ withoutLateImports es :=
  List.filter_append ds es

theorem withoutLateImports_lateImport (i : Import) : withoutLateImports (lateImport i) = [] := by
  unfold lateImport
  split <;> rfl

theorem readImport_below (l : Line) (inHeader late : Bool) :
    readImport l (inHeader && !late) = (readImport l inHeader).map (Import.below late) := by
  unfold readImport
  cases splitLink? l.content with
  | none => rfl
  | some link =>
    dsimp only
    cases qualifier? link.after with
    | none => rfl
    | some qualifier =>
      dsimp only
      rw [apply_ite (Except.map (Import.below late))]
      rfl

namespace Parsed.SameBelow

variable {late : Bool} {start : Nat} {p q : Parsed}

theorem after (h : SameBelow late start p q) (findings : List Diagnostic) :
    SameBelow late start (p.after findings) (q.after findings) := by
  refine ⟨h.imports, h.templates, ?_⟩
  simp only [Parsed.after, withoutLateImports_append, h.diagnostics]

theorem consImport (h : SameBelow late start p q) (i : Import) :
    SameBelow late start ((p.consImport i).after (lateImport i))
      ((q.consImport (i.below late)).after (lateImport (i.below late))) := by
  refine ⟨congrArg (i.below late :: ·) h.imports, h.templates, ?_⟩
  simp only [Parsed.after, Parsed.consImport, withoutLateImports_append, withoutLateImports_lateImport, h.diagnostics]

theorem consTemplate (h : SameBelow late start p q) {t u : Template}
    (htu : u.withoutDocAt start = t.withoutDocAt start) : SameBelow late start (p.consTemplate t) (q.consTemplate u) := by
  refine ⟨h.imports, ?_, h.diagnostics⟩
  simp only [Parsed.consTemplate, List.map_cons, htu, h.templates]

end Parsed.SameBelow

/-- Lines read below a template differ from the same lines read without one in what is said of imports. -/
theorem parseLines_below (late : Bool) (start : Nat) (seen : Bool) (doc : List String) (ls : List Line) :
    Parsed.SameBelow late start (parseLines seen doc ls) (parseLines (late || seen) doc ls) := by
  have hflag : ∀ seen : Bool, (!(late || seen)) = (!seen && !late) := by
    intro seen
    cases late <;> cases seen <;> rfl
  fun_induction parseLines seen doc ls with
  | case1 =>
    rw [parseLines]
    exact ⟨rfl, rfl, rfl⟩
  | case2 seen doc l rest _ hkind ih =>
    rw [parseLines_blank hkind]
    exact ih
  | case3 seen doc l rest _ hkind ih =>
    rw [parseLines_comment hkind]
    exact ih
  | case4 seen doc l rest _ hkind finding hread ih =>
    have hread' : readImport l (!(late || seen)) = .error finding := by
      rw [hflag, readImport_below, hread]
      rfl
    rw [parseLines_import_error hkind hread']
    exact ih.after [finding]
  | case5 seen doc l rest _ hkind i hread ih =>
    have hread' : readImport l (!(late || seen)) = .ok (i.below late) := by
      rw [hflag, readImport_below, hread]
      rfl
    rw [parseLines_import_ok hkind hread']
    exact ih.consImport i
  | case6 seen doc l rest _ hkind finding hread ih =>
    rw [parseLines_header_error hkind hread]
    exact ih.after [finding]
  | case7 seen doc l rest _ hkind header hread bodyLines comments hbody template findings htemplate ih =>
    rw [Bool.or_true] at ih
    rw [parseLines_header_ok hkind hread, hbody, htemplate]
    exact (ih.consTemplate rfl).after findings
  | case8 seen doc l rest _ hkind ih =>
    rw [parseLines_stray (Or.inl hkind)]
    exact ih.after _
  | case9 seen doc l rest _ hkind ih =>
    rw [parseLines_stray (Or.inr hkind)]
    exact ih.after _

/-- The comment above a template is its documentation and nothing else. -/
theorem templateOf_withoutDocAt (l : Line) (h : Header) (doc doc' : List String) (bodyLines : List Line) :
    (templateOf l h doc bodyLines).1.withoutDocAt l.contentStart =
      (templateOf l h doc' bodyLines).1.withoutDocAt l.contentStart := by
  have hstart : ∀ doc, (templateOf l h doc bodyLines).1.span.start = l.contentStart := fun _ => rfl
  simp only [Template.withoutDocAt, hstart, if_true]
  rfl

/-- Lines from a boundary on, read for themselves and below others. -/
theorem parseLines_of_boundary (late : Bool) (doc : List String) (hl : isBoundary l = true) (ls : List Line) :
    Parsed.SameBelow late l.contentStart (parseLines false [] (l :: ls)) (parseLines late doc (l :: ls)) := by
  have hrest : ∀ doc ls, Parsed.SameBelow late l.contentStart (parseLines false doc ls) (parseLines late doc ls) := by
    intro doc ls
    have hbelow := parseLines_below late l.contentStart false doc ls
    rwa [Bool.or_false] at hbelow
  have hkinds : kindOf l = .header ∨ kindOf l = .importLine := by
    unfold isBoundary LineKind.isBoundary at hl
    split at hl
    · next hkind => exact Or.inl hkind
    · next hkind => exact Or.inr hkind
    · cases hl
  rcases hkinds with hkind | hkind
  · cases hread : readHeader l with
    | error finding =>
      rw [parseLines_header_error hkind hread, parseLines_header_error hkind hread]
      exact (hrest [] _).after [finding]
    | ok header =>
      have hbelow := parseLines_below late l.contentStart true
        ((splitTrailingComments (ls.takeWhile (!isBoundary ·))).2.filterMap commentText?) (ls.dropWhile (!isBoundary ·))
      rw [Bool.or_true] at hbelow
      rw [parseLines_header_ok hkind hread, parseLines_header_ok hkind hread]
      exact (hbelow.consTemplate (templateOf_withoutDocAt l header doc [] _)).after _
  · have hbelow : readImport l (!late) = (readImport l (!false)).map (Import.below late) :=
      readImport_below l (!false) late
    cases hread : readImport l (!false) with
    | error finding =>
      have hread' : readImport l (!late) = .error finding := by rw [hbelow, hread]; rfl
      rw [parseLines_import_error hkind hread, parseLines_import_error hkind hread']
      exact (hrest [] ls).after [finding]
    | ok i =>
      have hread' : readImport l (!late) = .ok (i.below late) := by rw [hbelow, hread]; rfl
      rw [parseLines_import_ok hkind hread, parseLines_import_ok hkind hread']
      exact (hrest [] ls).consImport i

theorem Parsed.SameBelow.shift {late : Bool} {start : Nat} {p q : Parsed} (h : p.SameBelow late start q) (n : Nat) :
    (p.shift n).SameBelow late (n + start) (q.shift n) := by
  have htemplate : Template.withoutDocAt (n + start) ∘ Template.shift n =
      Template.shift n ∘ Template.withoutDocAt start := by
    funext t
    have hspan : (t.shift n).span.start = n + t.span.start := rfl
    simp only [Function.comp_apply, Template.withoutDocAt, hspan, Nat.add_left_cancel_iff]
    split <;> rfl
  have hfindings : ∀ ds, withoutLateImports (shiftFindings n ds) = shiftFindings n (withoutLateImports ds) := by
    intro ds
    unfold withoutLateImports shiftFindings
    rw [List.filter_map]
    rfl
  refine ⟨?_, ?_, ?_⟩
  · simp only [Parsed.shift, h.imports, List.map_map]
    rfl
  · simp only [Parsed.shift, List.map_map, htemplate]
    rw [← List.map_map, ← List.map_map, h.templates]
  · simp only [Parsed.shift, hfindings, h.diagnostics]

/-! ## Texts below one another -/

/-- The lines of a text with a line feed in it are those above the line feed and those below. -/
theorem linesFrom_append (start : Nat) (cs ds : List Char) :
    Text.linesFrom start (cs ++ '\n' :: ds) = Text.linesFrom start cs ++ Text.linesFrom (start + byteSize cs + 1) ds := by
  have hfeed : ('\n' : Char).utf8Size = 1 := rfl
  fun_induction Text.linesFrom start cs with
  | case1 start cs raw hdrop =>
    have hsplit := Text.takeWhile_ne_eq_self hdrop
    have hnone := Text.not_mem_takeWhile_ne '\n' cs
    rw [hsplit] at hnone
    rw [Text.linesFrom_line hnone]
    exact congrArg (fun raw => (⟨start, raw⟩ : Line) :: Text.linesFrom (start + byteSize cs + 1) ds) hsplit.symm
  | case2 start cs raw c rest hdrop ih =>
    obtain ⟨rfl, hsplit⟩ := Text.takeWhile_ne_append hdrop
    have hsize : byteSize cs = byteSize raw + (1 + byteSize rest) := by
      rw [← hsplit, Text.byteSize_append, Text.byteSize_cons, hfeed]
    have hstart : start + byteSize cs + 1 = start + byteSize raw + 1 + byteSize rest + 1 := by omega
    rw [hstart, List.cons_append, ← ih, ← Text.linesFrom_line (Text.not_mem_takeWhile_ne '\n' cs)]
    conv_lhs => rw [← hsplit]
    rw [List.append_assoc, List.cons_append]

/-- **Reading is local.** A text that begins with a header or import line adds to what the text above it holds what it
holds for itself. -/
theorem parse_append {a b : String} (hl : (Text.lines b.toList).head? = some l) (hboundary : isBoundary l = true) :
    ∃ q, parse (a ++ "\n" ++ b) = (parse a).append q ∧
      ((parse b).shift (byteSize a.toList + 1)).SameBelow (parse a).hasTemplate
        (byteSize a.toList + 1 + l.contentStart) q := by
  obtain ⟨ms, hlines⟩ : ∃ ms, Text.lines b.toList = l :: ms := by
    cases hb : Text.lines b.toList with
    | nil => cases hb ▸ hl
    | cons m ms =>
      rw [hb] at hl
      exact ⟨ms, congrArg (· :: ms) (Option.some.inj hl)⟩
  have htext : (a ++ "\n" ++ b).toList = a.toList ++ '\n' :: b.toList := by
    simp
  have hbelow : Text.linesFrom (0 + byteSize a.toList + 1) b.toList =
      (l :: ms).map (Line.shift (byteSize a.toList + 1)) := by
    rw [← hlines, Text.lines, ← linesFrom_shift]
    simp
  have hfirst : isBoundary (l.shift (byteSize a.toList + 1)) = true := hboundary
  obtain ⟨doc, hread⟩ := parseLines_append false [] (Text.lines a.toList) hfirst
    (ms.map (Line.shift (byteSize a.toList + 1)))
  refine ⟨(parseLines (parse a).hasTemplate doc (l :: ms)).shift (byteSize a.toList + 1), ?_, ?_⟩
  · rw [parse, htext, Text.lines, linesFrom_append, hbelow, List.map_cons]
    rw [Bool.false_or, ← List.map_cons, parseLines_shift] at hread
    exact hread
  · have hsame := (parseLines_of_boundary (parse a).hasTemplate doc hboundary ms).shift (byteSize a.toList + 1)
    have hb : parse b = parseLines false [] (l :: ms) := congrArg (parseLines false []) hlines
    rw [hb]
    exact hsame

theorem parse_append_strayAboveHeader :
    (Text.lines "# Greet\n- hi".toList).head? = some ⟨0, "# Greet".toList⟩ ∧ isBoundary ⟨0, "# Greet".toList⟩ = true ∧
      ∃ q, parse ("lost" ++ "\n" ++ "# Greet\n- hi") = (parse "lost").append q ∧
        ((parse "# Greet\n- hi").shift (byteSize "lost".toList + 1)).SameBelow (parse "lost").hasTemplate
          (byteSize "lost".toList + 1 + Line.contentStart ⟨0, "# Greet".toList⟩) q := by
  have hfirst : (Text.lines "# Greet\n- hi".toList).head? = some ⟨0, "# Greet".toList⟩ := by
    rw [List.head?_eq_getElem?]
    exact Text.linesFrom_head 0 _
  have hboundary : isBoundary ⟨0, "# Greet".toList⟩ = true := by decide
  exact ⟨hfirst, hboundary, parse_append hfirst hboundary⟩

end LgLang.Syntax
