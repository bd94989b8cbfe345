import LgLang.Analysis
import LgLang.Expression.Scan
import LgLang.Function.Builtin
import LgLang.Proofs.Analysis.Files
import LgLang.Proofs.Analysis.Symbols
import LgLang.Proofs.Diagnostic.Merge
import LgLang.Proofs.Syntax.Findings

/-!
# Names defined more than once

A name with several active definitions is an error, placed on the second of them or on the import of the root that
brought it in. The errors are made one for each name, but they are then merged with all other findings, and merging
keeps one error at each place: names that the same import brings in share their place. So every such name is reported
exactly when the places of all of them are apart (`duplicatesReported_iff`).
-/

namespace LgLang.Analyzer

open Diagnostic (merge)

/-! ## The findings of the other rules -/

theorem repeatedParameters_code (seen : List String) (ps : List Syntax.Parameter) :
    ∀ d ∈ repeatedParameters seen ps, d.code = .duplicateParameter := by
  induction ps generalizing seen with
  | nil => exact fun d hd => absurd hd List.not_mem_nil
  | cons p ps ih =>
    rw [repeatedParameters]
    split
    · intro d hd
      rcases List.mem_cons.1 hd with rfl | hrest
      · rfl
      · exact ih seen d hrest
    · exact ih (p.name :: seen)

theorem shapeDiagnostics_code (t : Syntax.Template) :
    ∀ d ∈ shapeDiagnostics t, d.code = .duplicateParameter ∨ d.code = .emptyTemplate := by
  intro d hd
  unfold shapeDiagnostics at hd
  rcases List.mem_append.1 hd with hparameter | hempty
  · exact Or.inl (repeatedParameters_code [] t.parameters d hparameter)
  · split at hempty
    · obtain rfl := List.mem_singleton.1 hempty
      exact Or.inr rfl
    · cases hempty

theorem callDiagnostics_code (env : Env) (r : Reference) :
    ∀ d ∈ env.callDiagnostics r, d.code ≠ .duplicateTemplate := by
  intro d hd hcode
  unfold Env.callDiagnostics at hd
  repeat' split at hd
  all_goals simp only [List.mem_singleton, List.not_mem_nil] at hd
  all_goals subst hd; cases hcode

theorem templateDiagnostics_code (env : Env) (t : Syntax.Template) :
    ∀ d ∈ env.templateDiagnostics t, d.code ≠ .duplicateTemplate := by
  intro d hd
  unfold Env.templateDiagnostics at hd
  rcases List.mem_append.1 hd with hd | hbracket
  · rcases List.mem_append.1 hd with hshape | hsegment
    · rcases shapeDiagnostics_code t d hshape with h | h <;> rw [h] <;> exact fun hcode => by cases hcode
    · obtain ⟨s, _, hd⟩ := List.mem_flatMap.1 hsegment
      rcases List.mem_append.1 hd with hmistake | hcall
      · obtain ⟨m, _, rfl⟩ := List.mem_map.1 hmistake
        exact fun hcode => by cases hcode
      · obtain ⟨r, _, hr⟩ := List.mem_flatMap.1 hcall
        exact callDiagnostics_code env r d hr
  · obtain ⟨r, _, hr⟩ := List.mem_flatMap.1 hbracket
    unfold bracketDiagnostics at hr
    split at hr
    · obtain rfl := List.mem_singleton.1 hr
      exact fun hcode => by cases hcode
    · cases hr

/-! ## The errors about names -/

/-- The place of the error about a name: the second of its active definitions, or the import of the root that brought
this one in. -/
def IsPlace (a : Analysis) (name : String) (span : Span) : Prop :=
  ∃ second, (a.symbols.active name)[1]? = some second ∧
    match second.via with
    | none => span = second.nameSpan
    | some k => ∃ i, a.file.imports[k]? = some i ∧ span = i.span

/-- A finding is the error about a name. -/
structure Reports (a : Analysis) (name : String) (d : Diagnostic) : Prop where
  severity : d.severity = .error
  code : d.code = .duplicateTemplate
  message : d.message = s!"template '{name}' is defined {(a.symbols.active name).length} times in this scope"
  place : IsPlace a name d.span
  related : d.related = (a.symbols.active name).map fun s => ⟨s.uri, s.nameSpan, s!"'{name}' defined here"⟩

/-- Each name with more than one active definition has exactly one error, and there is no other error of this rule. -/
structure DuplicatesReported (a : Analysis) : Prop where
  each : ∀ name, 1 < (a.symbols.active name).length → ∃! i : Nat, ∃ d, a.diagnostics[i]? = some d ∧ Reports a name d
  only : ∀ d ∈ a.diagnostics, d.code = .duplicateTemplate →
    ∃ name, 1 < (a.symbols.active name).length ∧ Reports a name d

/-- No two names have their errors at one place. -/
def PlacesApart (a : Analysis) : Prop :=
  ∀ name other span, IsPlace a name span → IsPlace a other span → name = other

theorem IsPlace.length {a : Analysis} {name : String} {span : Span} (h : IsPlace a name span) :
    1 < (a.symbols.active name).length := by
  obtain ⟨_, hsecond, _⟩ := h
  exact (List.getElem?_eq_some_iff.1 hsecond).1

theorem IsPlace.unique {a : Analysis} {name : String} {span span' : Span} (h : IsPlace a name span)
    (h' : IsPlace a name span') : span = span' := by
  obtain ⟨second, hsecond, hplace⟩ := h
  obtain ⟨second', hsecond', hplace'⟩ := h'
  obtain rfl : second' = second := Option.some.inj (hsecond'.symm.trans hsecond)
  cases hvia : second'.via with
  | none =>
    simp only [hvia] at hplace hplace'
    rw [hplace, hplace']
  | some k =>
    simp only [hvia] at hplace hplace'
    obtain ⟨i, hi, hspan⟩ := hplace
    obtain ⟨i', hi', hspan'⟩ := hplace'
    rw [hspan, hspan', Option.some.inj (hi.symm.trans hi')]

/-- The error about a name is determined by the name. -/
theorem Reports.unique {a : Analysis} {name : String} {d e : Diagnostic} (hd : Reports a name d)
    (he : Reports a name e) :
    d = e := by
  have hspan := hd.place.unique he.place
  cases d
  cases e
  simp only at hspan
  simp only [hspan, Diagnostic.mk.injEq, true_and]
  exact ⟨hd.severity.trans he.severity.symm, hd.code.trans he.code.symm, hd.message.trans he.message.symm,
    hd.related.trans he.related.symm⟩

/-- The error about a name names it. -/
theorem Reports.name_eq {a : Analysis} {name other : String} {d : Diagnostic} (hd : Reports a name d)
    (hd' : Reports a other d) : name = other := by
  have hrelated := hd.related.symm.trans hd'.related
  obtain ⟨symbol, hsymbol⟩ := List.exists_mem_of_length_pos (Nat.lt_trans Nat.zero_lt_one hd.place.length)
  have hmem : (⟨symbol.uri, symbol.nameSpan, s!"'{name}' defined here"⟩ : RelatedLocation) ∈
      (a.symbols.active other).map fun s => ⟨s.uri, s.nameSpan, s!"'{other}' defined here"⟩ :=
    hrelated ▸ List.mem_map_of_mem hsymbol
  obtain ⟨_, _, heq⟩ := List.mem_map.1 hmem
  have htext := congrArg (fun r => r.message.toList) heq
  simpa [toString, String.toList_inj] using htext.symm

/-! ## Making the errors -/

section Document

variable (ctx : AnalysisContext) (uri : Uri) (text : String)

/-- The scope of a document, as names are looked up in it. -/
def documentEnv : Env where
  engine := ctx.engine
  functions := ctx.functions
  scope := (analyzeDocument ctx uri text).scope
  symbols := (analyzeDocument ctx uri text).symbols

/-- The second active definition of a name gives the place of its error. -/
theorem isPlace_duplicateSpan {name : String} {second : Symbol}
    (hsecond : ((analyzeDocument ctx uri text).symbols.active name)[1]? = some second) :
    IsPlace (analyzeDocument ctx uri text) name (duplicateSpan (analyzeDocument ctx uri text).scope.root second) := by
  refine ⟨second, hsecond, ?_⟩
  cases hvia : second.via with
  | none => simp [duplicateSpan, hvia]
  | some k =>
    have hdefinition := SymbolTable.mem_definitions_of_active (List.mem_of_getElem? hsecond)
    obtain ⟨f, hf, t, _, rfl⟩ := SymbolTable.definition_file hdefinition
    have himport := List.getElem?_eq_getElem (via_lt_length ctx uri text hf hvia)
    refine ⟨_, himport, ?_⟩
    have hroot : (analyzeDocument ctx uri text).scope.root.file.imports[k]? = _ := himport
    simp [duplicateSpan, hvia, hroot]

/-- The error that is made about a name. -/
theorem exists_duplicateDiagnostic {name : String}
    (hlength : 1 < ((analyzeDocument ctx uri text).symbols.active name).length) :
    ∃ d, duplicateDiagnostic (analyzeDocument ctx uri text).scope.root name
        ((analyzeDocument ctx uri text).symbols.active name) = some d ∧
      Reports (analyzeDocument ctx uri text) name d := by
  have hsecond := List.getElem?_eq_getElem hlength
  refine ⟨_, by rw [duplicateDiagnostic, hsecond]; rfl, ?_⟩
  exact
    { severity := rfl
      code := rfl
      message := rfl
      place := isPlace_duplicateSpan ctx uri text hsecond
      related := rfl }

/-- One error is made about each name that has several active definitions, and no other. -/
theorem mem_duplicateDiagnostics {d : Diagnostic} :
    d ∈ (documentEnv ctx uri text).duplicateDiagnostics ↔
      ∃ name, 1 < ((analyzeDocument ctx uri text).symbols.active name).length ∧
        Reports (analyzeDocument ctx uri text) name d := by
  unfold Env.duplicateDiagnostics
  rw [List.mem_filterMap]
  constructor
  · rintro ⟨⟨name, active⟩, hmem, hd⟩
    obtain ⟨rfl, hlength⟩ := SymbolTable.mem_duplicates.1 hmem
    obtain ⟨e, he, hreports⟩ := exists_duplicateDiagnostic ctx uri text hlength
    obtain rfl : e = d := Option.some.inj (he.symm.trans hd)
    exact ⟨name, hlength, hreports⟩
  · rintro ⟨name, hlength, hd⟩
    obtain ⟨e, he, hreports⟩ := exists_duplicateDiagnostic ctx uri text hlength
    obtain rfl := hreports.unique hd
    exact ⟨(name, _), SymbolTable.mem_duplicates.2 ⟨rfl, hlength⟩, he⟩

/-! ## Merging them -/

/-- Of the merged findings, those of this rule are the first at their places among the errors made. -/
theorem mem_diagnostics_iff {d : Diagnostic} (hcode : d.code = .duplicateTemplate) :
    d ∈ (analyzeDocument ctx uri text).diagnostics ↔
      (documentEnv ctx uri text).duplicateDiagnostics.find? (·.key = d.key) = some d := by
  have hsplit : [(Syntax.parse text).diagnostics, (analyzeDocument ctx uri text).scope.diagnostics,
        (documentEnv ctx uri text).diagnostics].flatten =
      ((Syntax.parse text).diagnostics ++ (analyzeDocument ctx uri text).scope.diagnostics) ++
        (documentEnv ctx uri text).duplicateDiagnostics ++
        (documentEnv ctx uri text).scope.root.file.templates.flatMap
          (documentEnv ctx uri text).templateDiagnostics := by
    simp [Env.diagnostics]
  refine Diagnostic.mem_merge_of_code hsplit ?_ ?_
  · intro e he
    rw [hcode]
    rcases List.mem_append.1 he with hparse | hscope
    · have hreading := Syntax.parse_ofReading text e hparse
      intro heq
      rw [heq] at hreading
      exact absurd hreading (by decide)
    · rcases scope_ofWalking ctx uri text e hscope with h | h | h <;> rw [h] <;> exact fun heq => by cases heq
  · intro e he
    rw [hcode]
    obtain ⟨t, _, hd⟩ := List.mem_flatMap.1 he
    exact templateDiagnostics_code _ t e hd

/-- Two names with their errors at one place cannot both be reported. -/
theorem placesApart_of_reported (h : DuplicatesReported (analyzeDocument ctx uri text)) :
    PlacesApart (analyzeDocument ctx uri text) := by
  intro name other span hname hother
  obtain ⟨i, ⟨d, hi, hd⟩, _⟩ := h.each name hname.length
  obtain ⟨j, ⟨e, hj, he⟩, _⟩ := h.each other hother.length
  have hspan : d.span = e.span := (hd.place.unique hname).trans (hother.unique he.place)
  have hkey : d.key = e.key := Prod.ext hspan (hd.code.trans he.code.symm)
  have hindex := Diagnostic.index_eq_of_key_eq hi hj hkey
  obtain rfl : d = e := Option.some.inj (hi.symm.trans (hindex ▸ hj))
  exact hd.name_eq he

/-- With all places apart no error is lost in merging. -/
theorem mem_diagnostics_of_placesApart (h : PlacesApart (analyzeDocument ctx uri text)) {name : String} {d : Diagnostic}
    (hd : Reports (analyzeDocument ctx uri text) name d) : d ∈ (analyzeDocument ctx uri text).diagnostics := by
  rw [mem_diagnostics_iff ctx uri text hd.code]
  have hmade : d ∈ (documentEnv ctx uri text).duplicateDiagnostics :=
    (mem_duplicateDiagnostics ctx uri text).2 ⟨name, hd.place.length, hd⟩
  have hsome : ((documentEnv ctx uri text).duplicateDiagnostics.find? (·.key = d.key)).isSome :=
    List.find?_isSome.2 ⟨d, hmade, by simp⟩
  -- The error that stays at this place is about a name as well, and this cannot be another one.
  obtain ⟨e, hfind⟩ := Option.isSome_iff_exists.1 hsome
  obtain ⟨other, _, he⟩ := (mem_duplicateDiagnostics ctx uri text).1 (List.mem_of_find?_eq_some hfind)
  have hkey : e.key = d.key := by simpa using List.find?_some hfind
  have hspan : e.span = d.span := congrArg Prod.fst hkey
  have hplace : IsPlace (analyzeDocument ctx uri text) other d.span := hspan ▸ he.place
  obtain rfl := h name other d.span hd.place hplace
  rw [hfind, he.unique hd]

/-- **Every name with several active definitions is reported exactly once, and nothing else is, exactly when no two such
names have their errors at one place.** -/
theorem duplicatesReported_iff :
    DuplicatesReported (analyzeDocument ctx uri text) ↔ PlacesApart (analyzeDocument ctx uri text) := by
  constructor
  · exact placesApart_of_reported ctx uri text
  · intro hapart
    refine ⟨fun name hlength => ?_, fun d hd hcode => ?_⟩
    · obtain ⟨d, _, hreports⟩ := exists_duplicateDiagnostic ctx uri text hlength
      obtain ⟨i, hi⟩ := List.getElem?_of_mem (mem_diagnostics_of_placesApart ctx uri text hapart hreports)
      refine ⟨i, ⟨d, hi, hreports⟩, ?_⟩
      -- Merged findings have different keys, so that a second error about the name would be at the same index.
      rintro j ⟨e, hj, he⟩
      exact Diagnostic.index_eq_of_key_eq hj hi (congrArg Diagnostic.key (he.unique hreports))
    · have hfind := (mem_diagnostics_iff ctx uri text hcode).1 hd
      exact (mem_duplicateDiagnostics ctx uri text).1 (List.mem_of_find?_eq_some hfind)

end Document

/-- A library in which two names are defined twice. -/
def twiceTwice : AnalysisContext where
  sources := { read := fun u =>
    if u = ⟨"file:///project/lib.lg"⟩ then .ok "# A\n- a\n# A\n- a\n# B\n- b\n# B\n- b" else .error (.notFound u) }
  engine := Expression.builtinEngine
  functions := .builtin

/-- A root that imports two names which are defined twice has an error for the first of them only. -/
theorem not_duplicatesReported_twiceTwice :
    ¬ DuplicatesReported (analyzeDocument twiceTwice ⟨"file:///project/main.lg"⟩ "[lib](lib.lg)\n# Main\n- hi") := by
  intro h
  have hplace : ∀ name ∈ ["A", "B"], IsPlace
      (analyzeDocument twiceTwice ⟨"file:///project/main.lg"⟩ "[lib](lib.lg)\n# Main\n- hi") name (.ofSize 0 13) := by
    intro name hname
    have hspan : ∀ name ∈ ["A", "B"],
        ((analyzeDocument twiceTwice ⟨"file:///project/main.lg"⟩
            "[lib](lib.lg)\n# Main\n- hi").symbols.active name)[1]?.map
          (duplicateSpan (analyzeDocument twiceTwice ⟨"file:///project/main.lg"⟩
            "[lib](lib.lg)\n# Main\n- hi").scope.root) = some (.ofSize 0 13) := by
      decide +kernel
    obtain ⟨second, hsecond, hplace⟩ := Option.map_eq_some_iff.1 (hspan name hname)
    exact hplace ▸ isPlace_duplicateSpan _ _ _ hsecond
  have heq := placesApart_of_reported _ _ _ h "A" "B" _ (hplace "A" (by simp)) (hplace "B" (by simp))
  exact absurd heq (by decide)

end LgLang.Analyzer
