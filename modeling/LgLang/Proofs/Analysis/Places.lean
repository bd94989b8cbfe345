import LgLang.Check
import LgLang.Editor.Notice
import LgLang.Proofs.Analysis.References
import LgLang.Proofs.Expression.Mistakes
import LgLang.Proofs.Import.Places

/-!
# Every finding can be located

Findings about a document come from reading it, from the walk along its imports and from the checks of its scope. Each of
these places its findings in the text of the root, and explains them by places in the files of the scope
(`diagnostics_locatable`). So whoever shows a finding finds a range for each of its places: in the text of the right
file, and with its beginning not behind its end (`Shown`).
-/

namespace LgLang.Analyzer

variable {scope : Scope} {d : Diagnostic}

/-- A finding lies in the text of the root, and each place that explains it lies in the text of the file that the scope
has under its name. All of them begin and end between characters. -/
structure Locatable (scope : Scope) (d : Diagnostic) : Prop where
  span : d.span.Fits scope.root.text.toList
  related : ∀ r ∈ d.related, ∃ f ∈ scope.files, f.uri = r.uri ∧ scope.file? r.uri = some f ∧ r.span.Fits f.text.toList

/-- A finding lies in a text, and no other place explains it. -/
structure Plain (cs : List Char) (d : Diagnostic) : Prop where
  span : d.span.Fits cs
  related : d.related = []

theorem Plain.locatable (h : Plain scope.root.text.toList d) : Locatable scope d :=
  ⟨h.span, fun _ hr => absurd (h.related ▸ hr) List.not_mem_nil⟩

section Document

variable (ctx : AnalysisContext) (uri : Uri) (text : String)

/-- Of the files of a scope, each is found under its own name. -/
theorem file?_eq_some {f : ScopeFile} (hf : f ∈ (analyzeDocument ctx uri text).scope.files) :
    (analyzeDocument ctx uri text).scope.file? f.uri = some f := by
  have hfile : ((analyzeDocument ctx uri text).scope.file? f.uri).isSome = true :=
    List.find?_isSome.2 ⟨f, hf, beq_self_eq_true f.uri⟩
  obtain ⟨g, hg⟩ := Option.isSome_iff_exists.1 hfile
  have huri : g.uri = f.uri := eq_of_beq (List.find?_some (p := fun g : ScopeFile => g.uri == f.uri) hg)
  rw [hg, List.inj_on_of_nodup_map (files_nodup ctx uri text) (List.mem_of_find?_eq_some hg) hf huri]

theorem import_fits {f : ScopeFile} (hf : f ∈ (analyzeDocument ctx uri text).scope.files) {i : Syntax.Import}
    (hi : i ∈ f.file.imports) : i.span.Fits f.text.toList := by
  rw [file_parsed ctx uri text hf] at hi
  exact ((Syntax.parse_placed f.text).imports i hi).span

theorem nameSpan_fits {f : ScopeFile} (hf : f ∈ (analyzeDocument ctx uri text).scope.files) {t : Syntax.Template}
    (ht : t ∈ f.file.templates) : t.nameSpan.Fits f.text.toList := by
  rw [file_parsed ctx uri text hf] at ht
  exact ((Syntax.parse_placed f.text).templates t ht).name.fits

/-! ## Reading and walking -/

theorem reading_locatable (hd : d ∈ (Syntax.parse text).diagnostics) :
    Locatable (analyzeDocument ctx uri text).scope d :=
  Plain.locatable ⟨(Syntax.parse_placed text).findings d hd, (Syntax.parse_isRead text d hd).related⟩

theorem walking_locatable (hd : d ∈ (analyzeDocument ctx uri text).scope.diagnostics) :
    Locatable (analyzeDocument ctx uri text).scope d := by
  obtain ⟨t, hrun, -, hwalk⟩ := documentWalk_runs ctx uri text
  have hothers : (documentWalk ctx uri text fun _ => false).others = t.others := congrArg Import.Walked.others hwalk
  have hlog : (documentWalk ctx uri text fun _ => false).log = t.log := congrArg Import.Walked.log hwalk
  have hreported : d ∈ t.log.diagnostics := hlog ▸ List.mem_reverse.1 hd
  obtain ⟨⟨i, hi, hspan⟩, hrelated⟩ := Import.run_points rfl rfl hrun d hreported
  refine ⟨hspan ▸ import_fits ctx uri text List.mem_cons_self hi, fun r hr => ?_⟩
  obtain ⟨f, hf, huri, i, hi, hspan⟩ := hrelated r hr
  have hmem : f ∈ (analyzeDocument ctx uri text).scope.files := by
    rw [← hothers] at hf
    exact Import.Walked.mem_files.2 hf
  exact ⟨f, hmem, huri.symm, huri ▸ file?_eq_some ctx uri text hmem, hspan ▸ import_fits ctx uri text hmem hi⟩

/-! ## Names defined more than once -/

/-- A file that no import has led to is the root. -/
theorem eq_root_of_via {f : ScopeFile} (hf : f ∈ (analyzeDocument ctx uri text).scope.files) (hvia : f.via = none) :
    f = (analyzeDocument ctx uri text).scope.root := by
  obtain ⟨s, hwalking, hothers⟩ := scope_walked ctx uri text
  rcases List.mem_cons.1 hf with rfl | hmem
  · rfl
  · rw [hothers, List.mem_reverse] at hmem
    obtain ⟨k, hk, -⟩ := hwalking.via f hmem
    cases hk.symm.trans hvia

theorem duplicate_locatable (hd : d ∈ (documentEnv ctx uri text).duplicateDiagnostics) :
    Locatable (analyzeDocument ctx uri text).scope d := by
  obtain ⟨name, -, hreports⟩ := (mem_duplicateDiagnostics ctx uri text).1 hd
  have hfile : ∀ symbol ∈ (analyzeDocument ctx uri text).symbols.active name,
      ∃ f ∈ (analyzeDocument ctx uri text).scope.files, ∃ t ∈ f.file.templates, symbol = .ofTemplate f t :=
    fun symbol hsymbol => SymbolTable.definition_file (SymbolTable.mem_definitions_of_active hsymbol)
  constructor
  · obtain ⟨second, hsecond, hplace⟩ := hreports.place
    obtain ⟨f, hf, t, ht, rfl⟩ := hfile second (List.mem_of_getElem? hsecond)
    cases hvia : f.via with
    | none =>
      have hspan : d.span = t.nameSpan := by
        have hsymbol : (Symbol.ofTemplate f t).via = none := hvia
        rw [hsymbol] at hplace
        exact hplace
      rw [hspan, ← eq_root_of_via ctx uri text hf hvia]
      exact nameSpan_fits ctx uri text hf ht
    | some k =>
      have hsymbol : (Symbol.ofTemplate f t).via = some k := hvia
      rw [hsymbol] at hplace
      obtain ⟨i, hi, hspan⟩ := hplace
      rw [hspan]
      exact import_fits ctx uri text List.mem_cons_self (List.mem_of_getElem? hi)
  · intro r hr
    rw [hreports.related] at hr
    obtain ⟨symbol, hsymbol, rfl⟩ := List.mem_map.1 hr
    obtain ⟨f, hf, t, ht, rfl⟩ := hfile symbol hsymbol
    exact ⟨f, hf, rfl, file?_eq_some ctx uri text hf, nameSpan_fits ctx uri text hf ht⟩

end Document

/-! ## Templates of the root -/

section Templates

variable {env : Env} {t : Syntax.Template} {cs : List Char}

theorem repeatedParameters_about (seen : List String) (ps : List Syntax.Parameter) :
    ∀ d ∈ repeatedParameters seen ps, (∃ p ∈ ps, d.span = p.span) ∧ d.related = [] := by
  induction ps generalizing seen with
  | nil => exact fun d hd => absurd hd List.not_mem_nil
  | cons p ps ih =>
    have hrest : ∀ seen, ∀ d ∈ repeatedParameters seen ps, (∃ q ∈ p :: ps, d.span = q.span) ∧ d.related = [] := by
      intro seen d hd
      obtain ⟨⟨q, hq, hspan⟩, hrelated⟩ := ih seen d hd
      exact ⟨⟨q, List.mem_cons_of_mem p hq, hspan⟩, hrelated⟩
    rw [repeatedParameters]
    split
    · exact List.forall_mem_cons.2 ⟨⟨⟨p, List.mem_cons_self, rfl⟩, rfl⟩, hrest seen⟩
    · exact hrest _

theorem shapeDiagnostics_plain (ht : t.Located cs) : ∀ d ∈ shapeDiagnostics t, Plain cs d := by
  unfold shapeDiagnostics
  refine List.forall_mem_append.2 ⟨fun d hd => ?_, fun d hd => ?_⟩
  · obtain ⟨⟨p, hp, hspan⟩, hrelated⟩ := repeatedParameters_about [] t.parameters d hd
    exact ⟨hspan ▸ (ht.parameters p hp).fits, hrelated⟩
  · split at hd
    · obtain rfl := List.mem_singleton.1 hd
      exact ⟨ht.name.fits, rfl⟩
    · cases hd

theorem mistakeDiagnostics_plain (hengine : env.engine = Expression.builtinEngine) {s : Syntax.Segment}
    (hs : s.Located cs) : ∀ d ∈ env.mistakeDiagnostics s, Plain cs d := by
  intro d hd
  obtain ⟨m, hm, rfl⟩ := List.mem_map.1 hd
  rw [hengine] at hm
  refine ⟨?_, rfl⟩
  dsimp only [Diagnostic.error]
  split
  · exact hs.whole.fits
  · exact (Expression.scan_mistakes _ m hm).shift (Span.holds_iff.1 hs.content).1

theorem useDiagnostics_plain (hengine : env.engine = Expression.builtinEngine) (ht : t.Located cs)
    (hnames : t.NamesApart) {r : Reference} (hr : r ∈ env.templateUses t) :
    ∀ d ∈ env.useDiagnostics r, Plain cs d := by
  intro d hd
  obtain ⟨⟨-, -, hspan⟩, hrelated⟩ := useDiagnostics_made hd
  exact ⟨hspan ▸ (use_placed hengine ht hnames hr).1.fits, hrelated⟩

theorem templateDiagnostics_plain (hengine : env.engine = Expression.builtinEngine) (ht : t.Located cs)
    (hnames : t.NamesApart) : ∀ d ∈ env.templateDiagnostics t, Plain cs d := by
  unfold Env.templateDiagnostics
  refine List.forall_mem_append.2 ⟨List.forall_mem_append.2 ⟨shapeDiagnostics_plain ht, fun d hd => ?_⟩, fun d hd => ?_⟩
  · obtain ⟨s, hs, hd⟩ := List.mem_flatMap.1 hd
    rcases List.mem_append.1 hd with hd | hd
    · exact mistakeDiagnostics_plain hengine (ht.segments s hs).1 d hd
    · obtain ⟨r, hr, hd⟩ := List.mem_flatMap.1 hd
      obtain ⟨c, hc, rfl⟩ := List.mem_map.1 hr
      exact useDiagnostics_plain hengine ht hnames (mem_templateUses.2 (Or.inl ⟨s, hs, c, hc, rfl⟩)) d hd
  · obtain ⟨x, hx, hd⟩ := List.mem_flatMap.1 hd
    exact useDiagnostics_plain hengine ht hnames (mem_templateUses.2 (Or.inr ⟨x, hx, rfl⟩)) d hd

end Templates

/-! ## The merged findings -/

section Merged

variable (sources : Sources) (functions : Registry) (uri : Uri) (text : String)

/-- The checks of a scope place their findings as the walk and the reading do. -/
theorem checks_locatable (hd : d ∈ (documentEnv (builtinContext sources functions) uri text).diagnostics) :
    Locatable (analyzeDocument (builtinContext sources functions) uri text).scope d := by
  rcases List.mem_append.1 hd with hd | hd
  · exact duplicate_locatable _ uri text hd
  · obtain ⟨t, ht, hd⟩ := List.mem_flatMap.1 hd
    have hplain : Plain text.toList d :=
      templateDiagnostics_plain rfl ((Syntax.parse_placed text).templates t ht) (Syntax.parse_namesApart text t ht) d hd
    exact hplain.locatable

theorem merged_locatable (hd : d ∈ (analyzeDocument (builtinContext sources functions) uri text).diagnostics) :
    Locatable (analyzeDocument (builtinContext sources functions) uri text).scope d := by
  have hmade := List.mem_of_find?_eq_some (Diagnostic.mem_merge_iff.1 hd)
  simp only [List.flatten_cons, List.flatten_nil, List.append_nil, List.mem_append] at hmade
  rcases hmade with hreading | hwalking | hchecks
  · exact reading_locatable _ uri text hreading
  · exact walking_locatable _ uri text hwalking
  · exact checks_locatable sources functions uri text hchecks

end Merged

/-! ## Findings as they are shown -/

/-- Settings change the level of a finding and none of its places. -/
theorem Locatable.adjust {config : Config} {d' : Diagnostic} (h : Locatable scope d)
    (hd : config.adjust? d = some d') : Locatable scope d' := by
  unfold Config.adjust? at hd
  split at hd
  · exact Option.some.inj hd ▸ h
  · obtain ⟨s, -, rfl⟩ := Option.map_eq_some_iff.1 hd
    exact ⟨h.span, h.related⟩

/-- The range of a span does not end before it begins. -/
theorem ofSpan_ordered (text : String) (s : Span) :
    Text.AtMost (Editor.Range.ofSpan text s).start (Editor.Range.ofSpan text s).stop :=
  Text.position_mono s.start_le_stop

/-- How a finding is shown to an editor and in a report: at a range that does not end before it begins, and each place
that explains it likewise, in the file that the scope has for it. Nothing stands in for a file that is not there. -/
structure Shown (scope : Scope) (d : Diagnostic) : Prop where
  notice : Text.AtMost (Editor.Notice.ofDiagnostic scope d).range.start (Editor.Notice.ofDiagnostic scope d).range.stop
  entry : (Check.entry scope d).start = .ofPosition (Editor.Notice.ofDiagnostic scope d).range.start ∧
    (Check.entry scope d).stop = .ofPosition (Editor.Notice.ofDiagnostic scope d).range.stop
  related : ∀ r ∈ d.related, ∃ f ∈ scope.files, f.uri = r.uri ∧
    Editor.Notice.relatedOf scope r = ⟨⟨r.uri, .ofSpan f.text r.span⟩, r.message⟩ ∧
    Text.AtMost (Editor.Range.ofSpan f.text r.span).start (Editor.Range.ofSpan f.text r.span).stop ∧
    (Check.relatedEntry scope r).place = .ofPosition (Editor.Range.ofSpan f.text r.span).start

theorem Locatable.shown (h : Locatable scope d) : Shown scope d where
  notice := ofSpan_ordered scope.root.text d.span
  entry := ⟨rfl, rfl⟩
  related := by
    intro r hr
    obtain ⟨f, hf, huri, hfile, -⟩ := h.related r hr
    have hlocation : Editor.Location.inScope? scope r.uri r.span = some ⟨r.uri, .ofSpan f.text r.span⟩ := by
      rw [Editor.Location.inScope?, hfile, Option.map_some]
    refine ⟨f, hf, huri, ?_, ofSpan_ordered f.text r.span, ?_⟩
    · rw [Editor.Notice.relatedOf, hlocation, Option.getD_some]
    · simp only [Check.relatedEntry, hfile]
      rfl

/-- **Every finding of an analysis can be located**, and at whatever level the settings report it, it is shown where it
is. -/
theorem diagnostics_locatable (sources : Sources) (functions : Registry) (uri : Uri) (text : String) :
    (∀ d ∈ (analyzeDocument (builtinContext sources functions) uri text).diagnostics,
      Locatable (analyzeDocument (builtinContext sources functions) uri text).scope d) ∧
    ∀ config : Config,
      ∀ d ∈ config.adjustAll (analyzeDocument (builtinContext sources functions) uri text).diagnostics,
        Shown (analyzeDocument (builtinContext sources functions) uri text).scope d := by
  refine ⟨fun d hd => merged_locatable sources functions uri text hd, fun config d hd => ?_⟩
  obtain ⟨made, hmade, hadjusted⟩ := List.mem_filterMap.1 hd
  exact ((merged_locatable sources functions uri text hmade).adjust hadjusted).shown

-- Two imported files define one name. That is reported at the second import and explained by both definitions.
example : (Editor.Notice.ofAnalysis .default (analyzeDocument (builtinContext { read := fun _ => .ok "\n# Greet\n- hi" }
      .builtin) ⟨"file:///project/main.lg"⟩ "[a](a.lg)\n[b](b.lg)")).map (fun n => (n.range, n.related.map (·.location))) =
    [(⟨⟨1, 0⟩, ⟨1, 9⟩⟩, [⟨⟨"file:///project/a.lg"⟩, ⟨1, 2⟩, ⟨1, 7⟩⟩, ⟨⟨"file:///project/b.lg"⟩, ⟨1, 2⟩, ⟨1, 7⟩⟩])] := by
  decide +kernel

end LgLang.Analyzer
