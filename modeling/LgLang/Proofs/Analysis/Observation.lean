import LgLang.Expression.Scan
import LgLang.Function.Builtin
import LgLang.Proofs.Analysis.Cancellation
import LgLang.Proofs.Analysis.Files

/-!
# What an analysis rests on

An analysis rests on its text and on the answers to its reads. Two analyses of a document are equal exactly when both
are the same (`analyzeDocument_eq_iff`), so that nothing less has to be watched to keep a result and nothing more. The
reads that succeed are the dependencies of the result (`mem_dependencies`); those that fail leave a finding and no
dependency. All of them are targets in the import graph, so that it is enough to watch these
(`analyze_eq_of_targets`).
-/

namespace LgLang

open Import (answer)

variable {ctx : AnalysisContext} {uri : Uri} {text text' : String} {read' : Uri → Except SourceError String}

/-- The same with other texts of imported documents. -/
def AnalysisContext.withRead (ctx : AnalysisContext) (read : Uri → Except SourceError String) : AnalysisContext :=
  { ctx with sources := { ctx.sources with read } }

theorem documentWalk_congr
    (hagree : ∀ v ∈ documentReads ctx uri text, answer read' v = answer ctx.sources.read v) :
    documentWalk (ctx.withRead read') uri text (fun _ => false) = documentWalk ctx uri text (fun _ => false) :=
  Import.walkFrom_congr rfl 1 fun v hv => hagree v (List.mem_reverse.2 hv)

/-- **Two analyses of a document are equal exactly when their texts are and the reads of the first have the same answers
for the second.** -/
theorem analyzeDocument_eq_iff :
    analyzeDocument ctx uri text = analyzeDocument (ctx.withRead read') uri text' ↔
      text' = text ∧ ∀ v ∈ documentReads ctx uri text, answer read' v = answer ctx.sources.read v := by
  constructor
  · intro h
    have hscope := congrArg Analysis.scope h
    obtain rfl : text = text' := congrArg (fun s : Scope => s.root.text) hscope
    have hothers := List.reverse_inj.1 (congrArg Scope.others hscope)
    have hdiagnostics := List.reverse_inj.1 (congrArg Scope.diagnostics hscope)
    refine ⟨rfl, fun v hv => ?_⟩
    exact Import.answers_eq_of_same_result rfl 1 hothers hdiagnostics v (List.mem_reverse.1 hv)
  · rintro ⟨rfl, hagree⟩
    unfold analyzeDocument
    rw [documentWalk_congr hagree]
    rfl

/-- **The dependencies of a result are the reads that succeeded.** -/
theorem mem_dependencies {v : Uri} :
    v ∈ (analyzeDocument ctx uri text).scope.dependencies ↔
      v ∈ documentReads ctx uri text ∧ ∃ content, ctx.sources.read v = .ok content := by
  obtain ⟨t, _, hwalking, hwalk⟩ := Analyzer.documentWalk_runs ctx uri text
  have hothers : (documentWalk ctx uri text fun _ => false).others = t.others := congrArg Import.Walked.others hwalk
  have hreads : documentReads ctx uri text = t.log.reads.reverse :=
    congrArg (fun w => List.reverse (Import.Log.reads (Import.Walked.log w))) hwalk
  have hdependencies : v ∈ (analyzeDocument ctx uri text).scope.dependencies ↔ v ∈ t.others.map (·.uri) := by
    rw [← hothers]
    show v ∈ List.map _ (List.reverse _) ↔ _
    rw [List.map_reverse, List.mem_reverse]
  rw [hdependencies, hreads, List.mem_reverse]
  constructor
  · intro hv
    obtain ⟨f, hf, rfl⟩ := List.mem_map.1 hv
    have hread := (hwalking.loaded f hf).1
    have hcount := hwalking.reads f.uri f.text hread
    refine ⟨List.count_pos_iff.1 ?_, f.text, hread⟩
    rw [hcount]
    exact List.count_pos_iff.2 hv
  · rintro ⟨hv, content, hread⟩
    have hcount := hwalking.reads v content hread
    refine List.count_pos_iff.1 ?_
    rw [← hcount]
    exact List.count_pos_iff.2 hv

/-- A result does not depend on its own document. -/
theorem uri_not_mem_dependencies : uri ∉ (analyzeDocument ctx uri text).scope.dependencies := by
  obtain ⟨t, _, hwalking, hwalk⟩ := Analyzer.documentWalk_runs ctx uri text
  have hothers : (documentWalk ctx uri text fun _ => false).others = t.others := congrArg Import.Walked.others hwalk
  intro hmem
  have hmem' : uri ∈ List.map ScopeFile.uri (documentWalk ctx uri text fun _ => false).others.reverse := hmem
  rw [hothers, List.map_reverse, List.mem_reverse] at hmem'
  exact (List.nodup_cons.1 hwalking.nodup).1 hmem'

/-! ## The graph as what to watch -/

/-- What is read is the target of an import, whether it could be read or not. -/
theorem documentReads_targets {v : Uri} (hv : v ∈ documentReads ctx uri text) :
    ∃ u, v ∈ (analyzeDocument ctx uri text).scope.graph.importsOf u := by
  obtain ⟨t, hrun, _, hwalk⟩ := Analyzer.documentWalk_runs ctx uri text
  have hlog : (documentWalk ctx uri text fun _ => false).log = t.log := congrArg Import.Walked.log hwalk
  have htargets : (documentWalk ctx uri text fun _ => false).log.ReadsTargets :=
    hlog ▸ Import.run_readsTargets hrun
  exact htargets v (List.mem_reverse.1 hv)

/-- **An analysis depends on no more than what the targets of its import graph give.** Over sources that agree on these
it has the same result, and it comes to it by the same reads. -/
theorem analyze_eq_of_targets
    (hagree : ∀ u v, v ∈ (analyzeDocument ctx uri text).scope.graph.importsOf u → read' v = ctx.sources.read v) :
    (analyze ctx uri text fun _ => false).result = some (analyzeDocument ctx uri text) ∧
      analyze (ctx.withRead read') uri text (fun _ => false) = analyze ctx uri text (fun _ => false) := by
  refine ⟨result_analyze_never, ?_⟩
  have hwalk : documentWalk (ctx.withRead read') uri text (fun _ => false) =
      documentWalk ctx uri text (fun _ => false) := by
    refine documentWalk_congr fun v hv => ?_
    obtain ⟨u, hu⟩ := documentReads_targets hv
    simp only [answer, hagree u v hu]
  rw [analyze, analyze, hwalk]
  rfl

/-- A library beside a document that is never asked for. -/
def besideLibrary : AnalysisContext where
  sources := { read := fun u =>
    if u = ⟨"file:///project/lib.lg"⟩ then .ok "[main](main.lg)\n# B\n- b" else .error (.notFound u) }
  engine := Expression.builtinEngine
  functions := .builtin

/-- A document that no import names may change: of the two that this one names, one cannot be read. -/
theorem analyze_eq_of_targets_besideLibrary :
    (∀ u v, v ∈ (analyzeDocument besideLibrary ⟨"file:///project/main.lg"⟩
          "[lib](lib.lg)\n[gone](gone.lg)\n# A\n- ${B()}").scope.graph.importsOf u →
        (if v = ⟨"file:///project/other.lg"⟩ then .ok "# Other\n- o" else besideLibrary.sources.read v) =
          besideLibrary.sources.read v) ∧
      (analyze besideLibrary ⟨"file:///project/main.lg"⟩ "[lib](lib.lg)\n[gone](gone.lg)\n# A\n- ${B()}"
          fun _ => false).result =
        some (analyzeDocument besideLibrary ⟨"file:///project/main.lg"⟩
          "[lib](lib.lg)\n[gone](gone.lg)\n# A\n- ${B()}") ∧
      analyze (besideLibrary.withRead fun v =>
          if v = ⟨"file:///project/other.lg"⟩ then .ok "# Other\n- o" else besideLibrary.sources.read v)
          ⟨"file:///project/main.lg"⟩ "[lib](lib.lg)\n[gone](gone.lg)\n# A\n- ${B()}" (fun _ => false) =
        analyze besideLibrary ⟨"file:///project/main.lg"⟩ "[lib](lib.lg)\n[gone](gone.lg)\n# A\n- ${B()}"
          (fun _ => false) := by
  have himports : ∀ f ∈ (analyzeDocument besideLibrary ⟨"file:///project/main.lg"⟩
        "[lib](lib.lg)\n[gone](gone.lg)\n# A\n- ${B()}").scope.files, ∀ i ∈ f.file.imports,
      besideLibrary.sources.resolve f.uri i.target ≠ some ⟨"file:///project/other.lg"⟩ := by
    decide +kernel
  have hagree : ∀ u v, v ∈ (analyzeDocument besideLibrary ⟨"file:///project/main.lg"⟩
        "[lib](lib.lg)\n[gone](gone.lg)\n# A\n- ${B()}").scope.graph.importsOf u →
      (if v = ⟨"file:///project/other.lg"⟩ then .ok "# Other\n- o" else besideLibrary.sources.read v) =
        besideLibrary.sources.read v := by
    intro u v hv
    obtain ⟨f, hf, rfl, i, hi, hresolve⟩ := Analyzer.edge_import _ _ _ hv
    have hne : v ≠ ⟨"file:///project/other.lg"⟩ := fun h => himports f hf i hi (h ▸ hresolve)
    rw [if_neg hne]
  exact ⟨hagree, analyze_eq_of_targets hagree⟩

end LgLang
