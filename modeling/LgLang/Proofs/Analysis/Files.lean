import LgLang.Analysis
import LgLang.Proofs.Import.Reach

/-!
# Files of an analysis

The walk along the imports of a document stops after moves that keep its invariant (`documentWalk_runs`), and the files
in the scope of the document are what it has found by then (`scope_walked`). The facts about them that checks and names rely on are read off the invariant of the walk.
-/

namespace LgLang.Analyzer

open Relation (ReflTransGen)

variable (ctx : AnalysisContext) (uri : Uri) (text : String)

theorem documentWalk_runs :
    ∃ t, ReflTransGen (Import.Moves ⟨ctx.sources, fun _ => false, .root uri text (Syntax.parse text).file⟩)
        (.start (.root uri text (Syntax.parse text).file) 1) t ∧
      Import.Walking ⟨ctx.sources, fun _ => false, .root uri text (Syntax.parse text).file⟩ t ∧
      documentWalk ctx uri text (fun _ => false) = ⟨true, t.others, t.log⟩ := by
  obtain ⟨t, hrun, _, hwalking, hwalk⟩ := Import.walkFrom_runs ctx.sources (.root uri text (Syntax.parse text).file) rfl 1
  exact ⟨t, Import.run_moves hrun, hwalking, hwalk⟩

theorem scope_walked :
    ∃ s, Import.Walking ⟨ctx.sources, fun _ => false, .root uri text (Syntax.parse text).file⟩ s ∧
      (analyzeDocument ctx uri text).scope.others = s.others.reverse := by
  obtain ⟨s, _, hwalking, hwalk⟩ := documentWalk_runs ctx uri text
  exact ⟨s, hwalking, congrArg (fun w => w.others.reverse) hwalk⟩

/-- The files are read from different documents. -/
theorem files_nodup : ((analyzeDocument ctx uri text).scope.files.map (·.uri)).Nodup := by
  obtain ⟨s, hwalking, hothers⟩ := scope_walked ctx uri text
  show (uri :: (analyzeDocument ctx uri text).scope.others.map (·.uri)).Nodup
  rw [hothers, List.map_reverse, ((List.reverse_perm _).cons _).nodup_iff]
  exact hwalking.nodup

/-- The files are parsed from their texts. -/
theorem file_parsed {f : ScopeFile} (hf : f ∈ (analyzeDocument ctx uri text).scope.files) :
    f.file = (Syntax.parse f.text).file := by
  obtain ⟨s, hwalking, hothers⟩ := scope_walked ctx uri text
  rcases List.mem_cons.1 hf with rfl | hmem
  · rfl
  · rw [hothers, List.mem_reverse] at hmem
    exact (hwalking.loaded f hmem).2

/-- The import of the root that led to a file is one that the root has. -/
theorem via_lt_length {f : ScopeFile} (hf : f ∈ (analyzeDocument ctx uri text).scope.files) {k : Nat}
    (hk : f.via = some k) : k < (analyzeDocument ctx uri text).file.imports.length := by
  obtain ⟨s, hwalking, hothers⟩ := scope_walked ctx uri text
  rcases List.mem_cons.1 hf with rfl | hmem
  · cases hk
  · rw [hothers, List.mem_reverse] at hmem
    obtain ⟨j, hj, hreach⟩ := hwalking.via f hmem
    obtain rfl : j = k := Option.some.inj (hj.symm.trans hk)
    exact hreach.lt_length

/-- What is found on the walk along the imports are failures of imports and cycles. -/
theorem scope_ofWalking : ∀ d ∈ (analyzeDocument ctx uri text).scope.diagnostics, Import.OfWalking d.code := by
  intro d hd
  obtain ⟨t, hrun, _, hwalk⟩ := documentWalk_runs ctx uri text
  have hlog : (documentWalk ctx uri text fun _ => false).log = t.log := congrArg Import.Walked.log hwalk
  refine Import.run_reports hrun d ?_
  rw [← hlog]
  exact List.mem_reverse.1 hd

/-- Every edge comes from an import of a file. -/
theorem edge_import {u v : Uri} (h : v ∈ (analyzeDocument ctx uri text).scope.graph.importsOf u) :
    ∃ f ∈ (analyzeDocument ctx uri text).scope.files, f.uri = u ∧
      ∃ i ∈ f.file.imports, ctx.sources.resolve f.uri i.target = some v := by
  obtain ⟨t, _, hwalking, hwalk⟩ := documentWalk_runs ctx uri text
  have hothers : (documentWalk ctx uri text fun _ => false).others = t.others := congrArg Import.Walked.others hwalk
  have hlog : (documentWalk ctx uri text fun _ => false).log = t.log := congrArg Import.Walked.log hwalk
  have hedge : v ∈ t.log.graph.importsOf u := hlog ▸ h
  obtain ⟨f, hf, rfl, i, hi, hresolve⟩ := hwalking.edges u v hedge
  refine ⟨f, ?_, rfl, i, hi, hresolve⟩
  rw [← hothers] at hf
  exact Import.Walked.mem_files.2 hf

end LgLang.Analyzer
