import LgLang.Proofs.Analysis.Files
import LgLang.Proofs.Analysis.Index
import LgLang.Proofs.Analysis.References
import Mathlib.Data.List.Flatten

/-!
# The names in a document

What can be asked about a document is asked at an offset of it: which template is defined there, and which name is used.
The names of its templates and of its indexed references stand in it where their spans say (`rootReference_holds`),
and no two of them touch (`rootNames_apart`), so that an offset never asks about two of them.
-/

namespace LgLang.Analyzer

/-! ## What the index keeps -/

theorem fileReference_uri {engine : Expression.Engine} {functions : Registry} {scope : Scope} {f : ScopeFile}
    {r : Reference} (hr : r ∈ (scopeEnv engine functions scope).fileReferences f) : r.uri = f.uri := by
  obtain ⟨t, _, hr⟩ := List.mem_flatMap.1 hr
  rw [templateReferences_eq] at hr
  obtain ⟨u, hu, rfl⟩ := List.mem_map.1 hr
  exact congrArg ScopeFile.uri (file_of_mem_templateSites (List.mem_filter.1 hu).1)

/-- Of the names that the root uses, the index keeps some. -/
theorem fileReferences_sublist (env : Env) : (env.fileReferences env.scope.root).Sublist env.rootUses :=
  List.Sublist.flatMap_right _ fun _ _ =>
    (List.Sublist.flatMap_right _ fun _ _ => List.filter_sublist).append_right _

/-! ## The names in the root -/

/-- Of files that are read from different documents, no other is read from the document of the root. -/
theorem uri_ne_root {scope : Scope} (hnodup : (scope.files.map (·.uri)).Nodup) {f : ScopeFile} (hf : f ∈ scope.others) :
    f.uri ≠ scope.root.uri := by
  intro huri
  have hmem : f.uri ∈ scope.others.map (·.uri) := List.mem_map_of_mem hf
  rw [huri] at hmem
  exact (List.nodup_cons.1 hnodup).1 hmem

/-- What is in the document of the root is then what is in the root. -/
theorem filter_flatMap_root {α : Type} {scope : Scope} {g : ScopeFile → List α} {place : α → Uri}
    (hnodup : (scope.files.map (·.uri)).Nodup) (hplace : ∀ f, ∀ x ∈ g f, place x = f.uri) :
    (scope.files.flatMap g).filter (place · == scope.root.uri) = g scope.root := by
  have hothers : ∀ x ∈ scope.others.flatMap g, ¬(place x == scope.root.uri) = true := by
    intro x hx hroot
    obtain ⟨f, hf, hx⟩ := List.mem_flatMap.1 hx
    exact uri_ne_root hnodup hf ((hplace f x hx).symm.trans (eq_of_beq hroot))
  have hroot : ∀ x ∈ g scope.root, (place x == scope.root.uri) = true := fun x hx => beq_iff_eq.2 (hplace _ x hx)
  rw [Scope.files, List.flatMap_cons, List.filter_append, List.filter_eq_self.2 hroot, List.filter_eq_nil_iff.2 hothers,
    List.append_nil]

/-- The definitions in the root. -/
def rootDefinitions (a : Analysis) : List Symbol :=
  a.symbols.all.filter (·.uri == a.uri)

/-- The references in the root that the index keeps. -/
def rootReferences (a : Analysis) : List Reference :=
  a.references.toList.filter (·.uri == a.uri)

/-- The places of all names in the root: those that are defined there and those that are used there. -/
def rootNames (a : Analysis) : List Span :=
  (rootDefinitions a).map (·.nameSpan) ++ (rootReferences a).map (·.span)

section Document

variable (ctx : AnalysisContext) (uri : Uri) (text : String)

theorem rootDefinitions_perm : (rootDefinitions (analyzeDocument ctx uri text)).Perm
    ((Syntax.parse text).file.templates.map (.ofTemplate (analyzeDocument ctx uri text).scope.root)) := by
  have hperm := (SymbolTable.all_perm (analyzeDocument ctx uri text).scope).filter (·.uri == uri)
  have hplace : ∀ (f : ScopeFile), ∀ s ∈ f.file.templates.map (Symbol.ofTemplate f), s.uri = f.uri := by
    intro f s hs
    obtain ⟨t, _, rfl⟩ := List.mem_map.1 hs
    rfl
  exact hperm.trans (.of_eq (filter_flatMap_root (files_nodup ctx uri text) hplace))

theorem rootReferences_perm : (rootReferences (analyzeDocument ctx uri text)).Perm
    ((scopeEnv ctx.engine ctx.functions (analyzeDocument ctx uri text).scope).fileReferences
      (analyzeDocument ctx uri text).scope.root) := by
  have hperm := (ReferenceIndex.toList_perm ((analyzeDocument ctx uri text).scope.files.flatMap
    (scopeEnv ctx.engine ctx.functions (analyzeDocument ctx uri text).scope).fileReferences)).filter (·.uri == uri)
  exact hperm.trans (.of_eq (filter_flatMap_root (files_nodup ctx uri text) fun f r hr => fileReference_uri hr))

end Document

section Builtin

variable (sources : Sources) (functions : Registry) (uri : Uri) (text : String)

/-- **No two names in a document touch.** -/
theorem rootNames_apart :
    (rootNames (analyzeDocument (builtinContext sources functions) uri text)).Pairwise Span.Apart := by
  have hdefinitions := (rootDefinitions_perm (builtinContext sources functions) uri text).map Symbol.nameSpan
  have hreferences := (rootReferences_perm (builtinContext sources functions) uri text).map Reference.span
  rw [List.map_map] at hdefinitions
  refine ((hdefinitions.append hreferences).pairwise_iff Span.Apart.symm).2 ?_
  -- The index keeps some of the names that the root uses.
  have hkept := (fileReferences_sublist (documentEnv (builtinContext sources functions) uri text)).map Reference.span
  exact (documentUses_apart sources functions uri text).sublist (hkept.append_left _)

/-- The name of a definition in a document stands where it is said to be. -/
theorem rootDefinition_fits {s : Symbol}
    (hs : s ∈ rootDefinitions (analyzeDocument (builtinContext sources functions) uri text)) :
    s.nameSpan.Fits text.toList := by
  obtain ⟨t, ht, rfl⟩ := List.mem_map.1 ((rootDefinitions_perm _ uri text).mem_iff.1 hs)
  exact ((Syntax.parse_placed text).templates t ht).name.fits

/-- The name of a reference in a document stands where it is said to be. -/
theorem rootReference_holds {r : Reference}
    (hr : r ∈ rootReferences (analyzeDocument (builtinContext sources functions) uri text)) :
    r.span.Holds text.toList r.name.toList := by
  have hkept := fileReferences_sublist (documentEnv (builtinContext sources functions) uri text)
  obtain ⟨t, ht, hr⟩ := List.mem_flatMap.1 (hkept.subset ((rootReferences_perm _ uri text).mem_iff.1 hr))
  exact (use_placed rfl ((Syntax.parse_placed text).templates t ht) (Syntax.parse_namesApart text t ht) hr).1

end Builtin

end LgLang.Analyzer
