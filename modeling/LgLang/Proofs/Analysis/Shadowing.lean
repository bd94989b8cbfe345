import LgLang.Proofs.Analysis.Files
import LgLang.Proofs.Analysis.Index
import Mathlib.Data.List.TakeWhile

/-!
# Templates of the same name in other files

Where a file besides the root uses the name of a template of its own, that template should be meant
(`OwnTemplatesWin`). The index keeps such a use under the name of the template in the scope, and of several templates
with this name the table gives the first in the order of the files (`resolve?_analyzeDocument`). So the own template is
meant unless the root, or a file that was reached before, has a template of the same name (`ownTemplatesWin_iff`).
-/

namespace LgLang.Analyzer

/-! ## What is to be meant -/

/-- A reference in a file besides the root, to the name of a template of that file, leads to a definition in that
file. -/
def OwnTemplatesWin (a : Analysis) : Prop :=
  ∀ f ∈ a.scope.files, ∀ r ∈ a.references.toList, r.uri = f.uri → r.target = .template → Own f r.name →
    (a.symbols.resolve? r.key).map Symbol.uri = some f.uri

instance (a : Analysis) : Decidable (OwnTemplatesWin a) :=
  inferInstanceAs (Decidable (∀ f ∈ a.scope.files, _))

/-- The files that were reached before a file, beginning with the root. -/
def filesBefore (scope : Scope) (f : ScopeFile) : List ScopeFile :=
  scope.files.takeWhile (·.uri != f.uri)

/-- A file that was reached before the file of a use has a template that is named, in the scope, as the template of that
file. -/
def Shadowed (scope : Scope) (u : Site) : Prop :=
  ∃ g ∈ filesBefore scope u.file, ∃ t ∈ g.file.templates,
    qualify g.qualifier t.name = qualify u.file.qualifier u.name

/-! ## The first definition of a name -/

section Files

variable {scope : Scope} {f : ScopeFile} {name : String}

/-- Of files that are read from different documents, these come before and the others behind. -/
theorem exists_files_eq (hnodup : (scope.files.map (·.uri)).Nodup) (hf : f ∈ scope.files) :
    ∃ rest, scope.files = filesBefore scope f ++ f :: rest := by
  have hsplit := List.takeWhile_append_dropWhile (p := (·.uri != f.uri)) (l := scope.files)
  cases hdrop : scope.files.dropWhile (·.uri != f.uri) with
  | nil =>
    have hall := List.dropWhile_eq_nil_iff.1 hdrop f hf
    simp at hall
  | cons g rest =>
    rw [hdrop] at hsplit
    have huri : g.uri = f.uri := by
      have hhead := List.head?_dropWhile_not (·.uri != f.uri) scope.files
      rw [hdrop] at hhead
      simpa using hhead
    have hg : g ∈ scope.files := by
      rw [← hsplit]
      exact List.mem_append_right _ List.mem_cons_self
    obtain rfl := List.inj_on_of_nodup_map hnodup hg hf huri
    exact ⟨rest, hsplit.symm⟩

theorem uri_ne_of_mem_filesBefore {g : ScopeFile} (hg : g ∈ filesBefore scope f) : g.uri ≠ f.uri := by
  have hne := List.mem_takeWhile_imp hg
  simpa using hne

/-- The first definition of the name of a template stands in its file exactly if no file before it has a template of
this name. -/
theorem uri_find?_symbolsOf_iff (hnodup : (scope.files.map (·.uri)).Nodup) (hf : f ∈ scope.files)
    (hname : ∃ t ∈ f.file.templates, qualify f.qualifier t.name = name) :
    ((SymbolTable.symbolsOf scope.files).find? (·.name = name)).map Symbol.uri = some f.uri ↔
      ∀ g ∈ filesBefore scope f, ∀ t ∈ g.file.templates, qualify g.qualifier t.name ≠ name := by
  obtain ⟨rest, hfiles⟩ := exists_files_eq hnodup hf
  have hsymbols : SymbolTable.symbolsOf scope.files = SymbolTable.symbolsOf (filesBefore scope f) ++
      (SymbolTable.symbolsOf [f] ++ SymbolTable.symbolsOf rest) := by
    rw [SymbolTable.symbolsOf, hfiles]
    simp [SymbolTable.symbolsOf]
  rw [hsymbols, List.find?_append]
  constructor
  · intro hfirst g hg t ht hsame
    -- Then the first definition stands in one of the files before.
    obtain ⟨d, hd⟩ : ∃ d, (SymbolTable.symbolsOf (filesBefore scope f)).find? (·.name = name) = some d := by
      rw [← Option.isSome_iff_exists, List.find?_isSome]
      exact ⟨.ofTemplate g t, SymbolTable.mem_symbolsOf.2 ⟨g, hg, t, ht, rfl⟩, decide_eq_true hsame⟩
    obtain ⟨g', hg', t', -, rfl⟩ := SymbolTable.mem_symbolsOf.1 (List.mem_of_find?_eq_some hd)
    rw [hd] at hfirst
    exact uri_ne_of_mem_filesBefore hg' (Option.some.inj hfirst)
  · intro hnone
    have hbefore : (SymbolTable.symbolsOf (filesBefore scope f)).find? (·.name = name) = none := by
      rw [List.find?_eq_none]
      intro d hd
      obtain ⟨g, hg, t, ht, rfl⟩ := SymbolTable.mem_symbolsOf.1 hd
      rw [decide_eq_true_eq]
      exact hnone g hg t ht
    obtain ⟨d, hd⟩ : ∃ d, (SymbolTable.symbolsOf [f]).find? (·.name = name) = some d := by
      obtain ⟨t, ht, hsame⟩ := hname
      rw [← Option.isSome_iff_exists, List.find?_isSome]
      exact ⟨.ofTemplate f t, SymbolTable.mem_symbolsOf.2 ⟨f, List.mem_singleton_self f, t, ht, rfl⟩, decide_eq_true hsame⟩
    obtain ⟨g, hg, t, -, rfl⟩ := SymbolTable.mem_symbolsOf.1 (List.mem_of_find?_eq_some hd)
    obtain rfl := List.mem_singleton.1 hg
    rw [hbefore, Option.none_or, List.find?_append, hd]
    rfl

end Files

/-! ## Own templates in a document -/

variable (ctx : AnalysisContext) (uri : Uri) (text : String)

/-- In a document a name means its first definition in the order of the files. -/
theorem resolve?_analyzeDocument (name : String) : (analyzeDocument ctx uri text).symbols.resolve? name =
    (SymbolTable.symbolsOf (analyzeDocument ctx uri text).scope.files).find? (·.name = name) := by
  refine SymbolTable.resolve?_ofScope rfl (fun f hf => ?_) name
  obtain ⟨s, hwalking, hothers⟩ := scope_walked ctx uri text
  have hf : f ∈ s.others := by
    rw [← List.mem_reverse, ← hothers]
    exact hf
  obtain ⟨k, hk, -⟩ := hwalking.via f hf
  rw [hk]
  exact Option.some_ne_none k

/-- Of a name that a file defines the table gives its definition exactly if no file before it defines the name. -/
theorem resolve?_own_iff {f : ScopeFile} {name : String} (hf : f ∈ (analyzeDocument ctx uri text).scope.files)
    (hname : ∃ t ∈ f.file.templates, t.name = name) :
    ((analyzeDocument ctx uri text).symbols.resolve? (qualify f.qualifier name)).map Symbol.uri = some f.uri ↔
      ∀ g ∈ filesBefore (analyzeDocument ctx uri text).scope f, ∀ t ∈ g.file.templates,
        qualify g.qualifier t.name ≠ qualify f.qualifier name := by
  rw [resolve?_analyzeDocument]
  refine uri_find?_symbolsOf_iff (files_nodup ctx uri text) hf ?_
  obtain ⟨t, ht, rfl⟩ := hname
  exact ⟨t, ht, rfl⟩

/-- **Own templates win exactly where no file that was reached before has a template of the same name.** -/
theorem ownTemplatesWin_iff : OwnTemplatesWin (analyzeDocument ctx uri text) ↔
    ∀ u ∈ sites ctx.engine (analyzeDocument ctx uri text).scope, Own u.file u.name →
      ¬Shadowed (analyzeDocument ctx uri text).scope u := by
  have hindex : ∀ r, r ∈ (analyzeDocument ctx uri text).references.toList ↔
      ∃ u ∈ sites ctx.engine (analyzeDocument ctx uri text).scope,
        ¬IsLeftOut ctx.functions (analyzeDocument ctx uri text).scope u ∧
          entry (scopeEnv ctx.engine ctx.functions (analyzeDocument ctx uri text).scope) u = r :=
    fun _ => mem_references_iff
  constructor
  · intro hwin u hu hown hshadowed
    have hkept : ¬IsLeftOut ctx.functions (analyzeDocument ctx uri text).scope u := fun hleft => hleft.2.1.1 hown
    have hf := file_mem_of_mem_sites hu
    obtain ⟨hkey, htarget⟩ := entry_of_own hown
    have hresolve := hwin u.file hf _ ((hindex _).2 ⟨u, hu, hkept, rfl⟩) rfl htarget hown
    rw [hkey, resolve?_own_iff ctx uri text hf hown.2] at hresolve
    obtain ⟨g, hg, t, ht, hsame⟩ := hshadowed
    exact hresolve g hg t ht hsame
  · intro hnone f hf r hr huri _ hown
    obtain ⟨u, hu, -, rfl⟩ := (hindex r).1 hr
    obtain rfl : u.file = f := List.inj_on_of_nodup_map (files_nodup ctx uri text) (file_mem_of_mem_sites hu) hf huri
    have hown : Own u.file u.name := hown
    rw [(entry_of_own hown).1, resolve?_own_iff ctx uri text hf hown.2]
    exact fun g hg t ht hsame => hnone u hu hown ⟨g, hg, t, ht, hsame⟩

/-- A library with a template of the name of one in the root. -/
def greetingLibrary : AnalysisContext where
  sources := { read := fun u =>
    if u = ⟨"file:///project/lib.lg"⟩ then .ok "# Greet\n- hello\n# Twice\n- $\x7bGreet()\x7d" else .error (.notFound u) }
  engine := Expression.builtinEngine
  functions := .builtin

/-- The library calls its own template, but the template of the root is taken to be meant. -/
theorem not_ownTemplatesWin_greetingLibrary :
    ¬OwnTemplatesWin (analyzeDocument greetingLibrary ⟨"file:///project/main.lg"⟩ "[lib](lib.lg)\n# Greet\n- hi") := by
  decide +kernel

end LgLang.Analyzer
