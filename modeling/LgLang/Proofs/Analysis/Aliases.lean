import LgLang.Expression.Scan
import LgLang.Function.Builtin
import LgLang.Proofs.Analysis.Files
import LgLang.Proofs.Analysis.Symbols
import LgLang.Proofs.Import.Aliases
import LgLang.Proofs.Syntax.Templates
import LgLang.Proofs.Text.Bytes

/-!
# Templates under aliases

An import under an alias should make the templates of its file known as `alias.Name`. The symbol table names the
templates of a file by the alias that the walk gave the file, and this is the alias of the first import of the root that
leads there, if that import names the file itself. An import under an alias that comes after another one that leads to
its file is without effect. So the templates are known by their aliases exactly when every import under an alias is the
first to lead to its file (`aliasesKept_iff`).

The name of a symbol alone does not tell whether it comes from an alias, for names may have dots in them. That is why
symbols are told apart by the span of the name as it stands in the file.
-/

namespace LgLang.Analyzer

open Import (FirstUnder)

/-- The table has a template of a file under a name. -/
def Presents (a : Analysis) (f : ScopeFile) (t : Syntax.Template) (name : String) : Prop :=
  ∃ s ∈ a.symbols.definitions name, s.uri = f.uri ∧ s.nameSpan = t.nameSpan

/-- Whenever the root imports a file under an alias, the table has all templates of the file under this alias. -/
def AliasesKept (sources : Sources) (a : Analysis) : Prop :=
  ∀ i ∈ a.file.imports, ∀ q, i.qualifier = some q →
    ∀ f ∈ a.scope.others, sources.resolve a.uri i.target = some f.uri →
      ∀ t ∈ f.file.templates, Presents a f t (qualify (some q) t.name)

/-- A name under an alias tells the alias, if it is known how much of the end of it is the name. -/
theorem qualifier_eq_of_qualify {qualifier : Option String} {q name other : String}
    (h : qualify qualifier other = qualify (some q) name)
    (hsize : Text.byteSize other.toList = Text.byteSize name.toList) : qualifier = some q := by
  have hlist := congrArg String.toList h
  cases qualifier with
  | none =>
    -- Behind an alias and a dot the name would be longer.
    simp only [qualify, String.toList_append] at hlist
    rw [hlist, Text.byteSize_append, Text.byteSize_append] at hsize
    have hdot : Text.byteSize ".".toList = 1 := by decide
    omega
  | some q' =>
    simp only [qualify, String.toList_append] at hlist
    have htotal := congrArg Text.byteSize hlist
    rw [Text.byteSize_append, Text.byteSize_append _ name.toList, hsize, Nat.add_right_cancel_iff] at htotal
    obtain ⟨hfront, _⟩ := Text.append_inj_of_byteSize hlist htotal
    rw [String.toList_inj.1 (List.append_cancel_right hfront)]

section Document

variable (ctx : AnalysisContext) (uri : Uri) (text : String)

/-- The table has a template under an alias exactly when the walk gave its file this alias. -/
theorem presents_qualified_iff {f : ScopeFile} (hf : f ∈ (analyzeDocument ctx uri text).scope.others)
    {t : Syntax.Template} (ht : t ∈ f.file.templates) {q : String} :
    Presents (analyzeDocument ctx uri text) f t (qualify (some q) t.name) ↔ f.qualifier = some q := by
  have hfile : f ∈ (analyzeDocument ctx uri text).scope.files := List.mem_cons_of_mem _ hf
  constructor
  · rintro ⟨s, hs, huri, hspan⟩
    have hname : s.name = qualify (some q) t.name := by
      have hfiltered := hs
      rw [show (analyzeDocument ctx uri text).symbols = .ofScope (analyzeDocument ctx uri text).scope from rfl,
        SymbolTable.definitions_ofScope] at hfiltered
      simpa using (List.mem_filter.1 hfiltered).2
    obtain ⟨g, hg, t', ht', rfl⟩ := SymbolTable.definition_file hs
    obtain rfl : g = f := List.inj_on_of_nodup_map (files_nodup ctx uri text) hg hfile huri
    -- Both names stand at one place in the file, so that they are equally long.
    have hsize : Text.byteSize t'.name.toList = Text.byteSize t.name.toList := by
      rw [file_parsed ctx uri text hfile] at ht ht'
      obtain ⟨_, hplace'⟩ := Syntax.parse_nameSpan ht'
      obtain ⟨_, hplace⟩ := Syntax.parse_nameSpan ht
      have hstart := congrArg Span.start hspan
      have hstop := congrArg Span.stop hspan
      simp only [Symbol.ofTemplate, hplace, hplace', Span.ofSize_start, Span.ofSize_stop] at hstart hstop
      omega
    exact qualifier_eq_of_qualify hname hsize
  · intro hq
    refine ⟨.ofTemplate f t, ?_, rfl, rfl⟩
    rw [show (analyzeDocument ctx uri text).symbols = .ofScope (analyzeDocument ctx uri text).scope from rfl,
      SymbolTable.definitions_ofScope, List.mem_filter]
    refine ⟨List.mem_flatMap.2 ⟨f, hfile, List.mem_map_of_mem ht⟩, ?_⟩
    simp [Symbol.ofTemplate, hq]

/-- **The templates of a document's imports are known by their aliases exactly when each import under an alias whose
file has templates is the first import that leads to this file.** -/
theorem aliasesKept_iff :
    AliasesKept ctx.sources (analyzeDocument ctx uri text) ↔
      ∀ i ∈ (analyzeDocument ctx uri text).file.imports, ∀ q, i.qualifier = some q →
        ∀ f ∈ (analyzeDocument ctx uri text).scope.others,
          ctx.sources.resolve (analyzeDocument ctx uri text).uri i.target = some f.uri → f.file.templates ≠ [] →
            FirstUnder ctx.sources (.root uri text (Syntax.parse text).file) q f.uri := by
  have hfirst : ∀ f ∈ (analyzeDocument ctx uri text).scope.others, ∀ q,
      f.qualifier = some q ↔ FirstUnder ctx.sources (.root uri text (Syntax.parse text).file) q f.uri :=
    fun f hf q => Import.qualifier_eq_some_iff ctx.sources rfl 1 (Import.Walked.mem_others.1 hf)
  constructor
  · intro h i hi q hq f hf hresolve htemplates
    obtain ⟨t, ht⟩ := List.exists_mem_of_ne_nil _ htemplates
    have hpresent := h i hi q hq f hf hresolve t ht
    exact (hfirst f hf q).1 ((presents_qualified_iff ctx uri text hf ht).1 hpresent)
  · intro h i hi q hq f hf hresolve t ht
    have hunder := h i hi q hq f hf hresolve (List.ne_nil_of_mem ht)
    exact (presents_qualified_iff ctx uri text hf ht).2 ((hfirst f hf q).2 hunder)

end Document

/-- A library `b.lg` that imports another one, `d.lg`. -/
def stackedLibraries : AnalysisContext where
  sources := { read := fun u =>
    if u = ⟨"file:///project/b.lg"⟩ then .ok "[d](d.lg)\n# B\n- b"
    else if u = ⟨"file:///project/d.lg"⟩ then .ok "# D\n- d"
    else .error (.notFound u) }
  engine := Expression.builtinEngine
  functions := .builtin

/-- A root that imports the upper library and then the lower one under an alias does not know the lower one by it. -/
theorem not_aliasesKept_stackedLibraries :
    ¬ AliasesKept stackedLibraries.sources (analyzeDocument stackedLibraries ⟨"file:///project/main.lg"⟩
      "[b](b.lg)\n[d](d.lg) as d\n# Main\n- ${d.D()}") := by
  intro h
  have himported : ∃ i ∈ (analyzeDocument stackedLibraries ⟨"file:///project/main.lg"⟩
        "[b](b.lg)\n[d](d.lg) as d\n# Main\n- ${d.D()}").file.imports, i.qualifier = some "d" ∧
      ∃ f ∈ (analyzeDocument stackedLibraries ⟨"file:///project/main.lg"⟩
        "[b](b.lg)\n[d](d.lg) as d\n# Main\n- ${d.D()}").scope.others,
        stackedLibraries.sources.resolve ⟨"file:///project/main.lg"⟩ i.target = some f.uri ∧
        ∃ t ∈ f.file.templates, qualify (some "d") t.name = "d.D" := by
    decide +kernel
  have habsent : (analyzeDocument stackedLibraries ⟨"file:///project/main.lg"⟩
      "[b](b.lg)\n[d](d.lg) as d\n# Main\n- ${d.D()}").symbols.definitions "d.D" = [] := by
    decide +kernel
  obtain ⟨i, hi, hq, f, hf, hresolve, t, ht, hname⟩ := himported
  obtain ⟨s, hs, _⟩ := h i hi "d" hq f hf hresolve t ht
  rw [hname, habsent] at hs
  cases hs

end LgLang.Analyzer
