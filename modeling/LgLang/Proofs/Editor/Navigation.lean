import LgLang.Editor.Navigation
import LgLang.Proofs.Analysis.Names
import LgLang.Proofs.Analysis.Observation

/-!
# Going to definitions and back to references

Definitions and references are looked up in two tables that are filled independently: the symbols of the scope by their
names with aliases, the references by the keys that they resolved to. Both lookups take the first entry that touches the
offset. They agree (`analyze_coherent`), because no two names in the root touch, because a reference that means a
template has the name of that template as its key, and because every file of a scope is found again by its document.
What of an analysis matters for this is `Navigable`.
-/

namespace LgLang.Editor

open Analyzer (InScope rootDefinitions rootReferences rootNames rootNames_apart builtinContext)

/-! ## What an editor can rely on -/

/-- The location is that of a span in a file of the scope. -/
def IsAt (a : Analysis) (uri : Uri) (span : Span) (l : Location) : Prop :=
  ∃ f ∈ a.scope.files, f.uri = uri ∧ l = ⟨uri, .ofSpan f.text span⟩

/-- The location of a span in the root. -/
def rootLocation (a : Analysis) (span : Span) : Location :=
  ⟨a.uri, .ofSpan a.text span⟩

/-- Definitions and references are found consistently. -/
structure Coherent (a : Analysis) : Prop where
  /-- An offset of the root touches at most one name there. -/
  atMostOne : ∀ offset, ((rootNames a).filter (·.contains offset)).length ≤ 1
  /-- Anywhere on a reference to a template, all active definitions of its key are found, and there is one. -/
  definitions : ∀ r ∈ rootReferences a, r.target = .template → ∀ offset, r.span.contains offset = true →
    a.symbols.active r.key ≠ [] ∧
      List.Forall₂ (fun s l => IsAt a s.uri s.nameSpan l) (a.symbols.active r.key) (definitionsAt a offset)
  /-- Anywhere on a reference to a template, the reference itself is found. -/
  references : ∀ r ∈ rootReferences a, r.target = .template → ∀ offset, r.span.contains offset = true →
    ∀ withDefinitions, rootLocation a r.span ∈ referencesAt a offset withDefinitions
  /-- A reference to a template is found at a definition exactly when the definition is found at the reference. -/
  agree : ∀ s ∈ rootDefinitions a, ∀ r ∈ rootReferences a, r.target = .template →
    ∀ m, s.nameSpan.contains m = true → ∀ n, r.span.contains n = true → ∀ withDefinitions,
      (rootLocation a r.span ∈ referencesAt a m withDefinitions ↔ rootLocation a s.nameSpan ∈ definitionsAt a n)

/-! ## What makes it so -/

/-- What lookups by offset rest on. -/
structure Navigable (a : Analysis) : Prop where
  /-- Files are read from different documents. -/
  nodup : (a.scope.files.map (·.uri)).Nodup
  symbols : a.symbols = .ofScope a.scope
  isLocal : ∀ s ∈ rootDefinitions a, s.isLocal = true
  referencesTo : ∀ key r, r ∈ a.references.referencesTo key ↔ r ∈ a.references.toList ∧ r.key = key
  inScope : ∀ r ∈ a.references.toList, r.target = .template → InScope a.scope r.key
  apart : (rootNames a).Pairwise Span.Apart
  fits : ∀ s ∈ rootNames a, s.Fits a.text.toList

section Navigable

variable {a : Analysis} {s t : Span} {d d' : Symbol} {r r' : Reference} {uri : Uri} {name key : String} {l : Location}
  {m n : Nat}

/-! ### Locations -/

theorem isAt_of_inScope? (h : Location.inScope? a.scope uri s = some l) : IsAt a uri s l := by
  obtain ⟨f, hf, rfl⟩ := Option.map_eq_some_iff.1 h
  have huri : (f.uri == uri) = true := List.find?_some (p := fun g : ScopeFile => g.uri == uri) hf
  exact ⟨f, List.mem_of_find?_eq_some hf, eq_of_beq huri, rfl⟩

theorem inScope?_root (a : Analysis) (s : Span) : Location.inScope? a.scope a.uri s = some (rootLocation a s) := by
  simp [Location.inScope?, Scope.file?, Scope.files, rootLocation, Analysis.uri, Analysis.text]

/-- Different spans of a text have different ranges. -/
theorem ofSpan_injective {text : String} (hs : s.Fits text.toList) (ht : t.Fits text.toList)
    (h : Range.ofSpan text s = Range.ofSpan text t) : s = t := by
  obtain ⟨hstart, hstop⟩ := Range.mk.inj h
  exact Span.ext (Text.position_injective hs.start ht.start hstart) (Text.position_injective hs.stop ht.stop hstop)

/-- A location in the root tells the span. -/
theorem Navigable.isAt_root (h : Navigable a) (hat : IsAt a uri s (rootLocation a t)) (ht : t.Fits a.text.toList)
    (hs : uri = a.uri → s.Fits a.text.toList) : uri = a.uri ∧ s = t := by
  obtain ⟨f, hf, rfl, hlocation⟩ := hat
  obtain ⟨huri, hrange⟩ := Location.mk.inj hlocation
  have huri : f.uri = a.uri := huri.symm
  have hroot : f = a.scope.root :=
    (List.mem_cons.1 hf).resolve_right fun hother => Analyzer.uri_ne_root h.nodup hother huri
  refine ⟨huri, ?_⟩
  rw [hroot] at hrange
  exact (ofSpan_injective ht (hs huri) hrange).symm

/-! ### Lookups by offset -/

theorem Navigable.definitions_apart (h : Navigable a) :
    (rootDefinitions a).Pairwise fun d d' => d.nameSpan.Apart d'.nameSpan :=
  List.pairwise_map.1 (List.pairwise_append.1 h.apart).1

theorem Navigable.references_apart (h : Navigable a) : (rootReferences a).Pairwise fun r r' => r.span.Apart r'.span :=
  List.pairwise_map.1 (List.pairwise_append.1 h.apart).2.1

theorem Navigable.definition_reference_apart (h : Navigable a) (hd : d ∈ rootDefinitions a)
    (hr : r ∈ rootReferences a) : d.nameSpan.Apart r.span :=
  (List.pairwise_append.1 h.apart).2.2 _ (List.mem_map_of_mem hd) _ (List.mem_map_of_mem hr)

theorem find?_eq_some_of_unique {α : Type} {as : List α} {p : α → Bool} {b : α} (hb : b ∈ as) (hp : p b = true)
    (hunique : ∀ c ∈ as, p c = true → c = b) : as.find? p = some b := by
  cases hfound : as.find? p with
  | none => exact absurd hp (List.find?_eq_none.1 hfound b hb)
  | some c => rw [hunique c (List.mem_of_find?_eq_some hfound) (List.find?_some hfound)]

/-- On the name of a definition, this definition is found. -/
theorem Navigable.symbolAt?_definition (h : Navigable a) (hd : d ∈ rootDefinitions a)
    (hm : d.nameSpan.contains m = true) : a.symbolAt? m = some d := by
  obtain ⟨hall, huri⟩ := List.mem_filter.1 hd
  have hfound : a.symbols.definedAt? a.uri m = some d := by
    refine find?_eq_some_of_unique hall (Bool.and_eq_true_iff.2 ⟨huri, hm⟩) fun c hc htouch => ?_
    obtain ⟨hroot, hcontains⟩ := Bool.and_eq_true_iff.1 htouch
    exact Span.eq_of_contains h.definitions_apart (List.mem_filter.2 ⟨hc, hroot⟩) hd hcontains hm
  rw [Analysis.symbolAt?, hfound]

/-- On a reference, no definition is found, and of the references this one. -/
theorem Navigable.at?_reference (h : Navigable a) (hr : r ∈ rootReferences a) (hn : r.span.contains n = true) :
    a.symbols.definedAt? a.uri n = none ∧ a.references.at? a.uri n = some r := by
  obtain ⟨hall, huri⟩ := List.mem_filter.1 hr
  constructor
  · refine List.find?_eq_none.2 fun d hd htouch => ?_
    obtain ⟨hroot, hcontains⟩ := Bool.and_eq_true_iff.1 htouch
    exact (h.definition_reference_apart (List.mem_filter.2 ⟨hd, hroot⟩) hr).not_contains hcontains hn
  · refine find?_eq_some_of_unique hall (Bool.and_eq_true_iff.2 ⟨huri, hn⟩) fun c hc htouch => ?_
    obtain ⟨hroot, hcontains⟩ := Bool.and_eq_true_iff.1 htouch
    exact Span.eq_of_contains h.references_apart (List.mem_filter.2 ⟨hc, hroot⟩) hr hcontains hn

/-- The definitions of a name are those in the table that have it. -/
theorem Navigable.mem_definitions_iff (h : Navigable a) :
    d ∈ a.symbols.definitions name ↔ d ∈ a.symbols.all ∧ d.name = name := by
  rw [h.symbols, SymbolTable.definitions_ofScope, List.mem_filter, decide_eq_true_eq,
    (SymbolTable.all_perm a.scope).mem_iff]

theorem Navigable.of_mem_active (h : Navigable a) (hd : d ∈ a.symbols.active name) :
    d ∈ a.symbols.all ∧ d.name = name :=
  h.mem_definitions_iff.1 (SymbolTable.mem_definitions_of_active hd)

/-- A definition in the root is one of those that count for its name. -/
theorem Navigable.mem_active (h : Navigable a) (hd : d ∈ rootDefinitions a) : d ∈ a.symbols.active d.name :=
  SymbolTable.mem_active_of_isLocal (h.mem_definitions_iff.2 ⟨(List.mem_filter.1 hd).1, rfl⟩) (h.isLocal d hd)

/-- The key of a reference to a template has a definition that counts. -/
theorem Navigable.active_ne_nil (h : Navigable a) (hr : r ∈ rootReferences a) (htarget : r.target = .template) :
    a.symbols.active r.key ≠ [] := by
  obtain ⟨f, hf, t, ht, hname⟩ := h.inScope r (List.mem_filter.1 hr).1 htarget
  have hsymbol : Symbol.ofTemplate f t ∈ SymbolTable.symbolsOf a.scope.files :=
    SymbolTable.mem_symbolsOf.2 ⟨f, hf, t, ht, rfl⟩
  have hall : Symbol.ofTemplate f t ∈ a.symbols.all := by
    rw [h.symbols]
    exact (SymbolTable.all_perm a.scope).mem_iff.2 hsymbol
  exact SymbolTable.active_ne_nil (h.mem_definitions_iff.2 ⟨hall, hname⟩)

/-- On a reference to a template, a definition of its key is found. -/
theorem Navigable.symbolAt?_reference (h : Navigable a) (hr : r ∈ rootReferences a) (htarget : r.target = .template)
    (hn : r.span.contains n = true) : ∃ d, a.symbolAt? n = some d ∧ d.name = r.key := by
  obtain ⟨hnone, hat⟩ := h.at?_reference hr hn
  rw [Analysis.symbolAt?, hnone, hat]
  simp only [htarget, if_true]
  cases hactive : a.symbols.active r.key with
  | nil => exact absurd hactive (h.active_ne_nil hr htarget)
  | cons d ds =>
    refine ⟨d, by rw [SymbolTable.resolve?, hactive, List.head?_cons], ?_⟩
    exact (h.of_mem_active (hactive ▸ List.mem_cons_self)).2

theorem Navigable.definitionsAt_reference (h : Navigable a) (hr : r ∈ rootReferences a) (htarget : r.target = .template)
    (hn : r.span.contains n = true) : definitionsAt a n = definitionLocations a r.key := by
  obtain ⟨d, hd, hname⟩ := h.symbolAt?_reference hr htarget hn
  rw [definitionsAt, hd, ← hname]

/-! ### What is found -/

theorem forall₂_filterMap {α β : Type} {g : α → Option β} {R : α → β → Prop} {as : List α}
    (h : ∀ a ∈ as, ∃ b, g a = some b ∧ R a b) : List.Forall₂ R as (as.filterMap g) := by
  induction as with
  | nil => exact .nil
  | cons a as ih =>
    obtain ⟨⟨b, hb, hR⟩, hrest⟩ := List.forall_mem_cons.1 h
    rw [List.filterMap_cons_some hb]
    exact .cons hR (ih hrest)

/-- The definitions that count for a name have their locations one by one, for their files are in the scope. -/
theorem Navigable.definitionLocations_forall₂ (h : Navigable a) (name : String) :
    List.Forall₂ (fun d l => IsAt a d.uri d.nameSpan l) (a.symbols.active name) (definitionLocations a name) := by
  refine forall₂_filterMap fun d hd => ?_
  have hdefinition := SymbolTable.mem_definitions_of_active hd
  rw [h.symbols] at hdefinition
  obtain ⟨f, hf, t, _, rfl⟩ := SymbolTable.definition_file hdefinition
  have hfile : (a.scope.file? f.uri).isSome = true := List.find?_isSome.2 ⟨f, hf, beq_self_eq_true f.uri⟩
  obtain ⟨g, hg⟩ := Option.isSome_iff_exists.1 hfile
  have hlocation : Location.inScope? a.scope f.uri t.nameSpan = some ⟨f.uri, .ofSpan g.text t.nameSpan⟩ := by
    rw [Location.inScope?, hg, Option.map_some]
  exact ⟨_, hlocation, isAt_of_inScope? hlocation⟩

/-- A name in the root is among the definitions of a name exactly when it is that of a definition of this name. -/
theorem Navigable.mem_definitionLocations (h : Navigable a) (ht : t ∈ rootNames a) :
    rootLocation a t ∈ definitionLocations a name ↔ ∃ d ∈ rootDefinitions a, d.name = name ∧ d.nameSpan = t := by
  constructor
  · intro hl
    obtain ⟨d, hd, hlocation⟩ := List.mem_filterMap.1 hl
    obtain ⟨hall, hname⟩ := h.of_mem_active hd
    have hroot : d.uri = a.uri → d ∈ rootDefinitions a := fun huri => List.mem_filter.2 ⟨hall, beq_iff_eq.2 huri⟩
    -- A location tells the document, and in the root also the span.
    obtain ⟨huri, hspan⟩ := h.isAt_root (isAt_of_inScope? hlocation) (h.fits t ht) fun huri =>
      h.fits _ (List.mem_append_left _ (List.mem_map_of_mem (hroot huri)))
    exact ⟨d, hroot huri, hname, hspan⟩
  · rintro ⟨d, hd, rfl, rfl⟩
    have huri : d.uri = a.uri := eq_of_beq (List.mem_filter.1 hd).2
    refine List.mem_filterMap.2 ⟨d, h.mem_active hd, ?_⟩
    rw [huri]
    exact inScope?_root a d.nameSpan

/-- A name in the root is among the references to a key exactly when it is that of a reference to this key. -/
theorem Navigable.mem_referenceLocations (h : Navigable a) {target : Target} (ht : t ∈ rootNames a) :
    rootLocation a t ∈ referenceLocations a key target ↔
      ∃ r ∈ rootReferences a, r.key = key ∧ r.target = target ∧ r.span = t := by
  constructor
  · intro hl
    obtain ⟨r, hr, hlocation⟩ := List.mem_filterMap.1 hl
    obtain ⟨hr, htarget⟩ := List.mem_filter.1 hr
    obtain ⟨hall, hkey⟩ := (h.referencesTo key r).1 hr
    have hroot : r.uri = a.uri → r ∈ rootReferences a := fun huri => List.mem_filter.2 ⟨hall, beq_iff_eq.2 huri⟩
    obtain ⟨huri, hspan⟩ := h.isAt_root (isAt_of_inScope? hlocation) (h.fits t ht) fun huri =>
      h.fits _ (List.mem_append_right _ (List.mem_map_of_mem (hroot huri)))
    exact ⟨r, hroot huri, hkey, eq_of_beq htarget, hspan⟩
  · rintro ⟨r, hr, rfl, rfl, rfl⟩
    obtain ⟨hall, huri⟩ := List.mem_filter.1 hr
    have hreferences := (h.referencesTo r.key r).2 ⟨hall, rfl⟩
    refine List.mem_filterMap.2 ⟨r, List.mem_filter.2 ⟨hreferences, beq_self_eq_true r.target⟩, ?_⟩
    rw [eq_of_beq huri]
    exact inScope?_root a r.span

/-- A reference is not among the definitions of any name. -/
theorem Navigable.reference_not_mem_definitionLocations (h : Navigable a) (hr : r ∈ rootReferences a) :
    rootLocation a r.span ∉ definitionLocations a name := by
  intro hl
  obtain ⟨d, hd, _, hspan⟩ :=
    (h.mem_definitionLocations (List.mem_append_right _ (List.mem_map_of_mem hr))).1 hl
  have hapart := h.definition_reference_apart hd hr
  rw [hspan] at hapart
  exact hapart.not_contains r.span.contains_start r.span.contains_start

/-- A reference to a template is found where a symbol is asked for exactly when its key is the name of the symbol. -/
theorem Navigable.mem_referencesAt (h : Navigable a) (hr : r ∈ rootReferences a) (htarget : r.target = .template)
    (hd : a.symbolAt? m = some d) (withDefinitions : Bool) :
    rootLocation a r.span ∈ referencesAt a m withDefinitions ↔ r.key = d.name := by
  have hdefinitions : rootLocation a r.span ∉ if withDefinitions then definitionLocations a d.name else [] := by
    split
    · exact h.reference_not_mem_definitionLocations hr
    · exact List.not_mem_nil
  rw [referencesAt, hd]
  show _ ∈ _ ++ _ ↔ _
  rw [List.mem_append, h.mem_referenceLocations (List.mem_append_right _ (List.mem_map_of_mem hr))]
  constructor
  · rintro (hl | ⟨r', hr', hkey, _, hspan⟩)
    · exact absurd hl hdefinitions
    · obtain rfl := Span.eq_of_place_eq h.references_apart hr' hr hspan
      exact hkey
  · exact fun hkey => Or.inr ⟨r, hr, hkey, htarget, rfl⟩

/-- A definition is found at a reference to a template exactly when its name is the key of the reference. -/
theorem Navigable.mem_definitionsAt (h : Navigable a) (hd : d ∈ rootDefinitions a) (hr : r ∈ rootReferences a)
    (htarget : r.target = .template) (hn : r.span.contains n = true) :
    rootLocation a d.nameSpan ∈ definitionsAt a n ↔ r.key = d.name := by
  rw [h.definitionsAt_reference hr htarget hn,
    h.mem_definitionLocations (List.mem_append_left _ (List.mem_map_of_mem hd))]
  constructor
  · rintro ⟨d', hd', hname, hspan⟩
    obtain rfl := Span.eq_of_place_eq h.definitions_apart hd' hd hspan
    exact hname.symm
  · exact fun hkey => ⟨d, hd, hkey.symm, rfl⟩

/-- Navigation in a navigable analysis is coherent. -/
theorem Navigable.coherent (h : Navigable a) : Coherent a where
  atMostOne := Span.length_filter_contains_le_one h.apart
  definitions := by
    intro r hr htarget offset hoffset
    rw [h.definitionsAt_reference hr htarget hoffset]
    exact ⟨h.active_ne_nil hr htarget, h.definitionLocations_forall₂ r.key⟩
  references := by
    intro r hr htarget offset hoffset withDefinitions
    obtain ⟨d, hd, hname⟩ := h.symbolAt?_reference hr htarget hoffset
    exact (h.mem_referencesAt hr htarget hd withDefinitions).2 hname.symm
  agree := by
    intro d hd r hr htarget m hm n hn withDefinitions
    rw [h.mem_referencesAt hr htarget (h.symbolAt?_definition hd hm), h.mem_definitionsAt hd hr htarget hn]

end Navigable

/-! ## Analyses -/

/-- Every analysis with the built-in reader is navigable. -/
theorem navigable_analyzeDocument (sources : Sources) (functions : Registry) (uri : Uri) (text : String) :
    Navigable (analyzeDocument (builtinContext sources functions) uri text) where
  nodup := Analyzer.files_nodup _ uri text
  symbols := rfl
  isLocal := by
    intro s hs
    obtain ⟨t, _, rfl⟩ := List.mem_map.1 ((Analyzer.rootDefinitions_perm _ uri text).mem_iff.1 hs)
    rfl
  referencesTo := fun _ _ => ReferenceIndex.mem_referencesTo_ofList
  inScope := fun r hr htarget => Analyzer.inScope_key hr htarget
  apart := rootNames_apart sources functions uri text
  fits := by
    intro s hs
    rcases List.mem_append.1 hs with hs | hs
    · obtain ⟨d, hd, rfl⟩ := List.mem_map.1 hs
      exact Analyzer.rootDefinition_fits sources functions uri text hd
    · obtain ⟨r, hr, rfl⟩ := List.mem_map.1 hs
      exact (Analyzer.rootReference_holds sources functions uri text hr).fits

/-- **Definitions and references are found consistently in every analysis with the built-in reader.** -/
theorem analyze_coherent (sources : Sources) (functions : Registry) (uri : Uri) (text : String)
    (cancelled : Nat → Bool) {a : Analysis}
    (h : (analyze (builtinContext sources functions) uri text cancelled).result = some a) : Coherent a := by
  obtain rfl := eq_of_result_analyze h
  exact (navigable_analyzeDocument sources functions uri text).coherent

/-- A library with one template. -/
def greetings : Sources where
  read u := if u = ⟨"file:///project/lib.lg"⟩ then .ok "# Greet(name)\n- Hello" else .error (.notFound u)

/-- A document that defines a template, calls one of a library, and refers to its own in brackets. -/
theorem analyze_coherent_greetings :
    ∃ a, (analyze (builtinContext greetings .builtin) ⟨"file:///project/main.lg"⟩
        "[lib](lib.lg)\n# Main\n- $\x7bGreet(1)\x7d [Main]" fun _ => false).result = some a ∧
      (rootReferences a).map (·.key) = ["Greet", "Main"] ∧ Coherent a :=
  ⟨_, result_analyze_never, by decide +kernel, analyze_coherent _ _ _ _ _ result_analyze_never⟩

end LgLang.Editor
