import LgLang.Analysis
import LgLang.Expression.Scan
import LgLang.Function.Builtin
import LgLang.Proofs.Analysis.Symbols
import Mathlib.Data.List.Forall2
import Mathlib.Data.List.Basic
import Mathlib.Tactic.Tauto

/-!
# What the reference index holds

The index should have one entry for every place where a file of the scope uses a name, with the exception of the methods
of values: calls with a dot in their name that nothing answers and that do not stand behind an alias
(`ReferencesIndexed`). It has one for every place but the calls that nothing answers and that do not stand behind an
alias, whether there is a dot in their names or not. So the index is complete exactly when every call that nothing
answers has a dot (`referencesIndexed_iff`); a call without one is an error, but it is missing from the index.
-/

namespace LgLang

namespace ReferenceIndex

/-- The index of a list is filled with its references, one after another. -/
theorem byKey_ofList (rs : List Reference) : (ofList rs).byKey = rs.foldl (Maps.add Reference.key) ∅ :=
  (List.foldl_hom byKey fun _ _ => rfl).symm

/-- Under a key the index of a list holds the references to this key, in their order. -/
theorem referencesTo_ofList (rs : List Reference) (key : String) :
    (ofList rs).referencesTo key = rs.filter (·.key = key) := by
  rw [referencesTo, byKey_ofList, Maps.getD_foldl_add]
  simp

/-- The index of a list holds every reference once. -/
theorem toList_perm (rs : List Reference) : (ofList rs).toList.Perm rs := by
  show ((ofList rs).byKey.keys.flatMap fun key => (ofList rs).byKey.getD key []).Perm rs
  rw [byKey_ofList]
  exact Maps.flatMap_keys_perm Reference.key rs

/-- The references to a key are those of the index that have it. -/
theorem mem_referencesTo_ofList {rs : List Reference} {key : String} {r : Reference} :
    r ∈ (ofList rs).referencesTo key ↔ r ∈ (ofList rs).toList ∧ r.key = key := by
  rw [referencesTo_ofList, List.mem_filter, decide_eq_true_eq, (toList_perm rs).mem_iff]

end ReferenceIndex

namespace Analyzer

open Syntax (Template)

/-! ## The uses of names in a scope -/

/-- A place where a file of a scope uses a name. -/
structure Site where
  file : ScopeFile
  name : String
  span : Span
  kind : ReferenceKind
  argumentCount : Option Nat

/-- A call in a segment of a file whose content begins at `base`. -/
def Site.ofCall (f : ScopeFile) (base : Nat) (c : Expression.CallSite) : Site where
  file := f
  name := c.name
  span := c.span.shift base
  kind := .call
  argumentCount := c.argumentCount

def Site.ofBracket (f : ScopeFile) (r : Syntax.Reference) : Site where
  file := f
  name := r.name
  span := r.span
  kind := .bracket
  argumentCount := none

/-- The calls that an engine finds in the segments of a template, and its bracket references. -/
def templateSites (engine : Expression.Engine) (f : ScopeFile) (t : Template) : List Site :=
  (t.segments.flatMap fun s => (engine.parse s.expression).calls.map (.ofCall f s.contentSpan.start)) ++
    t.references.map (.ofBracket f)

def sites (engine : Expression.Engine) (scope : Scope) : List Site :=
  scope.files.flatMap fun f => f.file.templates.flatMap (templateSites engine f)

theorem file_of_mem_templateSites {engine : Expression.Engine} {f : ScopeFile} {t : Template} {u : Site}
    (hu : u ∈ templateSites engine f t) : u.file = f := by
  rcases List.mem_append.1 hu with hu | hu
  · obtain ⟨s, _, hu⟩ := List.mem_flatMap.1 hu
    obtain ⟨c, _, rfl⟩ := List.mem_map.1 hu
    rfl
  · obtain ⟨x, _, rfl⟩ := List.mem_map.1 hu
    rfl

theorem file_mem_of_mem_sites {engine : Expression.Engine} {scope : Scope} {u : Site} (hu : u ∈ sites engine scope) :
    u.file ∈ scope.files := by
  obtain ⟨f, hf, hu⟩ := List.mem_flatMap.1 hu
  obtain ⟨t, _, hu⟩ := List.mem_flatMap.1 hu
  exact file_of_mem_templateSites hu ▸ hf

/-! ## What they mean -/

variable {engine : Expression.Engine} {functions : Registry} {scope : Scope} {u : Site} {findings : List Diagnostic}

/-- A file besides the root has a template of the name. -/
def Own (f : ScopeFile) (name : String) : Prop :=
  f.isRoot = false ∧ ∃ t ∈ f.file.templates, t.name = name

/-- A template of the scope has the name, with its alias. -/
def InScope (scope : Scope) (name : String) : Prop :=
  ∃ f ∈ scope.files, ∃ t ∈ f.file.templates, qualify f.qualifier t.name = name

/-- Nothing answers a name: no template of the file or of the scope, and, for a call, no function. -/
def Unanswered (functions : Registry) (scope : Scope) (u : Site) : Prop :=
  ¬Own u.file u.name ∧ ¬InScope scope u.name ∧ (u.kind = .call → functions.find? u.name = none)

/-- What a name means where it is used. A template of the file itself comes first, then one of the scope, then, for a
call, a function. -/
inductive Means (functions : Registry) (scope : Scope) (u : Site) : String → Target → Prop
  | own (hown : Own u.file u.name) : Means functions scope u (qualify u.file.qualifier u.name) .template
  | inScope (hown : ¬Own u.file u.name) (hscope : InScope scope u.name) : Means functions scope u u.name .template
  | function (hown : ¬Own u.file u.name) (hscope : ¬InScope scope u.name) (hcall : u.kind = .call)
      (hfunction : functions.find? u.name ≠ none) : Means functions scope u u.name .function
  | unresolved (hnone : Unanswered functions scope u) : Means functions scope u u.name .unresolved

/-- The part of a name before its first dot is an alias of the scope. -/
def BehindAlias (scope : Scope) (name : String) : Prop :=
  '.' ∈ name.toList ∧ ∃ f ∈ scope.files, f.qualifier = some (String.ofList (name.toList.takeWhile (· != '.')))

/-- A call that may be a method of some value. -/
def IsMethod (functions : Registry) (scope : Scope) (u : Site) : Prop :=
  u.kind = .call ∧ Unanswered functions scope u ∧ '.' ∈ u.name.toList ∧ ¬BehindAlias scope u.name

/-- A call that the index leaves out. -/
def IsLeftOut (functions : Registry) (scope : Scope) (u : Site) : Prop :=
  u.kind = .call ∧ Unanswered functions scope u ∧ ¬BehindAlias scope u.name

instance (f : ScopeFile) (name : String) : Decidable (Own f name) :=
  inferInstanceAs (Decidable (_ ∧ _))

instance (scope : Scope) (name : String) : Decidable (InScope scope name) :=
  inferInstanceAs (Decidable (∃ f ∈ scope.files, _))

instance (functions : Registry) (scope : Scope) (u : Site) : Decidable (Unanswered functions scope u) :=
  inferInstanceAs (Decidable (_ ∧ _))

instance (scope : Scope) (name : String) : Decidable (BehindAlias scope name) :=
  inferInstanceAs (Decidable (_ ∧ _))

instance (functions : Registry) (scope : Scope) (u : Site) : Decidable (IsMethod functions scope u) :=
  inferInstanceAs (Decidable (_ ∧ _))

instance (functions : Registry) (scope : Scope) (u : Site) : Decidable (IsLeftOut functions scope u) :=
  inferInstanceAs (Decidable (_ ∧ _))

/-! ## What is to be indexed -/

/-- A reference is the entry of a use of a name. -/
structure EntryOf (functions : Registry) (scope : Scope) (u : Site) (r : Reference) : Prop where
  name : r.name = u.name
  uri : r.uri = u.file.uri
  span : r.span = u.span
  kind : r.kind = u.kind
  argumentCount : r.argumentCount = u.argumentCount
  means : Means functions scope u r.key r.target

/-- An index has one entry for each of these uses and no other entry. -/
def Holds (functions : Registry) (scope : Scope) (index : ReferenceIndex) (us : List Site) : Prop :=
  ∃ rs, rs.Perm index.toList ∧ List.Forall₂ (EntryOf functions scope) us rs

/-- All uses of names are in the index but the methods of values. In particular those calls of the root are that are
reported as unknown. -/
structure ReferencesIndexed (engine : Expression.Engine) (functions : Registry) (a : Analysis) : Prop where
  holds : Holds functions a.scope a.references ((sites engine a.scope).filter (¬IsMethod functions a.scope ·))
  reported : ∀ u ∈ sites engine a.scope, u.file = a.scope.root → u.kind = .call →
    ∀ r, EntryOf functions a.scope u r →
      (∃ d ∈ (⟨engine, functions, a.scope, a.symbols⟩ : Env).callDiagnostics r, d.code = .unknownReference) →
        r ∈ a.references.toList

/-! ## How names are looked up -/

theorem template?_isSome_iff {f : Syntax.File} {name : String} :
    (f.template? name).isSome = true ↔ ∃ t ∈ f.templates, t.name = name := by
  rw [Syntax.File.template?, List.find?_isSome]
  simp only [beq_iff_eq]

theorem contains_iff_inScope {name : String} :
    (SymbolTable.ofScope scope).contains name = true ↔ InScope scope name := by
  rw [SymbolTable.contains_ofScope, InScope]
  constructor
  · rintro ⟨symbol, hsymbol, rfl⟩
    obtain ⟨f, hf, t, ht, rfl⟩ := SymbolTable.mem_symbolsOf.1 hsymbol
    exact ⟨f, hf, t, ht, rfl⟩
  · rintro ⟨f, hf, t, ht, rfl⟩
    exact ⟨.ofTemplate f t, SymbolTable.mem_symbolsOf.2 ⟨f, hf, t, ht, rfl⟩, rfl⟩

section Env

/-- The scope in which the names of an analysis are looked up. -/
def scopeEnv (engine : Expression.Engine) (functions : Registry) (scope : Scope) : Env :=
  ⟨engine, functions, scope, .ofScope scope⟩

theorem isQualified_scopeEnv {name : String} :
    (scopeEnv engine functions scope).isQualified name = true ↔ BehindAlias scope name := by
  unfold Env.isQualified BehindAlias scopeEnv
  simp only [Bool.and_eq_true, List.contains_iff_mem, List.any_eq_true, beq_iff_eq]

/-- The entry of a use. -/
def entry (env : Env) (u : Site) : Reference :=
  let (key, target) := env.lookUp u.file u.name (u.kind = .call)
  { name := u.name, key, uri := u.file.uri, span := u.span, kind := u.kind, argumentCount := u.argumentCount, target }

/-- What a name is looked up as is what it means. -/
theorem lookUp_means (u : Site) :
    Means functions scope u ((scopeEnv engine functions scope).lookUp u.file u.name (u.kind = .call)).1
      ((scopeEnv engine functions scope).lookUp u.file u.name (u.kind = .call)).2 := by
  unfold Env.lookUp scopeEnv
  by_cases hown : Own u.file u.name
  · have htemplate := template?_isSome_iff.2 hown.2
    have hmeans : Means functions scope u (qualify u.file.qualifier u.name) .template := .own hown
    simpa [hown.1, htemplate] using hmeans
  · have hnotOwn : (!u.file.isRoot && (u.file.file.template? u.name).isSome) = false := by
      rw [Bool.eq_false_iff]
      intro h
      obtain ⟨hroot, htemplate⟩ := Bool.and_eq_true_iff.1 h
      exact hown ⟨by simpa using hroot, template?_isSome_iff.1 htemplate⟩
    by_cases hscope : InScope scope u.name
    · have hmeans : Means functions scope u u.name .template := .inScope hown hscope
      simpa [hnotOwn, contains_iff_inScope.2 hscope] using hmeans
    · have hnotIn : (SymbolTable.ofScope scope).contains u.name = false :=
        Bool.eq_false_iff.2 fun h => hscope (contains_iff_inScope.1 h)
      by_cases hfunction : u.kind = .call ∧ (functions.find? u.name).isSome = true
      · have hsome : functions.find? u.name ≠ none := Option.isSome_iff_ne_none.1 hfunction.2
        simpa [hnotOwn, hnotIn, hfunction] using Means.function hown hscope hfunction.1 hsome
      · have hnone : u.kind = .call → functions.find? u.name = none := by
          intro hcall
          simpa [hcall] using hfunction
        simpa [hnotOwn, hnotIn, hfunction] using Means.unresolved ⟨hown, hscope, hnone⟩

theorem entry_entryOf (u : Site) : EntryOf functions scope u (entry (scopeEnv engine functions scope) u) :=
  ⟨rfl, rfl, rfl, rfl, rfl, lookUp_means u⟩

/-- A name has one meaning only. -/
theorem Means.unique {key key' : String} {target target' : Target} (h : Means functions scope u key target)
    (h' : Means functions scope u key' target') : key = key' ∧ target = target' := by
  cases h with
  | own hown => cases h' with
    | own _ => exact ⟨rfl, rfl⟩
    | inScope hnot _ => exact absurd hown hnot
    | function hnot _ _ _ => exact absurd hown hnot
    | unresolved hnone => exact absurd hown hnone.1
  | inScope hnot hscope => cases h' with
    | own hown => exact absurd hown hnot
    | inScope _ _ => exact ⟨rfl, rfl⟩
    | function _ hnotIn _ _ => exact absurd hscope hnotIn
    | unresolved hnone => exact absurd hscope hnone.2.1
  | function hnot hnotIn hcall hfunction => cases h' with
    | own hown => exact absurd hown hnot
    | inScope _ hscope => exact absurd hscope hnotIn
    | function _ _ _ _ => exact ⟨rfl, rfl⟩
    | unresolved hnone => exact absurd (hnone.2.2 hcall) hfunction
  | unresolved hnone => cases h' with
    | own hown => exact absurd hown hnone.1
    | inScope _ hscope => exact absurd hscope hnone.2.1
    | function _ _ hcall hfunction => exact absurd (hnone.2.2 hcall) hfunction
    | unresolved _ => exact ⟨rfl, rfl⟩

/-- A use has one entry only. -/
theorem EntryOf.unique {r r' : Reference} (h : EntryOf functions scope u r) (h' : EntryOf functions scope u r') :
    r = r' := by
  obtain ⟨hkey, htarget⟩ := h.means.unique h'.means
  cases r
  cases r'
  simp only [Reference.mk.injEq]
  exact ⟨h.name.trans h'.name.symm, hkey, h.uri.trans h'.uri.symm, h.span.trans h'.span.symm,
    h.kind.trans h'.kind.symm, h.argumentCount.trans h'.argumentCount.symm, htarget⟩

theorem unresolved_iff {r : Reference} (h : EntryOf functions scope u r) :
    r.target = .unresolved ↔ Unanswered functions scope u := by
  constructor
  · intro htarget
    have hmeans : Means functions scope u r.key .unresolved := htarget ▸ h.means
    generalize r.key = key at hmeans
    cases hmeans with
    | unresolved hnone => exact hnone
  · intro hnone
    exact (h.means.unique (.unresolved hnone)).2

/-- The index keeps the entry of every bracket reference, and of every call that it does not leave out. -/
theorem isIndexed_entry : (u.kind = .call → (scopeEnv engine functions scope).isIndexed
      (entry (scopeEnv engine functions scope) u) = true) ↔ ¬IsLeftOut functions scope u := by
  have hunresolved := unresolved_iff (@entry_entryOf engine functions scope u)
  have hname : (entry (scopeEnv engine functions scope) u).name = u.name := rfl
  rw [Env.isIndexed, Bool.or_eq_true, hname, isQualified_scopeEnv, bne_iff_ne, Ne, hunresolved, IsLeftOut]
  tauto

/-- What the index keeps of a template are the entries of the uses that it does not leave out. -/
theorem templateReferences_eq (f : ScopeFile) (t : Template) :
    (scopeEnv engine functions scope).templateReferences f t =
      ((templateSites engine f t).filter (¬IsLeftOut functions scope ·)).map
        (entry (scopeEnv engine functions scope)) := by
  have hcall : ∀ base c, decide (¬IsLeftOut functions scope (.ofCall f base c)) =
      (scopeEnv engine functions scope).isIndexed ((scopeEnv engine functions scope).callReference f base c) := by
    intro base c
    rw [Bool.eq_iff_iff, decide_eq_true_eq, ← @isIndexed_entry engine]
    exact ⟨fun h => h rfl, fun h _ => h⟩
  -- Only calls are ever left out.
  have hbracket : ∀ x, ¬IsLeftOut functions scope (.ofBracket f x) := by
    rintro x ⟨hkind, _⟩
    cases hkind
  unfold Env.templateReferences templateSites
  rw [List.filter_append, List.map_append, List.filter_flatMap, List.map_flatMap]
  refine congr (congrArg _ ?_) ?_
  · refine congrArg (List.flatMap · t.segments) (funext fun s => ?_)
    rw [Env.segmentCalls, List.filter_map, List.filter_map, List.map_map]
    refine congrArg (List.map _) (List.filter_congr fun c _ => ?_)
    exact (hcall _ c).symm
  · rw [List.filter_eq_self.2, List.map_map]
    · rfl
    · intro u hu
      obtain ⟨x, _, rfl⟩ := List.mem_map.1 hu
      exact decide_eq_true (hbracket x)

/-- What is indexed are the entries of the uses that the index does not leave out. -/
theorem flatMap_fileReferences_eq : scope.files.flatMap (scopeEnv engine functions scope).fileReferences =
    ((sites engine scope).filter (¬IsLeftOut functions scope ·)).map (entry (scopeEnv engine functions scope)) := by
  simp only [sites, List.filter_flatMap, List.map_flatMap, ← templateReferences_eq]
  rfl

end Env

/-! ## What is indexed -/

theorem mem_references_iff {r : Reference} : r ∈ (analyzeScope engine functions scope findings).references.toList ↔
    ∃ u ∈ sites engine scope, ¬IsLeftOut functions scope u ∧ entry (scopeEnv engine functions scope) u = r := by
  have hindex : r ∈ (analyzeScope engine functions scope findings).references.toList ↔
      r ∈ scope.files.flatMap (scopeEnv engine functions scope).fileReferences :=
    (ReferenceIndex.toList_perm _).mem_iff
  rw [hindex, flatMap_fileReferences_eq]
  simp only [List.mem_map, List.mem_filter, decide_eq_true_eq, and_assoc]

/-- The use of a template of the file itself is kept under the name of that template in the scope. -/
theorem entry_of_own (hown : Own u.file u.name) :
    (entry (scopeEnv engine functions scope) u).key = qualify u.file.qualifier u.name ∧
      (entry (scopeEnv engine functions scope) u).target = .template :=
  (lookUp_means u).unique (.own hown)

/-- What is indexed as a template is one of the scope, under its key. -/
theorem inScope_key {r : Reference} (hr : r ∈ (analyzeScope engine functions scope findings).references.toList)
    (htarget : r.target = .template) : InScope scope r.key := by
  obtain ⟨u, hu, -, rfl⟩ := mem_references_iff.1 hr
  have hfile : u.file ∈ scope.files := file_mem_of_mem_sites hu
  have hmeans : Means functions scope u (entry (scopeEnv engine functions scope) u).key .template :=
    htarget ▸ lookUp_means u
  generalize (entry (scopeEnv engine functions scope) u).key = key at hmeans
  cases hmeans with
  | own hown =>
    obtain ⟨-, t, ht, hname⟩ := hown
    exact ⟨u.file, hfile, t, ht, by rw [hname]⟩
  | inScope _ hscope => exact hscope

/-- The index of an analysis has the entries of all uses but those that it leaves out. -/
theorem holds_kept : Holds functions scope (analyzeScope engine functions scope findings).references
    ((sites engine scope).filter (¬IsLeftOut functions scope ·)) := by
  refine ⟨_, (ReferenceIndex.toList_perm _).symm, ?_⟩
  show List.Forall₂ _ _ (scope.files.flatMap (scopeEnv engine functions scope).fileReferences)
  rw [flatMap_fileReferences_eq, List.forall₂_map_right_iff, List.forall₂_same]
  exact fun u _ => entry_entryOf u

/-- A call is reported as unknown only if nothing answers it and it cannot be a method. -/
theorem unresolved_of_reported {env : Env} {r : Reference}
    (h : ∃ d ∈ env.callDiagnostics r, d.code = .unknownReference) :
    r.target = .unresolved ∧ (env.isQualified r.name = true ∨ '.' ∉ r.name.toList) := by
  obtain ⟨d, hd, hcode⟩ := h
  unfold Env.callDiagnostics at hd
  split at hd
  · split at hd
    · split at hd
      · cases hd
      · rw [List.mem_singleton.1 hd] at hcode
        cases hcode
    · cases hd
  · split at hd
    · split at hd
      · cases hd
      · rw [List.mem_singleton.1 hd] at hcode
        cases hcode
    · cases hd
  · next htarget =>
    split at hd
    · next hunknown => exact ⟨htarget, by simpa using hunknown⟩
    · cases hd

theorem isMethod_iff : IsMethod functions scope u ↔ IsLeftOut functions scope u ∧ '.' ∈ u.name.toList := by
  unfold IsMethod IsLeftOut
  tauto

/-- **The index has the entries of all uses of names but those of calls that nothing answers and that do not stand
behind an alias. So it misses nothing but the methods of values exactly when every call that nothing answers has a
dot.** -/
theorem referencesIndexed_iff (engine : Expression.Engine) (functions : Registry) (scope : Scope)
    (findings : List Diagnostic) :
    Holds functions scope (analyzeScope engine functions scope findings).references
        ((sites engine scope).filter (¬IsLeftOut functions scope ·)) ∧
      (ReferencesIndexed engine functions (analyzeScope engine functions scope findings) ↔
        ∀ u ∈ sites engine scope, u.kind = .call → Unanswered functions scope u → '.' ∈ u.name.toList) := by
  obtain ⟨kept, hkept, hentries⟩ := @holds_kept engine functions scope findings
  refine ⟨⟨kept, hkept, hentries⟩, fun h u hu hcall hnone => ?_, fun hdots => ⟨?_, ?_⟩⟩
  · -- With as many entries as there are uses besides methods, no other use can have been left out.
    obtain ⟨rs, hrs, hall⟩ := h.holds
    have hall : List.Forall₂ (EntryOf functions scope)
      ((sites engine scope).filter (¬IsMethod functions scope ·)) rs := hall
    have hlength : ((sites engine scope).filter (¬IsLeftOut functions scope ·)).length =
        ((sites engine scope).filter (¬IsMethod functions scope ·)).length := by
      rw [hentries.length_eq, hall.length_eq, hkept.length_eq, hrs.length_eq]
    have hsublist : ((sites engine scope).filter (¬IsLeftOut functions scope ·)).Sublist
        ((sites engine scope).filter (¬IsMethod functions scope ·)) := by
      refine List.monotone_filter_right _ fun v hv => ?_
      rw [decide_eq_true_eq] at hv ⊢
      exact fun hmethod => hv (isMethod_iff.1 hmethod).1
    by_contra hdot
    have hleft : IsLeftOut functions scope u := ⟨hcall, hnone, fun halias => hdot halias.1⟩
    have hmem : u ∈ (sites engine scope).filter (¬IsMethod functions scope ·) :=
      List.mem_filter.2 ⟨hu, decide_eq_true fun hmethod => hdot (isMethod_iff.1 hmethod).2⟩
    rw [← hsublist.eq_of_length hlength] at hmem
    exact of_decide_eq_true (List.mem_filter.1 hmem).2 hleft
  · refine ⟨kept, hkept, ?_⟩
    have hsame : (sites engine scope).filter (¬IsMethod functions scope ·) =
        (sites engine scope).filter (¬IsLeftOut functions scope ·) := by
      refine List.filter_congr fun u hu => decide_eq_decide.2 (not_congr ?_)
      rw [isMethod_iff]
      exact ⟨And.left, fun hleft => ⟨hleft, hdots u hu hleft.1 hleft.2.1⟩⟩
    show List.Forall₂ (EntryOf functions scope) ((sites engine scope).filter (¬IsMethod functions scope ·)) kept
    rwa [hsame]
  · intro u hu _ hcall r hr hreported
    obtain ⟨htarget, hunknown⟩ := unresolved_of_reported hreported
    have hnone : Unanswered functions scope u := (unresolved_iff hr).1 htarget
    have halias : BehindAlias scope u.name := by
      rw [hr.name] at hunknown
      rcases hunknown with hqualified | hdot
      · exact isQualified_scopeEnv.1 hqualified
      · exact absurd (hdots u hu hcall hnone) hdot
    rw [hr.unique (entry_entryOf u)]
    exact mem_references_iff.2 ⟨u, hu, fun hleft => hleft.2.2 halias, rfl⟩

/-- A root with a call that nothing answers. -/
def callsNobody : Scope where
  root := .root ⟨"file:///project/main.lg"⟩ "# Main\n- $\x7bNope()\x7d" (Syntax.parse "# Main\n- $\x7bNope()\x7d").file
  others := []
  graph := .empty
  diagnostics := []

/-- A call that nothing answers is missing from the index although it is no method of a value. -/
theorem not_referencesIndexed_callsNobody :
    ¬ReferencesIndexed Expression.builtinEngine .builtin
      (analyzeScope Expression.builtinEngine .builtin callsNobody []) := by
  intro h
  obtain ⟨rs, hrs, hall⟩ := h.holds
  have hnone : (analyzeScope Expression.builtinEngine .builtin callsNobody []).references.toList = [] := by
    decide +kernel
  have hone : ((sites Expression.builtinEngine callsNobody).filter (¬IsMethod .builtin callsNobody ·)).length = 1 := by
    decide +kernel
  rw [hnone] at hrs
  have hlength := hall.length_eq
  rw [hrs.length_eq] at hlength
  exact absurd (hone.symm.trans hlength) (by decide)

end Analyzer

end LgLang
