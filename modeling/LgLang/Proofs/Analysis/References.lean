import LgLang.Proofs.Analysis.Duplicates
import LgLang.Proofs.Expression.Calls
import LgLang.Proofs.Import.Aliases
import LgLang.Proofs.Syntax.Apart

/-!
# Unknown names and wrong numbers of arguments

Every call in the root and every bracket reference of it is looked up in the scope. One that nothing answers is an error
where it stands, and so is a call whose number of arguments does not fit what it calls; these are all errors of the two
rules (`referencesChecked`). Merging could lose one of them only if two uses of names stood at one place. They do not even
touch, nor do they touch the names of templates: what lies between the names in a template keeps them apart, and
templates do not overlap (`rootUses_apart`).
-/

namespace LgLang.Analyzer

open Syntax (Segment Template)

/-! ## What is to be reported -/

/-- The calls in the segments of the root, each with the place of the called name in the text of the root. -/
def rootCalls (a : Analysis) : List Expression.CallSite :=
  a.file.templates.flatMap fun t => t.segments.flatMap fun s =>
    (Expression.scan s.expression.toList).calls.map fun c => { c with span := c.span.shift s.contentSpan.start }

/-- The bracket references of the root. -/
def rootBrackets (a : Analysis) : List Syntax.Reference :=
  a.file.templates.flatMap (·.references)

/-- An error of a rule is reported at a place. -/
def HasError (a : Analysis) (code : DiagnosticCode) (span : Span) : Prop :=
  ∃ d ∈ a.diagnostics, d.severity = .error ∧ d.code = code ∧ d.span = span

/-- No template and no function has the name, and it is not taken for the method of some value: there is no dot in it, or
it begins with an alias of the scope and a dot. -/
def IsUnknown (functions : Registry) (a : Analysis) (name : String) : Prop :=
  a.symbols.contains name = false ∧ functions.find? name = none ∧
    ('.' ∉ name.toList ∨ ∃ f ∈ a.scope.files, ∃ q, f.qualifier = some q ∧ (q ++ ".").toList <+: name.toList)

/-- The number of arguments is not the number of parameters of the template that the name means, or, if no template has
the name, it is none that the function of this name accepts. -/
def Misfits (functions : Registry) (a : Analysis) (name : String) (count : Nat) : Prop :=
  (∃ s, a.symbols.resolve? name = some s ∧ count ≠ s.parameters.length) ∨
    (a.symbols.contains name = false ∧ ∃ f, functions.find? name = some f ∧ f.arity.accepts count = false)

/-- The errors about names and arguments are those that should be reported about the uses of names in the root. -/
structure ReferencesChecked (functions : Registry) (a : Analysis) : Prop where
  unknownCall : ∀ c ∈ rootCalls a, HasError a .unknownReference c.span ↔ IsUnknown functions a c.name
  unknownBracket : ∀ r ∈ rootBrackets a, HasError a .unknownReference r.span ↔ a.symbols.contains r.name = false
  arity : ∀ c ∈ rootCalls a,
    HasError a .arityMismatch c.span ↔ ∃ count, c.argumentCount = some count ∧ Misfits functions a c.name count
  only : ∀ d ∈ a.diagnostics, d.code = .unknownReference ∨ d.code = .arityMismatch →
    d.severity = .error ∧
      ((∃ c ∈ rootCalls a, d.span = c.span) ∨ (d.code = .unknownReference ∧ ∃ r ∈ rootBrackets a, d.span = r.span))

/-! ## Names in the root -/

section Names

variable {env : Env} {f : ScopeFile} {name : String} {allowFunctions : Bool}

/-- In the root a name is looked up in the scope at once. -/
theorem lookUp_root (hf : f.isRoot = true) : env.lookUp f name allowFunctions =
    if env.symbols.contains name then (name, .template)
    else if allowFunctions && (env.functions.find? name).isSome then (name, .function)
    else (name, .unresolved) := by
  unfold Env.lookUp
  rw [hf]
  rfl

/-- If no alias has a dot in it, a name stands behind an alias exactly when it begins with this alias and a dot. -/
theorem isQualified_iff (hdots : ∀ f ∈ env.scope.files, ∀ q, f.qualifier = some q → '.' ∉ q.toList) :
    env.isQualified name = true ↔
      ∃ f ∈ env.scope.files, ∃ q, f.qualifier = some q ∧ (q ++ ".").toList <+: name.toList := by
  unfold Env.isQualified
  simp only [Bool.and_eq_true, List.any_eq_true, beq_iff_eq, List.contains_iff_mem]
  constructor
  · rintro ⟨hdot, f, hf, hq⟩
    refine ⟨f, hf, _, hq, ?_⟩
    cases hdrop : name.toList.dropWhile (· != '.') with
    | nil =>
      have hall := List.dropWhile_eq_nil_iff.1 hdrop '.' hdot
      exact absurd hall (by decide)
    | cons c rest =>
      obtain ⟨rfl, hsplit⟩ := Text.takeWhile_ne_append hdrop
      refine ⟨rest, ?_⟩
      rw [String.toList_append, String.toList_ofList, List.append_assoc]
      exact hsplit
  · rintro ⟨f, hf, q, hq, rest, hname⟩
    have hnone := hdots f hf q hq
    rw [String.toList_append, List.append_assoc] at hname
    have hname' : name.toList = q.toList ++ '.' :: rest := hname.symm
    have htake : name.toList.takeWhile (· != '.') = q.toList := by
      rw [hname', List.takeWhile_append_of_pos]
      · simp
      · intro c hc
        have hne : c ≠ '.' := fun h => hnone (h ▸ hc)
        simpa using hne
    refine ⟨?_, f, hf, ?_⟩
    · rw [hname']
      simp
    · rw [htake, String.ofList_toList]
      exact hq

end Names

/-! ## Findings about the uses of names -/

/-- The findings about a use of a name. -/
def Env.useDiagnostics (env : Env) (r : Reference) : List Diagnostic :=
  match r.kind with
  | .call => env.callDiagnostics r
  | .bracket => bracketDiagnostics r

/-- The uses of names in a template of the root. -/
def Env.templateUses (env : Env) (t : Template) : List Reference :=
  t.segments.flatMap (env.segmentCalls env.scope.root) ++ t.references.map (env.bracketReference env.scope.root)

/-- The uses of names in the root. -/
def Env.rootUses (env : Env) : List Reference :=
  env.scope.root.file.templates.flatMap env.templateUses

/-- The two rules about the uses of names. -/
def OfUse (code : DiagnosticCode) : Prop :=
  code = .unknownReference ∨ code = .arityMismatch

instance : DecidablePred OfUse := fun _ =>
  inferInstanceAs (Decidable (_ ∨ _))

section Uses

variable {env : Env} {r : Reference} {d e : Diagnostic}

/-- There is at most one finding about a use. -/
theorem useDiagnostics_eq (env : Env) (r : Reference) : env.useDiagnostics r = [] ∨
    ∃ d, env.useDiagnostics r = [d] ∧ (d.severity = .error ∧ OfUse d.code ∧ d.span = r.span) ∧ d.related = [] := by
  unfold Env.useDiagnostics
  split
  · unfold Env.callDiagnostics
    split
    · split
      · split
        · exact Or.inl rfl
        · exact Or.inr ⟨_, rfl, ⟨rfl, Or.inr rfl, rfl⟩, rfl⟩
      · exact Or.inl rfl
    · split
      · split
        · exact Or.inl rfl
        · exact Or.inr ⟨_, rfl, ⟨rfl, Or.inr rfl, rfl⟩, rfl⟩
      · exact Or.inl rfl
    · split
      · exact Or.inr ⟨_, rfl, ⟨rfl, Or.inl rfl, rfl⟩, rfl⟩
      · exact Or.inl rfl
  · unfold bracketDiagnostics
    split
    · exact Or.inr ⟨_, rfl, ⟨rfl, Or.inl rfl, rfl⟩, rfl⟩
    · exact Or.inl rfl

theorem useDiagnostics_made (h : d ∈ env.useDiagnostics r) :
    (d.severity = .error ∧ OfUse d.code ∧ d.span = r.span) ∧ d.related = [] := by
  rcases useDiagnostics_eq env r with hnone | ⟨d', hone, hmade⟩
  · rw [hnone] at h
    cases h
  · rw [hone] at h
    obtain rfl := List.mem_singleton.1 h
    exact hmade

theorem useDiagnostics_about (h : d ∈ env.useDiagnostics r) : d.severity = .error ∧ OfUse d.code ∧ d.span = r.span :=
  (useDiagnostics_made h).1

theorem useDiagnostics_unique (hd : d ∈ env.useDiagnostics r) (he : e ∈ env.useDiagnostics r) : d = e := by
  rcases useDiagnostics_eq env r with hnone | ⟨d', hone, -⟩
  · rw [hnone] at hd
    cases hd
  · rw [hone] at hd he
    rw [List.mem_singleton.1 hd, List.mem_singleton.1 he]

theorem mem_templateUses {t : Template} : r ∈ env.templateUses t ↔
    (∃ s ∈ t.segments, ∃ c ∈ (env.engine.parse s.expression).calls,
      r = env.callReference env.scope.root s.contentSpan.start c) ∨
    ∃ x ∈ t.references, r = env.bracketReference env.scope.root x := by
  unfold Env.templateUses Env.segmentCalls
  simp only [List.mem_append, List.mem_flatMap, List.mem_map, eq_comm]

theorem mistakeDiagnostics_not_ofUse (env : Env) (s : Segment) : ∀ d ∈ env.mistakeDiagnostics s, ¬OfUse d.code := by
  intro d hd
  obtain ⟨m, _, rfl⟩ := List.mem_map.1 hd
  exact (by decide : ¬OfUse .expressionSyntax)

theorem shapeDiagnostics_not_ofUse (t : Template) : ∀ d ∈ shapeDiagnostics t, ¬OfUse d.code := by
  intro d hd
  rcases shapeDiagnostics_code t d hd with h | h <;> rw [h] <;> decide

theorem duplicateDiagnostics_not_ofUse (env : Env) : ∀ d ∈ env.duplicateDiagnostics, ¬OfUse d.code := by
  intro d hd
  obtain ⟨⟨name, active⟩, _, hmade⟩ := List.mem_filterMap.1 hd
  obtain ⟨second, _, rfl⟩ := Option.map_eq_some_iff.1 hmade
  exact (by decide : ¬OfUse .duplicateTemplate)

/-- The findings of the two rules are those about the uses of names. -/
theorem mem_templateDiagnostics_iff {t : Template} (hcode : OfUse d.code) :
    d ∈ env.templateDiagnostics t ↔ ∃ r ∈ env.templateUses t, d ∈ env.useDiagnostics r := by
  have hshape := fun h => shapeDiagnostics_not_ofUse t d h hcode
  have hmistake := fun s h => mistakeDiagnostics_not_ofUse env s d h hcode
  unfold Env.templateDiagnostics
  simp only [List.mem_append, List.mem_flatMap]
  constructor
  · rintro ((h | ⟨s, hs, h | ⟨r, hr, h⟩⟩) | ⟨x, hx, h⟩)
    · exact (hshape h).elim
    · exact (hmistake s h).elim
    · obtain ⟨c, hc, rfl⟩ := List.mem_map.1 hr
      exact ⟨_, mem_templateUses.2 (Or.inl ⟨s, hs, c, hc, rfl⟩), h⟩
    · exact ⟨_, mem_templateUses.2 (Or.inr ⟨x, hx, rfl⟩), h⟩
  · rintro ⟨r, hr, h⟩
    obtain ⟨s, hs, c, hc, rfl⟩ | ⟨x, hx, rfl⟩ := mem_templateUses.1 hr
    · exact Or.inl (Or.inr ⟨s, hs, Or.inr ⟨_, List.mem_map_of_mem hc, h⟩⟩)
    · exact Or.inr ⟨x, hx, h⟩

theorem mem_diagnostics_iff_use (hcode : OfUse d.code) :
    d ∈ env.diagnostics ↔ ∃ r ∈ env.rootUses, d ∈ env.useDiagnostics r := by
  have hduplicate := fun h => duplicateDiagnostics_not_ofUse env d h hcode
  unfold Env.diagnostics Env.rootUses
  simp only [List.mem_append, List.mem_flatMap, mem_templateDiagnostics_iff hcode]
  constructor
  · rintro (h | ⟨t, ht, r, hr, h⟩)
    · exact (hduplicate h).elim
    · exact ⟨r, ⟨t, ht, hr⟩, h⟩
  · rintro ⟨r, ⟨t, ht, hr⟩, h⟩
    exact Or.inr ⟨t, ht, r, hr, h⟩

/-! ## What is found about a use -/

theorem callReference_root (hroot : env.scope.root.isRoot = true) (base : Nat) (c : Expression.CallSite) :
    env.callReference env.scope.root base c =
      { name := c.name, key := c.name, uri := env.scope.root.uri, span := c.span.shift base, kind := .call
        argumentCount := c.argumentCount
        target :=
          if env.symbols.contains c.name then .template
          else if (env.functions.find? c.name).isSome then .function else .unresolved } := by
  unfold Env.callReference
  rw [lookUp_root hroot]
  cases env.symbols.contains c.name with
  | true => rfl
  | false => cases (env.functions.find? c.name).isSome <;> rfl

variable {base : Nat} {c : Expression.CallSite}

theorem mem_callDiagnostics_template (hroot : env.scope.root.isRoot = true) (hname : env.symbols.contains c.name = true) :
    d ∈ env.callDiagnostics (env.callReference env.scope.root base c) ↔
      ∃ count s, c.argumentCount = some count ∧ env.symbols.resolve? c.name = some s ∧ count ≠ s.parameters.length ∧
        d = arityDiagnostic (c.span.shift base) "template" c.name (argumentsText s.parameters.length) count := by
  rw [callReference_root hroot, hname]
  simp only [Env.callDiagnostics, if_true]
  cases c.argumentCount with
  | none => simp
  | some count =>
    cases env.symbols.resolve? c.name with
    | none => simp
    | some s =>
      by_cases hcount : count = s.parameters.length
      · simp [hcount]
      · simp [hcount]

theorem mem_callDiagnostics_function (hroot : env.scope.root.isRoot = true) (hname : env.symbols.contains c.name = false)
    {f : Function} (hfunction : env.functions.find? c.name = some f) :
    d ∈ env.callDiagnostics (env.callReference env.scope.root base c) ↔
      ∃ count, c.argumentCount = some count ∧ f.arity.accepts count = false ∧
        d = arityDiagnostic (c.span.shift base) "function" c.name f.arity.describe count := by
  rw [callReference_root hroot, hname, hfunction]
  simp only [Env.callDiagnostics, Bool.false_eq_true, if_false, Option.isSome_some, if_true, hfunction]
  cases c.argumentCount with
  | none => simp
  | some count => cases haccepts : f.arity.accepts count <;> simp [haccepts]

theorem mem_callDiagnostics_unresolved (hroot : env.scope.root.isRoot = true)
    (hname : env.symbols.contains c.name = false) (hfunction : env.functions.find? c.name = none) :
    d ∈ env.callDiagnostics (env.callReference env.scope.root base c) ↔
      ('.' ∉ c.name.toList ∨ env.isQualified c.name = true) ∧
        d = .error .unknownReference (c.span.shift base) s!"unknown template or function '{c.name}'" := by
  rw [callReference_root hroot, hname, hfunction]
  simp only [Env.callDiagnostics, Bool.false_eq_true, if_false, Option.isSome_none]
  by_cases hdot : '.' ∈ c.name.toList <;> cases hqualified : env.isQualified c.name <;> simp [hdot]

/-- A call is found unknown when nothing answers its name. -/
theorem unknown_call_iff (hroot : env.scope.root.isRoot = true) :
    (∃ d ∈ env.callDiagnostics (env.callReference env.scope.root base c), d.code = .unknownReference) ↔
      env.symbols.contains c.name = false ∧ env.functions.find? c.name = none ∧
        ('.' ∉ c.name.toList ∨ env.isQualified c.name = true) := by
  cases hname : env.symbols.contains c.name with
  | true =>
    simp only [mem_callDiagnostics_template hroot hname]
    constructor
    · rintro ⟨d, ⟨count, s, _, _, _, rfl⟩, hcode⟩
      cases hcode
    · rintro ⟨hfalse, -⟩
      cases hfalse
  | false =>
    cases hfunction : env.functions.find? c.name with
    | some f =>
      simp only [mem_callDiagnostics_function hroot hname hfunction]
      constructor
      · rintro ⟨d, ⟨count, _, _, rfl⟩, hcode⟩
        cases hcode
      · rintro ⟨-, hnone, -⟩
        cases hnone
    | none =>
      simp only [mem_callDiagnostics_unresolved hroot hname hfunction]
      constructor
      · rintro ⟨d, ⟨hunknown, -⟩, -⟩
        exact ⟨trivial, trivial, hunknown⟩
      · rintro ⟨-, -, hunknown⟩
        exact ⟨_, ⟨hunknown, rfl⟩, rfl⟩

/-- A call is found to have a wrong number of arguments when their number is known and does not fit. -/
theorem arity_call_iff (hroot : env.scope.root.isRoot = true) :
    (∃ d ∈ env.callDiagnostics (env.callReference env.scope.root base c), d.code = .arityMismatch) ↔
      ∃ count, c.argumentCount = some count ∧
        ((∃ s, env.symbols.resolve? c.name = some s ∧ count ≠ s.parameters.length) ∨
          (env.symbols.contains c.name = false ∧
            ∃ f, env.functions.find? c.name = some f ∧ f.arity.accepts count = false)) := by
  cases hname : env.symbols.contains c.name with
  | true =>
    simp only [mem_callDiagnostics_template hroot hname]
    constructor
    · rintro ⟨d, ⟨count, s, hcount, hs, hne, -⟩, -⟩
      exact ⟨count, hcount, Or.inl ⟨s, hs, hne⟩⟩
    · rintro ⟨count, hcount, ⟨s, hs, hne⟩ | ⟨hfalse, -⟩⟩
      · exact ⟨_, ⟨count, s, hcount, hs, hne, rfl⟩, rfl⟩
      · cases hfalse
  | false =>
    have hnone : env.symbols.resolve? c.name = none := by
      cases hs : env.symbols.resolve? c.name with
      | none => rfl
      | some s => cases hname.symm.trans (SymbolTable.contains_of_resolve? hs)
    cases hfunction : env.functions.find? c.name with
    | some f =>
      simp only [mem_callDiagnostics_function hroot hname hfunction]
      constructor
      · rintro ⟨d, ⟨count, hcount, haccepts, -⟩, -⟩
        exact ⟨count, hcount, Or.inr ⟨trivial, f, rfl, haccepts⟩⟩
      · rintro ⟨count, hcount, ⟨s, hs, -⟩ | ⟨-, g, hg, haccepts⟩⟩
        · cases hnone.symm.trans hs
        · obtain rfl := Option.some.inj hg
          exact ⟨_, ⟨count, hcount, haccepts, rfl⟩, rfl⟩
    | none =>
      simp only [mem_callDiagnostics_unresolved hroot hname hfunction]
      constructor
      · rintro ⟨d, ⟨-, rfl⟩, hcode⟩
        cases hcode
      · rintro ⟨count, _, ⟨s, hs, -⟩ | ⟨-, g, hg, -⟩⟩
        · cases hnone.symm.trans hs
        · cases hg

/-- A bracket reference is found unknown when no template answers its name. -/
theorem unknown_bracket_iff (hroot : env.scope.root.isRoot = true) (x : Syntax.Reference) :
    (∃ d ∈ bracketDiagnostics (env.bracketReference env.scope.root x), d.code = .unknownReference) ↔
      env.symbols.contains x.name = false := by
  unfold Env.bracketReference
  rw [lookUp_root hroot]
  cases env.symbols.contains x.name with
  | true => simp [bracketDiagnostics]
  | false => simp [bracketDiagnostics, Diagnostic.error]

end Uses

/-! ## Names that do not touch -/

section Places

variable {env : Env} {cs : List Char} {t : Template} {s : Segment} {c : Expression.CallSite} {r : Reference}

/-- The name of a call lies between the marks of its segment. -/
theorem call_inside (hs : s.Located cs) (hc : c ∈ (Expression.scan s.expression.toList).calls) :
    s.span.start < s.contentSpan.start + c.span.start ∧ s.contentSpan.start + c.span.stop < s.span.stop := by
  have hstop := ((Expression.scan_calls s.expression.toList).within c hc).2
  have hwhole := (Span.holds_iff.1 hs.whole).2
  have hinside := hs.inside
  rw [Syntax.byteSize_closed] at hwhole
  omega

/-- A use has its name in the text, below the header of its template and inside the template. -/
theorem use_placed (hengine : env.engine = Expression.builtinEngine) (ht : t.Located cs) (hnames : t.NamesApart)
    (hr : r ∈ env.templateUses t) :
    r.span.Holds cs r.name.toList ∧ t.nameSpan.stop < r.span.start ∧ t.span.Covers r.span := by
  rcases mem_templateUses.1 hr with ⟨s, hs, c, hc, rfl⟩ | ⟨x, hx, rfl⟩
  · rw [hengine] at hc
    obtain ⟨hlocated, hstart, hstop⟩ := ht.segments s hs
    obtain ⟨hbegin, hend⟩ := call_inside hlocated hc
    have hbelow := hnames.segments s hs
    refine ⟨?_, ?_, ?_, ?_⟩
    · -- The name stands in the expression, and the expression in the text.
      obtain ⟨hcall, hsize⟩ := Span.holds_iff.1 ((Expression.scan_calls s.expression.toList).holds c hc)
      have hcontent := (Span.holds_iff.1 hlocated.content).1
      refine Span.holds_iff.2 ⟨hcontent.trans hcall, ?_⟩
      show s.contentSpan.start + c.span.stop = s.contentSpan.start + c.span.start + Text.byteSize c.name.toList
      omega
    · show t.nameSpan.stop < s.contentSpan.start + c.span.start
      omega
    · show t.span.start ≤ s.contentSpan.start + c.span.start
      omega
    · show s.contentSpan.start + c.span.stop ≤ t.span.stop
      omega
  · obtain ⟨hlocated, hcovers⟩ := ht.references x hx
    exact ⟨hlocated.name, hnames.references x hx, hcovers⟩

/-- No two uses in a template touch. -/
theorem templateUses_apart (hengine : env.engine = Expression.builtinEngine) (ht : t.Located cs)
    (hnames : t.NamesApart) : (env.templateUses t).Pairwise fun r r' => r.span.Apart r'.span := by
  have hinside : ∀ s ∈ t.segments, ∀ r ∈ env.segmentCalls env.scope.root s,
      s.span.start < r.span.start ∧ r.span.stop < s.span.stop := by
    intro s hs r hr
    obtain ⟨c, hc, rfl⟩ := List.mem_map.1 hr
    rw [hengine] at hc
    exact call_inside (ht.segments s hs).1 hc
  unfold Env.templateUses
  refine List.pairwise_append.2 ⟨List.pairwise_flatMap.2 ⟨fun s hs => ?_, ?_⟩, ?_, fun r hr r' hr' => ?_⟩
  · -- Calls of one segment are kept apart by what follows their names.
    refine List.pairwise_map.2 ?_
    rw [hengine]
    refine (Expression.scan_calls s.expression.toList).apart.imp fun hcd => Or.inl ?_
    exact Nat.add_lt_add_left hcd s.contentSpan.start
  · refine ht.segmentsOrdered.imp_of_mem fun {s s'} hs hs' hbefore r hr r' hr' => Or.inl ?_
    have hin := hinside s hs r hr
    have hin' := hinside s' hs' r' hr'
    unfold Span.Before at hbefore
    omega
  · exact List.pairwise_map.2 (hnames.apart.imp Or.inl)
  · obtain ⟨s, hs, hr⟩ := List.mem_flatMap.1 hr
    obtain ⟨x, hx, rfl⟩ := List.mem_map.1 hr'
    have hin := hinside s hs r hr
    show r.span.Apart x.span
    rcases ht.separate s hs x hx with hbefore | hbefore
    · unfold Span.Before at hbefore
      exact Or.inl (by omega)
    · unfold Span.Before at hbefore
      exact Or.inr (by omega)

/-- No two names in the root touch: those of its templates and those that it uses. -/
theorem rootUses_apart (hengine : env.engine = Expression.builtinEngine)
    (hlocated : ∀ t ∈ env.scope.root.file.templates, t.Located cs)
    (hnames : ∀ t ∈ env.scope.root.file.templates, t.NamesApart)
    (hordered : env.scope.root.file.templates.Pairwise fun t u => t.span.stop < u.span.start) :
    (env.scope.root.file.templates.map (·.nameSpan) ++ env.rootUses.map (·.span)).Pairwise Span.Apart := by
  have hplaced : ∀ t ∈ env.scope.root.file.templates, ∀ r ∈ env.templateUses t,
      t.nameSpan.stop < r.span.start ∧ t.span.Covers r.span :=
    fun t ht r hr => (use_placed hengine (hlocated t ht) (hnames t ht) hr).2
  refine List.pairwise_append.2 ⟨List.pairwise_map.2 ?_, List.pairwise_map.2 ?_, ?_⟩
  · exact hordered.imp_of_mem fun ht hu hlt => .of_covers hlt (hnames _ ht).inside (hnames _ hu).inside
  · refine List.pairwise_flatMap.2 ⟨fun t ht => templateUses_apart hengine (hlocated t ht) (hnames t ht), ?_⟩
    refine hordered.imp_of_mem fun {t u} ht hu hlt r hr r' hr' => ?_
    exact .of_covers hlt (hplaced t ht r hr).2 (hplaced u hu r' hr').2
  · intro _ hname _ huse
    obtain ⟨t, ht, rfl⟩ := List.mem_map.1 hname
    obtain ⟨r, hr, rfl⟩ := List.mem_map.1 huse
    obtain ⟨u, hu, hr⟩ := List.mem_flatMap.1 hr
    -- Below the header of its own template, and outside of every other template.
    by_cases htu : t = u
    · subst htu
      exact Or.inl (hplaced t ht r hr).1
    · have hsymm : Std.Symm fun t u : Template => t.span.Apart u.span := ⟨fun _ _ h => h.symm⟩
      have hpairs : env.scope.root.file.templates.Pairwise fun t u => t.span.Apart u.span := hordered.imp Or.inl
      have hapart := hpairs.forall ht hu htu
      obtain ⟨hstart, hstop⟩ := (hnames t ht).inside
      obtain ⟨hstart', hstop'⟩ := (hplaced u hu r hr).2
      unfold Span.Apart at hapart ⊢
      omega

end Places

/-! ## The merged findings -/

/-- The context that reads expressions with the built-in reader. -/
def builtinContext (sources : Sources) (functions : Registry) : AnalysisContext :=
  ⟨sources, Expression.builtinEngine, functions⟩

section Document

variable (sources : Sources) (functions : Registry) (uri : Uri) (text : String)

/-- No two names in a document touch: those of its templates and those that it uses. -/
theorem documentUses_apart : ((Syntax.parse text).file.templates.map (·.nameSpan) ++
    (documentEnv (builtinContext sources functions) uri text).rootUses.map (·.span)).Pairwise Span.Apart :=
  @rootUses_apart (documentEnv (builtinContext sources functions) uri text) text.toList rfl
    (Syntax.parse_placed text).templates (Syntax.parse_namesApart text) (Syntax.parse_placed text).templatesOrdered

/-- No two uses in a document stand at one place. -/
theorem eq_of_use_span_eq {r r' : Reference}
    (hr : r ∈ (documentEnv (builtinContext sources functions) uri text).rootUses)
    (hr' : r' ∈ (documentEnv (builtinContext sources functions) uri text).rootUses) (hspan : r.span = r'.span) :
    r = r' := by
  have huses := List.pairwise_map.1 (List.pairwise_append.1 (documentUses_apart sources functions uri text)).2.1
  exact Span.eq_of_place_eq huses hr hr' hspan

/-- What is merged of the two rules are the findings about the uses of names. -/
theorem mem_made_iff_use {d : Diagnostic} (hcode : OfUse d.code) :
    d ∈ [(Syntax.parse text).diagnostics,
        (analyzeDocument (builtinContext sources functions) uri text).scope.diagnostics,
        (documentEnv (builtinContext sources functions) uri text).diagnostics].flatten ↔
      ∃ r ∈ (documentEnv (builtinContext sources functions) uri text).rootUses,
        d ∈ (documentEnv (builtinContext sources functions) uri text).useDiagnostics r := by
  simp only [List.flatten_cons, List.flatten_nil, List.append_nil, List.mem_append, mem_diagnostics_iff_use hcode]
  constructor
  · rintro (hparse | hscope | hchecks)
    · have hreading := Syntax.parse_ofReading text d hparse
      rcases hcode with h | h <;> exact absurd (h ▸ hreading) (by decide)
    · rcases scope_ofWalking _ uri text d hscope with hwalking | hwalking | hwalking <;>
        rcases hcode with h | h <;> cases h.symm.trans hwalking
    · exact hchecks
  · exact fun h => Or.inr (Or.inr h)

/-- Merging loses no finding about a use, for no other one is at its place. -/
theorem mem_merged_iff_use {d : Diagnostic} (hcode : OfUse d.code) :
    d ∈ (analyzeDocument (builtinContext sources functions) uri text).diagnostics ↔
      ∃ r ∈ (documentEnv (builtinContext sources functions) uri text).rootUses,
        d ∈ (documentEnv (builtinContext sources functions) uri text).useDiagnostics r := by
  rw [← mem_made_iff_use sources functions uri text hcode]
  refine Diagnostic.mem_merge_iff_of_unique fun hd e he hkey => ?_
  have hsame : e.code = d.code := congrArg Prod.snd hkey
  have hcode' : OfUse e.code := hsame.symm ▸ hcode
  obtain ⟨r, hr, hd⟩ := (mem_made_iff_use sources functions uri text hcode).1 hd
  obtain ⟨r', hr', he⟩ := (mem_made_iff_use sources functions uri text hcode').1 he
  -- Two findings with one key are about uses at one place, and there is only one use.
  have hspan : r'.span = r.span := by
    rw [← (useDiagnostics_about hd).2.2, ← (useDiagnostics_about he).2.2]
    exact congrArg Prod.fst hkey
  obtain rfl := eq_of_use_span_eq sources functions uri text hr' hr hspan
  exact useDiagnostics_unique he hd

/-- An error of a rule is reported at a use exactly when it is found about this use. -/
theorem hasError_iff {r : Reference} {code : DiagnosticCode} (hcode : OfUse code)
    (hr : r ∈ (documentEnv (builtinContext sources functions) uri text).rootUses) :
    HasError (analyzeDocument (builtinContext sources functions) uri text) code r.span ↔
      ∃ d ∈ (documentEnv (builtinContext sources functions) uri text).useDiagnostics r, d.code = code := by
  constructor
  · rintro ⟨d, hd, -, rfl, hspan⟩
    obtain ⟨r', hr', hd⟩ := (mem_merged_iff_use sources functions uri text hcode).1 hd
    have hspan' : r'.span = r.span := (useDiagnostics_about hd).2.2.symm.trans hspan
    obtain rfl := eq_of_use_span_eq sources functions uri text hr' hr hspan'
    exact ⟨d, hd, rfl⟩
  · rintro ⟨d, hd, rfl⟩
    obtain ⟨hseverity, -, hspan⟩ := useDiagnostics_about hd
    exact ⟨d, (mem_merged_iff_use sources functions uri text hcode).2 ⟨r, hr, hd⟩, hseverity, rfl, hspan⟩

/-! ## The uses of a document -/

/-- A call in the root is a use there. -/
theorem exists_use_of_call {c : Expression.CallSite}
    (hc : c ∈ rootCalls (analyzeDocument (builtinContext sources functions) uri text)) :
    ∃ base c', c = { c' with span := c'.span.shift base } ∧
      (documentEnv (builtinContext sources functions) uri text).callReference
        (analyzeDocument (builtinContext sources functions) uri text).scope.root base c' ∈
          (documentEnv (builtinContext sources functions) uri text).rootUses := by
  obtain ⟨t, ht, hc⟩ := List.mem_flatMap.1 hc
  obtain ⟨s, hs, hc⟩ := List.mem_flatMap.1 hc
  obtain ⟨c', hc', rfl⟩ := List.mem_map.1 hc
  exact ⟨_, c', rfl, List.mem_flatMap.2 ⟨t, ht, mem_templateUses.2 (Or.inl ⟨s, hs, c', hc', rfl⟩)⟩⟩

/-- So is a bracket reference of the root. -/
theorem use_of_bracket {x : Syntax.Reference}
    (hx : x ∈ rootBrackets (analyzeDocument (builtinContext sources functions) uri text)) :
    (documentEnv (builtinContext sources functions) uri text).bracketReference
      (analyzeDocument (builtinContext sources functions) uri text).scope.root x ∈
        (documentEnv (builtinContext sources functions) uri text).rootUses := by
  obtain ⟨t, ht, hx⟩ := List.mem_flatMap.1 hx
  exact List.mem_flatMap.2 ⟨t, ht, mem_templateUses.2 (Or.inr ⟨x, hx, rfl⟩)⟩

/-- The aliases of a scope come from imports of the root, where they are identifiers. So there is no dot in them. -/
theorem dot_not_mem_qualifier {ctx : AnalysisContext} {f : ScopeFile}
    (hf : f ∈ (analyzeDocument ctx uri text).scope.files) {q : String} (hq : f.qualifier = some q) :
    '.' ∉ q.toList := by
  rcases List.mem_cons.1 hf with rfl | hf
  · cases hq
  · obtain ⟨k, i, himport, -, hi, -⟩ :=
      (Import.qualifier_eq_some_iff ctx.sources rfl 1 (Import.Walked.mem_others.1 hf)).1 hq
    have hlocated := (Syntax.parse_placed text).imports i (List.mem_of_getElem? himport)
    have hidentifier := hlocated.isIdentifier q hi
    intro hdot
    cases hchars : q.toList with
    | nil =>
      rw [hchars] at hdot
      cases hdot
    | cons c rest =>
      rw [hchars] at hdot hidentifier
      obtain ⟨hstart, hrest⟩ := Bool.and_eq_true_iff.1 hidentifier
      rcases List.mem_cons.1 hdot with rfl | hdot
      · exact absurd hstart (by decide)
      · exact absurd (List.all_eq_true.1 hrest '.' hdot) (by decide)

theorem isUnknown_iff {name : String} :
    IsUnknown functions (analyzeDocument (builtinContext sources functions) uri text) name ↔
      (documentEnv (builtinContext sources functions) uri text).symbols.contains name = false ∧
        functions.find? name = none ∧
        ('.' ∉ name.toList ∨ (documentEnv (builtinContext sources functions) uri text).isQualified name = true) := by
  have hqualified : (documentEnv (builtinContext sources functions) uri text).isQualified name = true ↔ _ :=
    isQualified_iff fun f hf q hq => dot_not_mem_qualifier uri text hf hq
  rw [hqualified]
  exact Iff.rfl

/-- **The errors about names and arguments are those that should be reported about the uses of names in the root.** -/
theorem referencesChecked :
    ReferencesChecked functions (analyzeDocument (builtinContext sources functions) uri text) where
  unknownCall := by
    intro c hc
    obtain ⟨base, c', rfl, huse⟩ := exists_use_of_call sources functions uri text hc
    rw [isUnknown_iff]
    exact (hasError_iff sources functions uri text (Or.inl rfl) huse).trans (unknown_call_iff rfl)
  unknownBracket := by
    intro x hx
    have huse := use_of_bracket sources functions uri text hx
    exact (hasError_iff sources functions uri text (Or.inl rfl) huse).trans (unknown_bracket_iff rfl x)
  arity := by
    intro c hc
    obtain ⟨base, c', rfl, huse⟩ := exists_use_of_call sources functions uri text hc
    exact (hasError_iff sources functions uri text (Or.inr rfl) huse).trans (arity_call_iff rfl)
  only := by
    intro d hd hcode
    obtain ⟨r, hr, hd⟩ := (mem_merged_iff_use sources functions uri text hcode).1 hd
    obtain ⟨hseverity, -, hspan⟩ := useDiagnostics_about hd
    refine ⟨hseverity, ?_⟩
    obtain ⟨t, ht, hr⟩ := List.mem_flatMap.1 hr
    rcases mem_templateUses.1 hr with ⟨s, hs, c, hc, rfl⟩ | ⟨x, hx, rfl⟩
    · have hcall : { c with span := c.span.shift s.contentSpan.start } ∈
          rootCalls (analyzeDocument (builtinContext sources functions) uri text) :=
        List.mem_flatMap.2 ⟨t, ht, List.mem_flatMap.2 ⟨s, hs, List.mem_map.2 ⟨c, hc, rfl⟩⟩⟩
      exact Or.inl ⟨_, hcall, hspan⟩
    · refine Or.inr ⟨?_, x, List.mem_flatMap.2 ⟨t, ht, hx⟩, hspan⟩
      have hbracket : d ∈ bracketDiagnostics _ := hd
      unfold bracketDiagnostics at hbracket
      split at hbracket
      · obtain rfl := List.mem_singleton.1 hbracket
        rfl
      · cases hbracket

end Document

example : HasError (analyzeDocument (builtinContext { read := fun u => .error (.notFound u) } .builtin)
    ⟨"file:///project/main.lg"⟩ "# Main\n- $\x7bGreet(1)\x7d") .unknownReference (.ofSize 11 5) := by
  unfold HasError
  decide +kernel

end LgLang.Analyzer
