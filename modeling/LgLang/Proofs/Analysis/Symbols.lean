import LgLang.Analysis.Symbol
import LgLang.Proofs.Maps

/-!
# What a symbol table holds

The table of a scope holds every symbol once (`all_perm`), under each name the definitions of that name in the order of
the files (`definitions_ofScope`), and a name counts as duplicate exactly when several of its definitions are active
(`mem_duplicates`). Visible are the definitions that their own names mean (`mem_visible`), one of each name.
-/

namespace LgLang.SymbolTable

variable {t : SymbolTable} {s : Scope} {name : String}

theorem mem_symbolsOf {files : List ScopeFile} {symbol : Symbol} :
    symbol ∈ symbolsOf files ↔ ∃ f ∈ files, ∃ t ∈ f.file.templates, symbol = .ofTemplate f t := by
  simp only [symbolsOf, List.mem_flatMap, List.mem_map, eq_comm]

/-- The table of a scope is filled with its symbols, one after another. -/
theorem byName_ofScope (s : Scope) : (ofScope s).byName = (symbolsOf s.files).foldl (Maps.add Symbol.name) ∅ :=
  (List.foldl_hom byName fun _ _ => rfl).symm

theorem definitions_ofScope (s : Scope) (name : String) :
    (ofScope s).definitions name = (symbolsOf s.files).filter (·.name = name) := by
  rw [definitions, byName_ofScope, Maps.getD_foldl_add]
  simp

/-- A name is in the table of a scope when it has a definition there. -/
theorem contains_ofScope (s : Scope) (name : String) :
    (ofScope s).contains name = true ↔ ∃ symbol ∈ symbolsOf s.files, symbol.name = name := by
  rw [contains, Std.TreeMap.contains_iff_mem, byName_ofScope, Maps.mem_foldl_add]
  simp

/-- The table of a scope holds every symbol once. -/
theorem all_perm (s : Scope) : (ofScope s).all.Perm (symbolsOf s.files) := by
  show ((ofScope s).byName.keys.flatMap fun name => (ofScope s).byName.getD name []).Perm (symbolsOf s.files)
  rw [byName_ofScope]
  exact Maps.flatMap_keys_perm Symbol.name (symbolsOf s.files)

/-- Every definition in the table of a scope comes from a file of it. -/
theorem definition_file {symbol : Symbol} (h : symbol ∈ (ofScope s).definitions name) :
    ∃ f ∈ s.files, ∃ t ∈ f.file.templates, symbol = .ofTemplate f t := by
  rw [definitions_ofScope] at h
  exact mem_symbolsOf.1 (List.mem_filter.1 h).1

theorem mem_definitions_of_active {symbol : Symbol} (h : symbol ∈ t.active name) : symbol ∈ t.definitions name := by
  unfold active Symbol.active at h
  split at h
  · exact (List.mem_filter.1 h).1
  · exact h

/-- The root's own definitions always count. -/
theorem mem_active_of_isLocal {symbol : Symbol} (h : symbol ∈ t.definitions name) (hlocal : symbol.isLocal = true) :
    symbol ∈ t.active name := by
  have hany : (t.definitions name).any Symbol.isLocal = true := List.any_eq_true.2 ⟨symbol, h, hlocal⟩
  rw [active, Symbol.active, if_pos hany]
  exact List.mem_filter.2 ⟨h, hlocal⟩

/-- Of the definitions of a name, some count. -/
theorem active_ne_nil {symbol : Symbol} (h : symbol ∈ t.definitions name) : t.active name ≠ [] := by
  rw [active, Symbol.active]
  split
  · next hany =>
    obtain ⟨other, hother, hlocal⟩ := List.any_eq_true.1 hany
    exact List.ne_nil_of_mem (List.mem_filter.2 ⟨hother, hlocal⟩)
  · exact List.ne_nil_of_mem h

/-- Where only the root has no import that brought it, a name means its first definition in the order of the files. -/
theorem resolve?_ofScope (hroot : s.root.via = none) (hothers : ∀ f ∈ s.others, f.via ≠ none) (name : String) :
    (ofScope s).resolve? name = (symbolsOf s.files).find? (·.name = name) := by
  have hlocal : ∀ d ∈ (symbolsOf [s.root]).filter (·.name = name), d.isLocal = true := by
    intro d hd
    obtain ⟨f, hf, t, _, rfl⟩ := mem_symbolsOf.1 (List.mem_filter.1 hd).1
    obtain rfl := List.mem_singleton.1 hf
    exact Option.isNone_iff_eq_none.2 hroot
  have himported : ∀ d ∈ (symbolsOf s.others).filter (·.name = name), ¬d.isLocal = true := by
    intro d hd
    obtain ⟨f, hf, t, _, rfl⟩ := mem_symbolsOf.1 (List.mem_filter.1 hd).1
    exact fun hnone => hothers f hf (Option.isNone_iff_eq_none.1 hnone)
  have hfiles : symbolsOf s.files = symbolsOf [s.root] ++ symbolsOf s.others := by
    simp [symbolsOf, Scope.files]
  rw [← List.head?_filter, resolve?, active, definitions_ofScope, hfiles, List.filter_append]
  generalize (symbolsOf [s.root]).filter (·.name = name) = own at hlocal
  generalize (symbolsOf s.others).filter (·.name = name) = others at himported
  -- The definitions of the root come first, and if there are any, only they count.
  cases own with
  | nil =>
    have hnone : (others.any Symbol.isLocal) = false := List.any_eq_false.2 himported
    rw [List.nil_append, Symbol.active, hnone, if_neg Bool.false_ne_true]
  | cons d own =>
    have hd := hlocal d List.mem_cons_self
    have hany : ((d :: own ++ others).any Symbol.isLocal) = true := List.any_eq_true.2 ⟨d, List.mem_cons_self, hd⟩
    rw [Symbol.active, if_pos hany, List.cons_append, List.filter_cons_of_pos hd]
    rfl

/-- A name that means a template is in the table. -/
theorem contains_of_resolve? {symbol : Symbol} (h : t.resolve? name = some symbol) : t.contains name = true := by
  have hdefinition := mem_definitions_of_active (List.mem_of_mem_head? h)
  unfold contains
  refine Classical.byContradiction fun hnot => ?_
  rw [definitions, Std.TreeMap.getD_eq_fallback (by simpa using hnot)] at hdefinition
  cases hdefinition

/-- The definition that a name means has this name. -/
theorem name_of_resolve? {symbol : Symbol} (h : (ofScope s).resolve? name = some symbol) : symbol.name = name := by
  have hdefinition := mem_definitions_of_active (List.mem_of_mem_head? h)
  rw [definitions_ofScope] at hdefinition
  simpa using (List.mem_filter.1 hdefinition).2

/-- Visible are the definitions that their own names mean. -/
theorem mem_visible {symbol : Symbol} :
    symbol ∈ (ofScope s).visible ↔ (ofScope s).resolve? symbol.name = some symbol := by
  rw [visible, List.mem_filterMap]
  constructor
  · rintro ⟨name, -, hresolve⟩
    rwa [name_of_resolve? hresolve]
  · intro hresolve
    exact ⟨symbol.name, Std.TreeMap.mem_keys.2 (contains_of_resolve? hresolve), hresolve⟩

/-- Of each name one definition is visible. -/
theorem nodup_names_visible (s : Scope) : ((ofScope s).visible.map (·.name)).Nodup := by
  have hnames : (ofScope s).names.Nodup := Std.TreeMap.nodup_keys
  rw [List.Nodup, List.pairwise_map, visible, List.pairwise_filterMap]
  refine hnames.imp fun hne a ha b hb hsame => hne ?_
  rw [← name_of_resolve? ha, ← name_of_resolve? hb, hsame]

/-- The duplicates are the names with more than one active definition, together with these. -/
theorem mem_duplicates {active : List Symbol} :
    (name, active) ∈ t.duplicates ↔ active = t.active name ∧ 1 < (t.active name).length := by
  have hnames : 1 < (t.active name).length → name ∈ t.names := by
    intro hlength
    obtain ⟨symbol, hsymbol⟩ := List.exists_mem_of_length_pos (Nat.lt_trans Nat.zero_lt_one hlength)
    have hdefinitions := mem_definitions_of_active hsymbol
    unfold names
    rw [Std.TreeMap.mem_keys]
    refine Classical.byContradiction fun hname => ?_
    rw [definitions, Std.TreeMap.getD_eq_fallback hname] at hdefinitions
    cases hdefinitions
  simp only [duplicates, List.mem_filter, List.mem_map, decide_eq_true_eq, Prod.mk.injEq]
  constructor
  · rintro ⟨⟨_, _, rfl, rfl⟩, hlength⟩
    exact ⟨rfl, hlength⟩
  · rintro ⟨rfl, hlength⟩
    exact ⟨⟨name, hnames hlength, rfl, rfl⟩, hlength⟩

end LgLang.SymbolTable
