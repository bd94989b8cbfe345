import LgLang.Proofs.Diagnostic.Merge
import LgLang.Proofs.Sorting

/-!
# Merged lists as a normal form

A merged list rises strictly from place to place (`pairwise_merge`), so it is known by its members, and these are the
findings that come first of their keys. What merging gives therefore depends on one thing only, which finding comes
first of each key (`merge_congr`). A list that is merged again has the same first findings, alone or among others, and
so nothing changes (`merge_normalForm`).
-/

namespace LgLang.Diagnostic

variable {d e : Diagnostic} {ds es : List Diagnostic} {sources others : List (List Diagnostic)}

/-! ## The order -/

/-- Where a finding is listed: by the start of its span, then by the stop, then by the rank of its rule. -/
def place (d : Diagnostic) : Nat ×ₗ Nat ×ₗ Nat :=
  toLex (d.span.start, toLex (d.span.stop, d.code.rank))

/-- Findings have one place exactly when they have one key. -/
theorem place_eq_iff : d.place = e.place ↔ d.key = e.key := by
  constructor
  · intro h
    obtain ⟨hstart, hrest⟩ := Prod.mk.inj (toLex.injective h)
    obtain ⟨hstop, hrank⟩ := Prod.mk.inj (toLex.injective hrest)
    exact Prod.ext (Span.ext hstart hstop) (DiagnosticCode.rank_injective hrank)
  · intro h
    obtain ⟨hspan, hcode⟩ := Prod.mk.inj h
    rw [place, place, hspan, hcode]

theorem precedes_iff : precedes d e = true ↔ d.place ≤ e.place := by
  have hspan : compare d.span e.span =
      (compare d.span.start e.span.start).then (compare d.span.stop e.span.stop) := rfl
  have hcode : compare d.code e.code = compare d.code.rank e.code.rank := rfl
  rw [precedes, hspan, hcode, Ordering.then_assoc]
  exact Sorting.isLE_then_iff

/-! ## Merged lists -/

/-- **A merged list rises strictly.** -/
theorem pairwise_merge (sources : List (List Diagnostic)) : (merge sources).Pairwise (·.place < ·.place) := by
  have hsorted : (merge sources).Pairwise (·.place ≤ ·.place) :=
    Sorting.pairwise_mergeSort_of_iff precedes place precedes_iff (firstOfEachKey sources.flatten)
  -- Of two neighbours that are in order, the places differ because the keys do.
  have hdistinct := List.pairwise_map.1 (nodup_keys_merge sources)
  refine hsorted.imp₂ (fun a b hab hne => ?_) hdistinct
  exact lt_of_le_of_ne hab fun h => hne (place_eq_iff.1 h)

/-- Merging keeps the first finding of each key. -/
theorem find?_merge (sources : List (List Diagnostic)) (k : Span × DiagnosticCode) :
    (merge sources).find? (·.key = k) = sources.flatten.find? (·.key = k) := by
  have hkept : ∀ d ∈ merge sources, d.key = k → sources.flatten.find? (·.key = k) = some d := by
    rintro d hd rfl
    exact mem_merge_iff.1 hd
  cases hfind : (merge sources).find? (·.key = k) with
  | some d => exact (hkept d (List.mem_of_find?_eq_some hfind) (by simpa using List.find?_some hfind)).symm
  | none =>
    cases hfirst : sources.flatten.find? (·.key = k) with
    | none => rfl
    | some d =>
      have hkey : d.key = k := by simpa using List.find?_some hfirst
      have hd : d ∈ merge sources := mem_merge_iff.2 (hkey ▸ hfirst)
      exact absurd (by simpa using hkey) (List.find?_eq_none.1 hfind d hd)

/-- **Merging depends on the first findings alone.** -/
theorem merge_congr (h : ∀ k, sources.flatten.find? (·.key = k) = others.flatten.find? (·.key = k)) :
    merge sources = merge others := by
  refine Sorting.eq_of_mem_iff (pairwise_merge sources) (pairwise_merge others) fun d => ?_
  rw [mem_merge_iff, mem_merge_iff, h]

/-- The keys of a merged list are those of the lists that were merged. -/
theorem mem_keys_merge (sources : List (List Diagnostic)) (k : Span × DiagnosticCode) :
    k ∈ (merge sources).map key ↔ k ∈ sources.flatten.map key := by
  have hisSome : ∀ ds : List Diagnostic, k ∈ ds.map key ↔ (ds.find? (·.key = k)).isSome = true := by
    intro ds
    simp [List.find?_isSome]
  rw [hisSome, hisSome, find?_merge]

/-- What merging makes of lists of findings. -/
structure NormalForm (sources : List (List Diagnostic)) : Prop where
  rises : (merge sources).Pairwise (·.place < ·.place)
  keys : ∀ k, k ∈ (merge sources).map key ↔ k ∈ sources.flatten.map key
  /-- Of each key there is the finding that comes first. -/
  first : ∀ d ∈ merge sources, sources.flatten.find? (·.key = d.key) = some d
  idempotent : merge [merge sources] = merge sources
  associative : ∀ others, merge [merge sources, merge others] = merge (sources ++ others)

/-- **Merging brings findings into a normal form.** -/
theorem merge_normalForm (sources : List (List Diagnostic)) : NormalForm sources where
  rises := pairwise_merge sources
  keys := mem_keys_merge sources
  first _ hd := mem_merge_iff.1 hd
  idempotent := by
    refine merge_congr fun k => ?_
    rw [List.flatten_singleton, find?_merge]
  associative others := by
    refine merge_congr fun k => ?_
    rw [List.flatten_cons, List.flatten_singleton, List.flatten_append, List.find?_append, List.find?_append,
      find?_merge, find?_merge]

end LgLang.Diagnostic
