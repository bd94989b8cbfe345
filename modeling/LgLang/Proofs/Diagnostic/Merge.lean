import LgLang.Diagnostic

/-!
# What merging keeps

A merged list holds, of each key, the finding that comes first in the lists that were merged (`mem_merge_iff`), and no
key twice (`nodup_keys_merge`). A finding that shares its key with an earlier one is lost, whatever it says.
-/

namespace LgLang.Diagnostic

/-! ## First of each key -/

/-- The walk along a list keeps a finding when its key is new and no finding before it has the same one. -/
theorem mem_go_iff {seen : List (Span × DiagnosticCode)} {ds : List Diagnostic} {d : Diagnostic} :
    d ∈ firstOfEachKey.go seen ds ↔ d.key ∉ seen ∧ ds.find? (·.key = d.key) = some d := by
  induction ds generalizing seen with
  | nil => simp [firstOfEachKey.go]
  | cons e es ih =>
    rw [firstOfEachKey.go]
    by_cases hkey : e.key = d.key
    · rw [List.find?_cons_of_pos (by simpa using hkey)]
      by_cases hseen : e.key ∈ seen
      · rw [if_pos hseen, ih]
        exact ⟨fun h => absurd (hkey ▸ hseen) h.1, fun h => absurd (hkey ▸ hseen) h.1⟩
      · rw [if_neg hseen, List.mem_cons, ih]
        constructor
        · rintro (rfl | ⟨hnot, _⟩)
          · exact ⟨hseen, rfl⟩
          · exact absurd (hkey ▸ List.mem_cons_self) hnot
        · rintro ⟨_, he⟩
          exact Or.inl (Option.some.inj he).symm
    · rw [List.find?_cons_of_neg (by simpa using hkey)]
      have hne : d ≠ e := fun h => hkey (h ▸ rfl)
      by_cases hseen : e.key ∈ seen
      · rw [if_pos hseen, ih]
      · rw [if_neg hseen, List.mem_cons, ih, List.mem_cons]
        constructor
        · rintro (h | ⟨hnot, hfind⟩)
          · exact absurd h hne
          · exact ⟨fun h => hnot (Or.inr h), hfind⟩
        · rintro ⟨hnot, hfind⟩
          exact Or.inr ⟨fun h => h.elim (fun h => hkey h.symm) hnot, hfind⟩

theorem mem_firstOfEachKey {ds : List Diagnostic} {d : Diagnostic} :
    d ∈ firstOfEachKey ds ↔ ds.find? (·.key = d.key) = some d := by
  rw [firstOfEachKey, mem_go_iff]
  simp

theorem nodup_keys_go (seen : List (Span × DiagnosticCode)) (ds : List Diagnostic) :
    ((firstOfEachKey.go seen ds).map key).Nodup := by
  induction ds generalizing seen with
  | nil => simp [firstOfEachKey.go]
  | cons e es ih =>
    rw [firstOfEachKey.go]
    split
    · exact ih seen
    · rw [List.map_cons, List.nodup_cons]
      refine ⟨fun h => ?_, ih _⟩
      obtain ⟨d, hd, hkey⟩ := List.mem_map.mp h
      exact (mem_go_iff.mp hd).1 (hkey ▸ List.mem_cons_self)

/-! ## Merged lists -/

/-- **A merged list holds the first finding of each key.** -/
theorem mem_merge_iff {sources : List (List Diagnostic)} {d : Diagnostic} :
    d ∈ merge sources ↔ sources.flatten.find? (·.key = d.key) = some d := by
  rw [merge, List.mem_mergeSort, mem_firstOfEachKey]

/-- No key is in a merged list twice. -/
theorem nodup_keys_merge (sources : List (List Diagnostic)) : ((merge sources).map key).Nodup :=
  ((List.mergeSort_perm _ _).map key).nodup_iff.mpr (nodup_keys_go [] _)

/-- Findings of a merged list that have the same key stand at the same place of it. -/
theorem index_eq_of_key_eq {sources : List (List Diagnostic)} {i j : Nat} {d e : Diagnostic}
    (hi : (merge sources)[i]? = some d) (hj : (merge sources)[j]? = some e) (hkey : d.key = e.key) : i = j := by
  have hlen : i < ((merge sources).map key).length := by
    rw [List.length_map]; exact (List.getElem?_eq_some_iff.mp hi).1
  refine (List.getElem?_inj hlen (nodup_keys_merge sources)).mp ?_
  rw [List.getElem?_map, List.getElem?_map, hi, hj]
  simp [hkey]

/-- A finding that shares its key with no other one is kept. -/
theorem mem_merge_iff_of_unique {sources : List (List Diagnostic)} {d : Diagnostic}
    (hunique : d ∈ sources.flatten → ∀ e ∈ sources.flatten, e.key = d.key → e = d) :
    d ∈ merge sources ↔ d ∈ sources.flatten := by
  rw [mem_merge_iff]
  constructor
  · exact List.mem_of_find?_eq_some
  · intro hd
    obtain ⟨e, hfind⟩ := Option.isSome_iff_exists.1
      (List.find?_isSome.2 ⟨d, hd, by simp⟩ : (sources.flatten.find? (·.key = d.key)).isSome)
    have hkey : e.key = d.key := by simpa using List.find?_some hfind
    rw [hfind, hunique hd e (List.mem_of_find?_eq_some hfind) hkey]

/-- Of several lists merged, one alone decides about a finding if no other has findings of its rule. -/
theorem mem_merge_of_code {before after ds : List Diagnostic} {sources : List (List Diagnostic)} {d : Diagnostic}
    (hsplit : sources.flatten = before ++ ds ++ after) (hbefore : ∀ e ∈ before, e.code ≠ d.code)
    (hafter : ∀ e ∈ after, e.code ≠ d.code) :
    d ∈ merge sources ↔ ds.find? (·.key = d.key) = some d := by
  have hnone : ∀ es : List Diagnostic, (∀ e ∈ es, e.code ≠ d.code) → es.find? (·.key = d.key) = none := by
    intro es hes
    refine List.find?_eq_none.mpr fun e he hkey => hes e he ?_
    exact congrArg Prod.snd (of_decide_eq_true hkey : e.key = d.key)
  rw [mem_merge_iff, hsplit, List.find?_append, List.find?_append, hnone _ hbefore, hnone _ hafter]
  simp

end LgLang.Diagnostic
