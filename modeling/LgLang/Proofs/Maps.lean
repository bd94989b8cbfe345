import Std.Data.TreeMap

/-!
# Lookups in sorted maps

What is found in a map behind an insertion or a removal, for keys that are equal when they compare as equal. A map whose
values are lists can be filled with items one after another, each added to the end of the list of its key; such a map
holds every item once (`flatMap_keys_perm`).
-/

namespace LgLang.Maps

variable {α β : Type} [Ord α] [Std.TransOrd α]

theorem get?_empty (a : α) : (∅ : Std.TreeMap α β).get? a = none := by
  rw [Std.TreeMap.get?_eq_getElem?]
  exact Std.TreeMap.getElem?_emptyc

theorem contains_eq_isSome (m : Std.TreeMap α β) (a : α) : m.contains a = (m.get? a).isSome := by
  rw [Std.TreeMap.get?_eq_getElem?]
  exact Std.TreeMap.contains_eq_isSome_getElem?

theorem getD_eq_getD_get? (m : Std.TreeMap α β) (a : α) (b : β) : m.getD a b = (m.get? a).getD b := by
  rw [Std.TreeMap.get?_eq_getElem?]
  exact Std.TreeMap.getD_eq_getD_getElem?

variable [Std.LawfulEqOrd α] [DecidableEq α]

theorem get?_insert (m : Std.TreeMap α β) (k : α) (b : β) (a : α) :
    (m.insert k b).get? a = if k = a then some b else m.get? a := by
  simp only [Std.TreeMap.get?_eq_getElem?, Std.TreeMap.getElem?_insert, Std.LawfulEqCmp.compare_eq_iff_eq]

theorem get?_insert_self (m : Std.TreeMap α β) (k : α) (b : β) : (m.insert k b).get? k = some b := by
  rw [get?_insert, if_pos rfl]

theorem get?_insert_of_ne (m : Std.TreeMap α β) {k a : α} (b : β) (h : k ≠ a) : (m.insert k b).get? a = m.get? a := by
  rw [get?_insert, if_neg h]

theorem get?_erase (m : Std.TreeMap α β) (k a : α) : (m.erase k).get? a = if k = a then none else m.get? a := by
  simp only [Std.TreeMap.get?_eq_getElem?, Std.TreeMap.getElem?_erase, Std.LawfulEqCmp.compare_eq_iff_eq]

theorem get?_erase_self (m : Std.TreeMap α β) (k : α) : (m.erase k).get? k = none := by
  rw [get?_erase, if_pos rfl]

theorem get?_erase_of_ne (m : Std.TreeMap α β) {k a : α} (h : k ≠ a) : (m.erase k).get? a = m.get? a := by
  rw [get?_erase, if_neg h]

/-! ## Groups -/

/-- The items by key are the items in another order, if no key is missing or there twice. -/
theorem flatMap_filter_perm {δ γ : Type} [DecidableEq δ] (key : γ → δ) {as : List δ} (hnodup : as.Nodup) {xs : List γ}
    (hkeys : ∀ x ∈ xs, key x ∈ as) : (as.flatMap fun a => xs.filter (key · = a)).Perm xs := by
  induction as generalizing xs with
  | nil =>
    rw [List.eq_nil_iff_forall_not_mem.2 fun x hx => List.not_mem_nil (hkeys x hx)]
    exact .refl _
  | cons a as ih =>
    obtain ⟨hnot, hnodup⟩ := List.nodup_cons.1 hnodup
    -- The lists of the other keys are the same without the items of the first one.
    have hothers : (as.flatMap fun b => xs.filter (key · = b)) =
        as.flatMap fun b => (xs.filter fun x => !decide (key x = a)).filter (key · = b) := by
      rw [List.flatMap_def, List.flatMap_def]
      refine congrArg List.flatten (List.map_congr_left fun b hb => ?_)
      rw [List.filter_filter]
      refine List.filter_congr fun x _ => ?_
      have hne : b ≠ a := fun h => hnot (h ▸ hb)
      by_cases hx : key x = b
      · simp [hx, hne]
      · simp [hx]
    have hrest : ∀ x ∈ xs.filter fun x => !decide (key x = a), key x ∈ as := by
      intro x hx
      obtain ⟨hx, hne⟩ := List.mem_filter.1 hx
      have hne : key x ≠ a := by simpa using hne
      exact (List.mem_cons.1 (hkeys x hx)).resolve_left hne
    rw [List.flatMap_cons, hothers]
    exact ((ih hnodup hrest).append_left _).trans (List.filter_append_perm _ _)

section Groups

variable {γ : Type} (key : γ → α)

/-- The map with one more item, at the end of the list of its key. -/
def add (m : Std.TreeMap α (List γ)) (x : γ) : Std.TreeMap α (List γ) :=
  m.insert (key x) (m.getD (key x) [] ++ [x])

theorem getD_add (m : Std.TreeMap α (List γ)) (x : γ) (a : α) :
    (add key m x).getD a [] = if key x = a then m.getD a [] ++ [x] else m.getD a [] := by
  rw [add, Std.TreeMap.getD_insert]
  by_cases ha : key x = a
  · subst ha
    rw [if_pos rfl, if_pos Std.ReflCmp.compare_self]
  · have hcmp : compare (key x) a ≠ .eq := fun h => ha (Std.LawfulEqOrd.eq_of_compare h)
    rw [if_neg ha, if_neg hcmp]

/-- Behind the items the list of a key holds those of this key, in their order. -/
theorem getD_foldl_add (xs : List γ) (m : Std.TreeMap α (List γ)) (a : α) :
    (xs.foldl (add key) m).getD a [] = m.getD a [] ++ xs.filter (key · = a) := by
  induction xs generalizing m with
  | nil => simp
  | cons x rest ih =>
    rw [List.foldl_cons, ih, getD_add, List.filter_cons]
    by_cases ha : key x = a <;> simp [ha]

omit [DecidableEq α] in
theorem mem_foldl_add (xs : List γ) (m : Std.TreeMap α (List γ)) (a : α) :
    a ∈ xs.foldl (add key) m ↔ a ∈ m ∨ ∃ x ∈ xs, key x = a := by
  induction xs generalizing m with
  | nil => simp
  | cons x rest ih =>
    rw [List.foldl_cons, ih, add, Std.TreeMap.mem_insert, Std.LawfulEqCmp.compare_eq_iff_eq, or_comm (a := key x = a),
      or_assoc]
    simp

/-- A map that was filled with items holds each of them once. -/
theorem flatMap_keys_perm (xs : List γ) :
    ((xs.foldl (add key) ∅).keys.flatMap fun a => (xs.foldl (add key) ∅).getD a []).Perm xs := by
  have hlists : ∀ a, (xs.foldl (add key) ∅).getD a [] = xs.filter (key · = a) := by
    intro a
    rw [getD_foldl_add]
    simp
  simp only [hlists]
  refine flatMap_filter_perm key Std.TreeMap.nodup_keys fun x hx => ?_
  rw [Std.TreeMap.mem_keys, mem_foldl_add]
  exact Or.inr ⟨x, hx, rfl⟩

end Groups

end LgLang.Maps
