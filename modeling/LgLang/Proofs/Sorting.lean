import Mathlib.Data.List.Sort
import Mathlib.Data.Prod.Lex

/-!
# Lists in the order of places

A comparison of one part after another is the order of the places that the parts make up (`isLE_then_iff`). A list that
is sorted by such a comparison is in the order of its places (`pairwise_mergeSort_of_iff`). If it rises strictly, it is
known by its members (`eq_of_mem_iff`), and what is found in it first has the least place (`find?_eq_some_iff_least`).
-/

namespace LgLang.Sorting

/-- Comparing by one part and then by the next is the order of all parts together. -/
theorem isLE_then_iff {α β γ : Type} [LinearOrder α] [LinearOrder β] [LinearOrder γ] {a a' : α} {b b' : β} {c c' : γ} :
    ((compare a a').then ((compare b b').then (compare c c'))).isLE = true ↔
      toLex (a, toLex (b, c)) ≤ toLex (a', toLex (b', c')) := by
  rw [Prod.Lex.toLex_le_toLex, Prod.Lex.toLex_le_toLex]
  simp only [Ordering.isLE_then_iff_or, compare_lt_iff_lt, compare_eq_iff_eq, Std.LawfulBCmp.isLE_iff_le]

variable {α β : Type} [LinearOrder β]

/-- A list sorted by a comparison of places is in the order of places. -/
theorem pairwise_mergeSort_of_iff (precedes : α → α → Bool) (place : α → β)
    (h : ∀ {a b}, precedes a b = true ↔ place a ≤ place b) (xs : List α) :
    (xs.mergeSort precedes).Pairwise (place · ≤ place ·) := by
  have hsorted : (xs.mergeSort precedes).Pairwise fun a b => precedes a b = true := by
    refine List.pairwise_mergeSort (fun a b c hab hbc => ?_) (fun a b => ?_) xs
    · exact h.2 (le_trans (h.1 hab) (h.1 hbc))
    · rw [Bool.or_eq_true, h, h]
      exact le_total (place a) (place b)
  exact hsorted.imp h.1

/-- Lists that rise strictly are equal if they have the same members. -/
theorem eq_of_mem_iff {place : α → β} {xs ys : List α} (hxs : xs.Pairwise (place · < place ·))
    (hys : ys.Pairwise (place · < place ·)) (hmem : ∀ a, a ∈ xs ↔ a ∈ ys) : xs = ys := by
  have hirrefl : Std.Irrefl fun a b : α => place a < place b := ⟨fun a => lt_irrefl (place a)⟩
  have hantisymm : Std.Antisymm fun a b : α => place a < place b := ⟨fun _ _ hab hba => absurd hba hab.asymm⟩
  exact hxs.eq_of_mem_iff hys hmem

/-- In a list that rises strictly, what is found is the least member of its kind. -/
theorem find?_eq_some_iff_least {place : α → β} {xs : List α} (h : xs.Pairwise (place · < place ·)) {wanted : α → Bool}
    {a : α} :
    xs.find? wanted = some a ↔ (a ∈ xs ∧ wanted a = true) ∧ ∀ b ∈ xs, wanted b = true → place a ≤ place b := by
  have hleast : ∀ {a}, xs.find? wanted = some a → ∀ b ∈ xs, wanted b = true → place a ≤ place b := by
    intro a hfind b hb hwanted
    obtain ⟨-, before, behind, rfl, hbefore⟩ := List.find?_eq_some_iff_append.1 hfind
    rcases List.mem_append.1 hb with hfront | hback
    · have hnot := hbefore b hfront
      rw [hwanted] at hnot
      cases hnot
    · rcases List.mem_cons.1 hback with rfl | hbehind
      · exact le_refl (place b)
      · exact ((List.pairwise_cons.1 (List.pairwise_append.1 h).2.1).1 b hbehind).le
  constructor
  · exact fun hfind => ⟨⟨List.mem_of_find?_eq_some hfind, List.find?_some hfind⟩, hleast hfind⟩
  · rintro ⟨⟨ha, hwanted⟩, hall⟩
    obtain ⟨b, hfind⟩ := Option.isSome_iff_exists.1 (List.find?_isSome.2 ⟨a, ha, hwanted⟩)
    have hb := List.mem_of_find?_eq_some hfind
    have hplace : place b = place a := le_antisymm (hleast hfind a ha hwanted) (hall b hb (List.find?_some hfind))
    -- One place has one member.
    have hnodup : (xs.map place).Nodup := List.pairwise_map.2 (h.imp ne_of_lt)
    rw [hfind, List.inj_on_of_nodup_map hnodup hb ha hplace]

end LgLang.Sorting
