import LgLang.Proofs.Maps
import LgLang.Workspace.Dependencies
import Mathlib.Data.List.Perm.Subperm
import Mathlib.Logic.Relation

/-!
# The two directions of dependencies

Both directions of the dependencies always hold the same pairs (`Mirrored`). What a document depends on is what was last
noted of it (`mem_forward_replace`), and the documents affected by a change are those that depend on the changed one,
directly or through others (`mem_affected`).
-/

namespace LgLang.Workspace

open Relation (ReflTransGen TransGen transGen_swap)

variable {r : UriRelation} {d : Dependencies} {u v w x : Uri}

/-! ## Relations -/

namespace UriRelation

theorem mem_targets : x ∈ r.targets u ↔ x ∈ (Std.TreeMap.get? r u).getD ∅ := by
  rw [targets, Std.TreeSet.mem_toList, Maps.getD_eq_getD_get?]

theorem mem_targets_relate : x ∈ (r.relate u v).targets w ↔ x ∈ r.targets w ∨ (u = w ∧ v = x) := by
  rw [mem_targets, mem_targets, relate, Maps.get?_insert]
  by_cases hu : u = w
  · subst hu
    rw [if_pos rfl, Option.getD_some, Std.TreeSet.mem_insert, Std.LawfulEqCmp.compare_eq_iff_eq,
      Maps.getD_eq_getD_get?]
    simp [or_comm]
  · simp [hu]

theorem mem_targets_erase : x ∈ targets (Std.TreeMap.erase r u) w ↔ u ≠ w ∧ x ∈ r.targets w := by
  rw [mem_targets, mem_targets, Maps.get?_erase]
  by_cases hu : u = w <;> simp [hu]

theorem mem_targets_unrelate : x ∈ (r.unrelate u v).targets w ↔ x ∈ r.targets w ∧ ¬ (u = w ∧ v = x) := by
  rw [mem_targets, mem_targets, unrelate]
  cases hget : Std.TreeMap.get? r u with
  | none =>
    by_cases hu : u = w
    · subst hu
      simp only [hget, Option.getD_none, Std.TreeSet.not_mem_emptyc, false_and]
    · simp only [hu, false_and, not_false_eq_true, and_true]
  | some vs =>
    have hrest : x ∈ vs.erase v ↔ x ∈ vs ∧ v ≠ x := by
      rw [Std.TreeSet.mem_erase, ne_eq, Std.LawfulEqCmp.compare_eq_iff_eq, and_comm]
    show x ∈ (Std.TreeMap.get? (if (vs.erase v).isEmpty then Std.TreeMap.erase r u
      else Std.TreeMap.insert r u (vs.erase v)) w).getD ∅ ↔ _
    by_cases hu : u = w
    · subst hu
      simp only [hget, Option.getD_some, true_and]
      rw [← hrest]
      by_cases hempty : (vs.erase v).isEmpty
      · rw [if_pos hempty, Maps.get?_erase_self]
        have hnone := Std.TreeSet.isEmpty_iff_forall_not_mem.1 hempty x
        simp [hnone]
      · rw [if_neg hempty, Maps.get?_insert_self, Option.getD_some]
    · by_cases hempty : (vs.erase v).isEmpty
      · rw [if_pos hempty, Maps.get?_erase_of_ne r hu]
        simp only [hu, false_and, not_false_eq_true, and_true]
      · rw [if_neg hempty, Maps.get?_insert_of_ne r _ hu]
        simp only [hu, false_and, not_false_eq_true, and_true]

/-- The pairs left when `u` is taken from those related to each of several documents. -/
theorem mem_targets_foldl_unrelate (vs : List Uri) (r : UriRelation) :
    x ∈ (vs.foldl (fun r v => r.unrelate v u) r).targets w ↔ x ∈ r.targets w ∧ ¬ (w ∈ vs ∧ u = x) := by
  induction vs generalizing r with
  | nil => simp
  | cons v vs ih =>
    rw [List.foldl_cons, ih, mem_targets_unrelate, List.mem_cons, eq_comm (a := v)]
    constructor
    · rintro ⟨⟨hx, hv⟩, hvs⟩
      exact ⟨hx, fun ⟨hw, hu⟩ => hw.elim (fun hw => hv ⟨hw, hu⟩) fun hw => hvs ⟨hw, hu⟩⟩
    · rintro ⟨hx, hnot⟩
      exact ⟨⟨hx, fun ⟨hw, hu⟩ => hnot ⟨Or.inl hw, hu⟩⟩, fun ⟨hw, hu⟩ => hnot ⟨Or.inr hw, hu⟩⟩

/-! ### Following a relation -/

/-- One document is related to another. -/
def Leads (r : UriRelation) (u v : Uri) : Prop :=
  v ∈ r.targets u

/-- The documents that others are related to, each once for every pair. -/
def related (r : UriRelation) : List Uri :=
  (Std.TreeMap.toList r).flatMap fun (_, vs) => vs.toList

theorem length_related : r.related.length = r.pairCount := by
  have hsum : ∀ (pairs : List (Uri × Std.TreeSet Uri)) (n : Nat),
      pairs.foldl (fun n (_, vs) => n + vs.size) n = n + (pairs.flatMap fun (_, vs) => vs.toList).length := by
    intro pairs
    induction pairs with
    | nil => intro n; rfl
    | cons pair pairs ih =>
      intro n
      rw [List.foldl_cons, ih, List.flatMap_cons, List.length_append, Std.TreeSet.length_toList, Nat.add_assoc]
  rw [related, pairCount, hsum, Nat.zero_add]

theorem mem_related (h : r.Leads u v) : v ∈ r.related := by
  have hv := mem_targets.1 h
  cases hget : Std.TreeMap.get? r u with
  | none =>
    rw [hget] at hv
    exact absurd hv Std.TreeSet.not_mem_emptyc
  | some vs =>
    rw [hget] at hv
    rw [Std.TreeMap.get?_eq_getElem?] at hget
    exact List.mem_flatMap.2 ⟨(u, vs), Std.TreeMap.mem_toList_iff_getElem?_eq_some.2 hget, Std.TreeSet.mem_toList.2 hv⟩

theorem nodup_toList (s : Std.TreeSet Uri) : s.toList.Nodup := by
  refine (Std.TreeSet.distinct_toList).imp fun hne heq => hne ?_
  rw [heq]
  exact Std.ReflCmp.compare_self

/-- A set as large as the list that it is taken from has all of the list. -/
theorem subset_of_length_le {nodes : List Uri} {seen : Std.TreeSet Uri} (hseen : ∀ x ∈ seen, x ∈ nodes)
    (hlength : nodes.length ≤ seen.size) : ∀ x ∈ nodes, x ∈ seen := by
  have hsub : seen.toList ⊆ nodes := fun x hx => hseen x (Std.TreeSet.mem_toList.1 hx)
  have hperm := ((nodup_toList seen).subperm hsub).perm_of_length_le (by rwa [Std.TreeSet.length_toList])
  exact fun x hx => Std.TreeSet.mem_toList.1 (hperm.mem_iff.2 hx)

/-- A set holds what was seen before and what a list leads to, and nothing else. -/
structure Completes (r : UriRelation) (todo : List Uri) (seen result : Std.TreeSet Uri) : Prop where
  keeps : ∀ x, x ∈ seen ∨ x ∈ todo → x ∈ result
  closed : ∀ u ∈ result, ∀ v, r.Leads u v → v ∈ result
  reached : ∀ x ∈ result, x ∈ seen ∨ ∃ u ∈ todo, ReflTransGen r.Leads u x

theorem Completes.of_path {todo : List Uri} {seen result : Std.TreeSet Uri} (h : r.Completes todo seen result)
    (hu : u ∈ result) (hpath : ReflTransGen r.Leads u v) : v ∈ result := by
  induction hpath with
  | refl => exact hu
  | tail _ hstep ih => exact h.closed _ ih _ hstep

/-- What a search that begins with nothing seen has found. -/
theorem Completes.mem_iff {todo : List Uri} {found : Std.TreeSet Uri} (h : r.Completes todo ∅ found) :
    x ∈ found ↔ ∃ u ∈ todo, ReflTransGen r.Leads u x := by
  constructor
  · intro hx
    exact (h.reached x hx).resolve_left Std.TreeSet.not_mem_emptyc
  · rintro ⟨u, hu, hpath⟩
    exact h.of_path (h.keeps u (Or.inr hu)) hpath

/-- Nothing is left to do when the whole list has been seen. -/
theorem completes_self {todo : List Uri} {seen : Std.TreeSet Uri}
    (hclosed : ∀ u ∈ seen, ∀ v, r.Leads u v → v ∈ seen ∨ v ∈ todo) (hall : ∀ x ∈ todo, x ∈ seen) :
    r.Completes todo seen seen where
  keeps x hx := hx.elim id (hall x)
  closed u hu v hv := (hclosed u hu v hv).elim id (hall v)
  reached _ hx := Or.inl hx

/-- What a search skips at the front of its list has been seen. -/
theorem mem_seen_or_rest {todo rest : List Uri} {seen : Std.TreeSet Uri} (hrest : todo.dropWhile seen.contains = rest) :
    ∀ x ∈ todo, x ∈ seen ∨ x ∈ rest := by
  intro x hx
  rw [← @List.takeWhile_append_dropWhile _ seen.contains todo, hrest] at hx
  rcases List.mem_append.1 hx with htake | hdrop
  · exact Or.inl (Std.TreeSet.contains_iff_mem.1 (List.all_eq_true.1 List.all_takeWhile x htake))
  · exact Or.inr hdrop

theorem mem_insert_iff {seen : Std.TreeSet Uri} : x ∈ seen.insert u ↔ u = x ∨ x ∈ seen := by
  rw [Std.TreeSet.mem_insert, Std.LawfulEqCmp.compare_eq_iff_eq]

/-- When a document is taken up, what was seen or on the list is seen or on the list behind it. -/
theorem mem_next {todo rest : List Uri} {seen : Std.TreeSet Uri} (hrest : todo.dropWhile seen.contains = u :: rest)
    (hx : x ∈ seen ∨ x ∈ todo) : x ∈ seen.insert u ∨ x ∈ r.targets u ++ rest := by
  rcases hx.elim Or.inl (mem_seen_or_rest hrest x) with hseen | hmem
  · exact Or.inl (mem_insert_iff.2 (Or.inr hseen))
  · rcases List.mem_cons.1 hmem with rfl | hlater
    · exact Or.inl (mem_insert_iff.2 (Or.inl rfl))
    · exact Or.inr (List.mem_append_right _ hlater)

/-- A search that takes up a document completes what it has to do if it does so from there. -/
theorem Completes.of_next {todo rest : List Uri} {seen result : Std.TreeSet Uri}
    (hrest : todo.dropWhile seen.contains = u :: rest) (h : r.Completes (r.targets u ++ rest) (seen.insert u) result) :
    r.Completes todo seen result where
  keeps x hx := h.keeps x (mem_next hrest hx)
  closed := h.closed
  reached x hx := by
    have hsub : ∀ y ∈ u :: rest, y ∈ todo := fun y hy => List.dropWhile_subset _ (hrest ▸ hy)
    have hu : u ∈ todo := hsub u List.mem_cons_self
    rcases h.reached x hx with hseen | ⟨w, hw, hpath⟩
    · rcases mem_insert_iff.1 hseen with rfl | hseen
      · exact Or.inr ⟨u, hu, .refl⟩
      · exact Or.inl hseen
    · rcases List.mem_append.1 hw with htarget | hlater
      · exact Or.inr ⟨u, hu, .head htarget hpath⟩
      · exact Or.inr ⟨w, hsub w (List.mem_cons_of_mem _ hlater), hpath⟩

/-- A search with room for all related documents completes what it has seen before, if that leads to documents that it
has seen or has on its list. -/
theorem reach_completes (room : Nat) (todo : List Uri) (seen : Std.TreeSet Uri) (htodo : ∀ x ∈ todo, x ∈ r.related)
    (hseen : ∀ x ∈ seen, x ∈ r.related) (hroom : r.related.length ≤ room + seen.size)
    (hclosed : ∀ u ∈ seen, ∀ v, r.Leads u v → v ∈ seen ∨ v ∈ todo) :
    r.Completes todo seen (r.reach room todo seen) := by
  -- Every round sees one more of the related documents, so that none is left to see when there is no room left.
  induction room generalizing todo seen with
  | zero =>
    rw [Nat.zero_add] at hroom
    rw [reach]
    exact completes_self hclosed fun x hx => subset_of_length_le hseen hroom x (htodo x hx)
  | succ room ih =>
    rw [reach]
    have hhead := List.head?_dropWhile_not seen.contains todo
    cases hrest : todo.dropWhile seen.contains with
    | nil =>
      have hall : ∀ x ∈ todo, x ∈ seen :=
        fun x hx => (mem_seen_or_rest hrest x hx).resolve_right List.not_mem_nil
      exact completes_self hclosed hall
    | cons u rest =>
      rw [hrest] at hhead
      have hsub : ∀ x ∈ u :: rest, x ∈ r.related := fun x hx => htodo x (List.dropWhile_subset _ (hrest ▸ hx))
      have hsize : (seen.insert u).size = seen.size + 1 := by
        rw [Std.TreeSet.size_insert, if_neg (by rw [hhead]; exact Bool.false_ne_true)]
      have htodo' : ∀ x ∈ r.targets u ++ rest, x ∈ r.related := by
        intro x hx
        rcases List.mem_append.1 hx with htarget | hlater
        · exact mem_related htarget
        · exact hsub x (List.mem_cons_of_mem _ hlater)
      have hseen' : ∀ x ∈ seen.insert u, x ∈ r.related := by
        intro x hx
        rcases mem_insert_iff.1 hx with rfl | hold
        · exact hsub u List.mem_cons_self
        · exact hseen x hold
      have hclosed' : ∀ w ∈ seen.insert u, ∀ v, r.Leads w v → v ∈ seen.insert u ∨ v ∈ r.targets u ++ rest := by
        intro w hw v hv
        rcases mem_insert_iff.1 hw with rfl | hold
        · exact Or.inr (List.mem_append_left _ hv)
        · exact mem_next hrest (hclosed w hold v hv)
      exact .of_next hrest (ih (r.targets u ++ rest) (seen.insert u) htodo' hseen' (by omega) hclosed')

end UriRelation

/-! ## Both directions -/

namespace Dependencies

open UriRelation

/-- Both directions hold the same pairs. -/
def Mirrored (d : Dependencies) : Prop :=
  ∀ u v, v ∈ d.forward.targets u ↔ u ∈ d.backward.targets v

theorem mirrored_empty : empty.Mirrored := by
  intro u v
  rw [mem_targets, mem_targets, empty, Maps.get?_empty, Maps.get?_empty]
  simp

theorem mem_forward_forget : x ∈ (d.forget u).forward.targets w ↔ u ≠ w ∧ x ∈ d.forward.targets w :=
  mem_targets_erase

theorem Mirrored.forget (h : d.Mirrored) (u : Uri) : (d.forget u).Mirrored := by
  intro w x
  rw [mem_forward_forget]
  unfold Dependencies.forget
  rw [mem_targets_foldl_unrelate, ← h w x]
  constructor
  · rintro ⟨hne, hx⟩
    exact ⟨hx, fun ⟨_, heq⟩ => hne heq⟩
  · rintro ⟨hx, hnot⟩
    refine ⟨fun heq => hnot ⟨heq ▸ hx, heq⟩, hx⟩

theorem Mirrored.add (h : d.Mirrored) (u v : Uri) : (d.add u v).Mirrored := by
  intro w x
  unfold Dependencies.add
  rw [mem_targets_relate, mem_targets_relate, h w x, and_comm]

theorem mem_forward_foldl_add (files : List Uri) (d : Dependencies) :
    x ∈ (files.foldl (fun d v => d.add u v) d).forward.targets w ↔
      x ∈ d.forward.targets w ∨ (u = w ∧ x ∈ files) := by
  induction files generalizing d with
  | nil => simp
  | cons v files ih =>
    rw [List.foldl_cons, ih, List.mem_cons]
    unfold Dependencies.add
    rw [mem_targets_relate, or_assoc, ← and_or_left, eq_comm (a := x)]

theorem Mirrored.foldl_add (h : d.Mirrored) (u : Uri) (files : List Uri) :
    (files.foldl (fun d v => d.add u v) d).Mirrored := by
  induction files generalizing d with
  | nil => exact h
  | cons v files ih => exact ih (h.add u v)

theorem Mirrored.replace (h : d.Mirrored) (u : Uri) (files : List Uri) : (d.replace u files).Mirrored :=
  (h.forget u).foldl_add u _

/-- A document depends on what was last noted of it, without itself. -/
theorem mem_forward_replace {files : List Uri} :
    x ∈ (d.replace u files).forward.targets w ↔
      if u = w then x ∈ files ∧ x ≠ u else x ∈ d.forward.targets w := by
  unfold replace
  rw [mem_forward_foldl_add, mem_forward_forget]
  by_cases hu : u = w <;> simp [hu]

/-- **The documents affected by a change are the others that depend on the changed one, directly or through others.** -/
theorem mem_affected : v ∈ d.affected u ↔ v ≠ u ∧ TransGen d.backward.Leads u v := by
  have hcomplete : d.backward.Completes (d.backward.targets u) ∅
      (d.backward.reach d.backward.pairCount (d.backward.targets u) ∅) := by
    refine reach_completes _ _ _ (fun x hx => mem_related hx) (fun x hx => absurd hx Std.TreeSet.not_mem_emptyc) ?_
      fun w hw => absurd hw Std.TreeSet.not_mem_emptyc
    rw [length_related]
    exact Nat.le_add_right _ _
  unfold affected
  rw [List.mem_filter, Std.TreeSet.mem_toList, bne_iff_ne, and_comm, hcomplete.mem_iff, TransGen.head'_iff]
  exact Iff.rfl

/-- The same, told by what documents depend on. -/
theorem Mirrored.mem_affected_iff (h : d.Mirrored) : v ∈ d.affected u ↔ v ≠ u ∧ TransGen d.forward.Leads v u := by
  have hswap : d.backward.Leads = Function.swap d.forward.Leads := by
    funext a b
    exact propext (h b a).symm
  rw [Dependencies.mem_affected, hswap, transGen_swap]

/-- A document that depends on another one directly is affected. -/
theorem Mirrored.mem_affected (h : d.Mirrored) (hu : u ∈ d.forward.targets v) (hne : v ≠ u) : v ∈ d.affected u :=
  Dependencies.mem_affected.2 ⟨hne, .single ((h v u).1 hu)⟩

end Dependencies

end LgLang.Workspace
