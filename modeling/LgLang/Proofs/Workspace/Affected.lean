import LgLang.Proofs.Workspace.Dependencies

/-!
# Dependencies after any operations

Whatever is noted and forgotten, both directions of the dependencies hold the same pairs, and no document has an entry
with nothing in it (`Kept`); the pairs are those that the operations ask for (`leads_operated`). The search for the
documents that a change affects is bounded by the number of pairs. That the bound never cuts it short is shown against
visits without one (`Visits`): each document leads on to those that depend on it, in any order, and is passed over when
it has been seen. These visits always come to an end, and they find what the search finds (`operated_affected`).
-/

namespace LgLang.Workspace

open Relation (ReflTransGen TransGen)

variable {r : UriRelation} {d : Dependencies} {u v w x : Uri}

/-! ## Entries -/

namespace UriRelation

/-- Every entry relates its document to another one. -/
def Filled (r : UriRelation) : Prop :=
  ∀ u vs, Std.TreeMap.get? r u = some vs → vs.isEmpty = false

theorem filled_empty : Filled ∅ := by
  intro u vs h
  rw [Maps.get?_empty] at h
  cases h

theorem Filled.insert (h : r.Filled) (u : Uri) {vs : Std.TreeSet Uri} (hvs : vs.isEmpty = false) :
    Filled (Std.TreeMap.insert r u vs) := by
  intro w ws hw
  rw [Maps.get?_insert] at hw
  by_cases hu : u = w
  · rw [if_pos hu] at hw
    exact Option.some.inj hw ▸ hvs
  · rw [if_neg hu] at hw
    exact h w ws hw

theorem Filled.erase (h : r.Filled) (u : Uri) : Filled (Std.TreeMap.erase r u) := by
  intro w ws hw
  rw [Maps.get?_erase] at hw
  by_cases hu : u = w
  · rw [if_pos hu] at hw
    cases hw
  · rw [if_neg hu] at hw
    exact h w ws hw

theorem Filled.relate (h : r.Filled) (u v : Uri) : (r.relate u v).Filled :=
  h.insert u Std.TreeSet.isEmpty_insert

theorem Filled.unrelate (h : r.Filled) (u v : Uri) : (r.unrelate u v).Filled := by
  unfold UriRelation.unrelate
  cases Std.TreeMap.get? r u with
  | none => exact h
  | some vs =>
    show Filled (if (vs.erase v).isEmpty then Std.TreeMap.erase r u else Std.TreeMap.insert r u (vs.erase v))
    by_cases hempty : (vs.erase v).isEmpty
    · rw [if_pos hempty]
      exact h.erase u
    · rw [if_neg hempty]
      exact h.insert u (Bool.eq_false_iff.2 hempty)

/-! ## Visits -/

/-- One document after another is visited, unless it has been seen. A visit goes on to everything that follows the
document before it comes to the rest of the list. -/
inductive Visits (next : Uri → List Uri) : List Uri → Std.TreeSet Uri → Std.TreeSet Uri → Prop where
  | done (seen : Std.TreeSet Uri) : Visits next [] seen seen
  | skip {seen found : Std.TreeSet Uri} {u : Uri} {todo : List Uri} (hseen : u ∈ seen)
      (hrest : Visits next todo seen found) : Visits next (u :: todo) seen found
  | enter {seen mid found : Std.TreeSet Uri} {u : Uri} {todo : List Uri} (hnew : u ∉ seen)
      (hinner : Visits next (next u) (seen.insert u) mid) (hrest : Visits next todo mid found) :
      Visits next (u :: todo) seen found

section Visits

variable {next : Uri → List Uri} {todo nodes : List Uri} {seen found : Std.TreeSet Uri}

theorem Visits.mono (h : Visits next todo seen found) : ∀ x ∈ seen, x ∈ found := by
  induction h with
  | done _ => exact fun _ hx => hx
  | skip _ _ ih => exact ih
  | enter _ _ _ ihinner ihrest => exact fun x hx => ihrest x (ihinner x (mem_insert_iff.2 (Or.inr hx)))

theorem Visits.all (h : Visits next todo seen found) : ∀ x ∈ todo, x ∈ found := by
  induction h with
  | done _ => exact fun _ hx => absurd hx List.not_mem_nil
  | skip hseen hrest ih =>
    intro x hx
    rcases List.mem_cons.1 hx with rfl | hx
    · exact hrest.mono x hseen
    · exact ih x hx
  | enter _ hinner hrest _ ihrest =>
    intro x hx
    rcases List.mem_cons.1 hx with rfl | hx
    · exact hrest.mono x (hinner.mono x (mem_insert_iff.2 (Or.inl rfl)))
    · exact ihrest x hx

/-- What follows a document that the visits have come to is found as well. -/
theorem Visits.closed (h : Visits next todo seen found) : ∀ w ∈ found, w ∈ seen ∨ ∀ x ∈ next w, x ∈ found := by
  induction h with
  | done _ => exact fun _ hw => Or.inl hw
  | skip _ _ ih => exact ih
  | enter _ hinner hrest ihinner ihrest =>
    intro w hw
    rcases ihrest w hw with hmid | hnext
    · rcases ihinner w hmid with hseen | hnext
      · rcases mem_insert_iff.1 hseen with rfl | hold
        · exact Or.inr fun x hx => hrest.mono x (hinner.all x hx)
        · exact Or.inl hold
      · exact Or.inr fun x hx => hrest.mono x (hnext x hx)
    · exact Or.inr hnext

/-- Whatever is found was seen before, or a document of the list leads there. -/
theorem Visits.reached (h : Visits next todo seen found) :
    ∀ x ∈ found, x ∈ seen ∨ ∃ u ∈ todo, ReflTransGen (fun a b => b ∈ next a) u x := by
  induction h with
  | done _ => exact fun _ hx => Or.inl hx
  | skip _ _ ih =>
    intro x hx
    exact (ih x hx).imp_right fun ⟨w, hw, hpath⟩ => ⟨w, List.mem_cons_of_mem _ hw, hpath⟩
  | @enter _ _ _ u _ _ _ _ ihinner ihrest =>
    intro x hx
    rcases ihrest x hx with hmid | ⟨w, hw, hpath⟩
    · rcases ihinner x hmid with hseen | ⟨w, hw, hpath⟩
      · rcases mem_insert_iff.1 hseen with rfl | hold
        · exact Or.inr ⟨u, List.mem_cons_self, .refl⟩
        · exact Or.inl hold
      · exact Or.inr ⟨u, List.mem_cons_self, .head hw hpath⟩
    · exact Or.inr ⟨w, List.mem_cons_of_mem _ hw, hpath⟩

/-- Visits that follow a relation, in whatever order, complete what they have to do. -/
theorem Visits.completes (h : Visits next todo ∅ found) (hnext : ∀ w, (next w).Perm (r.targets w)) :
    r.Completes todo ∅ found where
  keeps x hx := hx.elim (h.mono x) (h.all x)
  closed w hw x hx := by
    have hfollows := (h.closed w hw).resolve_left Std.TreeSet.not_mem_emptyc
    exact hfollows x ((hnext w).mem_iff.2 hx)
  reached x hx := by
    have hleads : (fun a b => b ∈ next a) = r.Leads := by
      funext a b
      exact propext (hnext a).mem_iff
    have hreached := h.reached x hx
    rwa [hleads] at hreached

theorem size_le_of_subset {s t : Std.TreeSet Uri} (h : ∀ x ∈ s, x ∈ t) : s.size ≤ t.size := by
  have hsub : s.toList ⊆ t.toList := fun x hx => Std.TreeSet.mem_toList.2 (h x (Std.TreeSet.mem_toList.1 hx))
  have hlength := ((nodup_toList s).subperm hsub).length_le
  rwa [Std.TreeSet.length_toList, Std.TreeSet.length_toList] at hlength

theorem Visits.within (h : Visits next todo seen found) (hnodes : ∀ w, ∀ x ∈ next w, x ∈ nodes)
    (htodo : ∀ x ∈ todo, x ∈ nodes) (hseen : ∀ x ∈ seen, x ∈ nodes) : ∀ x ∈ found, x ∈ nodes := by
  intro x hx
  rcases h.reached x hx with hold | ⟨u, hu, hpath⟩
  · exact hseen x hold
  · rcases ReflTransGen.cases_tail hpath with rfl | ⟨w, _, hstep⟩
    · exact htodo _ hu
    · exact hnodes w x hstep

/-- **Visits among finitely many documents come to an end.** -/
theorem exists_visits (hnodes : ∀ w, ∀ x ∈ next w, x ∈ nodes) (room : Nat) (todo : List Uri) (seen : Std.TreeSet Uri)
    (htodo : ∀ x ∈ todo, x ∈ nodes) (hseen : ∀ x ∈ seen, x ∈ nodes) (hroom : nodes.length ≤ room + seen.size) :
    ∃ found, Visits next todo seen found := by
  -- Entering a document leaves one less to enter, for what follows it and for the rest of the list alike.
  induction room generalizing todo seen with
  | zero =>
    have hall := subset_of_length_le hseen (Nat.zero_add seen.size ▸ hroom)
    induction todo with
    | nil => exact ⟨seen, .done seen⟩
    | cons u todo ih =>
      obtain ⟨found, hrest⟩ := ih fun x hx => htodo x (List.mem_cons_of_mem _ hx)
      exact ⟨found, .skip (hall u (htodo u List.mem_cons_self)) hrest⟩
  | succ room ih =>
    induction todo with
    | nil => exact ⟨seen, .done seen⟩
    | cons u todo ihtodo =>
      have hlater : ∀ x ∈ todo, x ∈ nodes := fun x hx => htodo x (List.mem_cons_of_mem _ hx)
      by_cases hu : u ∈ seen
      · obtain ⟨found, hrest⟩ := ihtodo hlater
        exact ⟨found, .skip hu hrest⟩
      · have hinserted : ∀ x ∈ seen.insert u, x ∈ nodes := by
          intro x hx
          rcases mem_insert_iff.1 hx with rfl | hold
          · exact htodo _ List.mem_cons_self
          · exact hseen x hold
        have hsize : (seen.insert u).size = seen.size + 1 := by
          rw [Std.TreeSet.size_insert, if_neg (mt Std.TreeSet.contains_iff_mem.1 hu)]
        obtain ⟨mid, hinner⟩ := ih (next u) (seen.insert u) (hnodes u) hinserted (by omega)
        have hmid := size_le_of_subset hinner.mono
        obtain ⟨found, hrest⟩ := ih todo mid hlater (hinner.within hnodes (hnodes u) hinserted) (by omega)
        exact ⟨found, .enter hu hinner hrest⟩

end Visits

end UriRelation

/-! ## Operations -/

namespace Dependencies

open UriRelation

/-- What can be done to dependencies. -/
inductive Operation where
  | add (u v : Uri)
  | replace (u : Uri) (files : List Uri)
  | forget (u : Uri)
  | clear

def operate (d : Dependencies) : Operation → Dependencies
  | .add u v => d.add u v
  | .replace u files => d.replace u files
  | .forget u => d.forget u
  | .clear => .empty

/-- The dependencies behind several operations. -/
def operated (os : List Operation) : Dependencies :=
  os.foldl operate .empty

/-- What documents depend on behind an operation, told by what they depended on before. -/
def Operation.Relates (before : Uri → Uri → Prop) : Operation → Uri → Uri → Prop
  | .add u v => fun a b => before a b ∨ (u = a ∧ v = b)
  | .replace u files => fun a b => if u = a then b ∈ files ∧ b ≠ u else before a b
  | .forget u => fun a b => u ≠ a ∧ before a b
  | .clear => fun _ _ => False

/-- What documents depend on behind several operations. -/
def relatedBehind (os : List Operation) : Uri → Uri → Prop :=
  os.foldl Operation.Relates fun _ _ => False

theorem leads_empty : empty.forward.Leads = fun _ _ => False := by
  funext u v
  refine eq_false fun h => ?_
  have hv := mem_targets.1 h
  rw [empty, Maps.get?_empty] at hv
  exact Std.TreeSet.not_mem_emptyc hv

theorem leads_operate (d : Dependencies) (o : Operation) :
    (d.operate o).forward.Leads = o.Relates d.forward.Leads := by
  cases o with
  | add u v => exact funext fun a => funext fun b => propext mem_targets_relate
  | replace u files => exact funext fun a => funext fun b => propext mem_forward_replace
  | forget u => exact funext fun a => funext fun b => propext mem_forward_forget
  | clear => exact leads_empty

/-- The pairs that are held are those that the operations ask for. -/
theorem leads_operated (os : List Operation) : (operated os).forward.Leads = relatedBehind os := by
  unfold operated relatedBehind
  rw [← leads_empty]
  exact (List.foldl_hom (fun d : Dependencies => d.forward.Leads) fun d o => (leads_operate d o).symm).symm

/-- What every operation keeps. -/
structure Kept (d : Dependencies) : Prop where
  mirrored : d.Mirrored
  forward : d.forward.Filled
  backward : d.backward.Filled

theorem kept_empty : empty.Kept :=
  ⟨mirrored_empty, filled_empty, filled_empty⟩

theorem Kept.add (h : d.Kept) (u v : Uri) : (d.add u v).Kept :=
  ⟨h.mirrored.add u v, h.forward.relate u v, h.backward.relate v u⟩

theorem Kept.forget (h : d.Kept) (u : Uri) : (d.forget u).Kept where
  mirrored := h.mirrored.forget u
  forward := h.forward.erase u
  backward := List.foldlRecOn _ _ h.backward fun _ hr v _ => hr.unrelate v u

theorem Kept.replace (h : d.Kept) (u : Uri) (files : List Uri) : (d.replace u files).Kept :=
  List.foldlRecOn (motive := Kept) _ _ (h.forget u) fun _ hd v _ => hd.add u v

theorem Kept.operate (h : d.Kept) (o : Operation) : (d.operate o).Kept := by
  cases o with
  | add u v => exact h.add u v
  | replace u files => exact h.replace u files
  | forget u => exact h.forget u
  | clear => exact kept_empty

theorem kept_operated (os : List Operation) : (operated os).Kept :=
  List.foldlRecOn (motive := Kept) os operate kept_empty fun _ hd o _ => hd.operate o

/-- Visits of what depends on a document come to an end, and they find what the search finds. -/
theorem exists_visits_affected (d : Dependencies) (u : Uri) {next : Uri → List Uri}
    (hnext : ∀ w, (next w).Perm (d.backward.targets w)) :
    ∃ found, Visits next (next u) ∅ found ∧ ∀ v, v ∈ d.affected u ↔ v ≠ u ∧ v ∈ found := by
  have hnodes : ∀ w, ∀ x ∈ next w, x ∈ d.backward.related := fun w x hx => mem_related ((hnext w).mem_iff.1 hx)
  obtain ⟨found, hvisits⟩ := exists_visits hnodes d.backward.related.length (next u) ∅ (hnodes u)
    (fun x hx => absurd hx Std.TreeSet.not_mem_emptyc) (Nat.le_add_right _ _)
  refine ⟨found, hvisits, fun v => ?_⟩
  rw [mem_affected, (hvisits.completes hnext).mem_iff, TransGen.head'_iff]
  refine and_congr_right fun _ => exists_congr fun w => ?_
  rw [(hnext u).mem_iff]
  exact Iff.rfl

/-- **Whatever is done to dependencies, both directions are mirror images without empty entries, and the documents
affected by a change are the others that depend on the changed one.** The pairs are those that the operations ask for.
In whatever order the search goes through what depends on a document, it comes to an end and finds these documents. -/
theorem operated_affected (os : List Operation) :
    (∀ u v, v ∈ (operated os).forward.targets u ↔ relatedBehind os u v) ∧
      (∀ u v, v ∈ (operated os).forward.targets u ↔ u ∈ (operated os).backward.targets v) ∧
      (operated os).forward.Filled ∧ (operated os).backward.Filled ∧
      ∀ u, (∀ v, v ∈ (operated os).affected u ↔ v ≠ u ∧ TransGen (operated os).forward.Leads v u) ∧
        ∀ next : Uri → List Uri, (∀ w, (next w).Perm ((operated os).backward.targets w)) →
          ∃ found, Visits next (next u) ∅ found ∧ ∀ v, v ∈ (operated os).affected u ↔ v ≠ u ∧ v ∈ found := by
  have h := kept_operated os
  have hleads : ∀ u v, v ∈ (operated os).forward.targets u ↔ relatedBehind os u v :=
    fun u v => iff_of_eq (congrFun (congrFun (leads_operated os) u) v)
  refine ⟨hleads, h.mirrored, h.forward, h.backward, fun u => ⟨fun v => h.mirrored.mem_affected_iff, ?_⟩⟩
  exact fun next hnext => exists_visits_affected _ u hnext

/-- Two documents that import one another, and a third one that has imported both. -/
def inCircle : List Operation :=
  [.replace ⟨"file:///a.lg"⟩ [⟨"file:///b.lg"⟩], .replace ⟨"file:///b.lg"⟩ [⟨"file:///a.lg"⟩],
    .replace ⟨"file:///main.lg"⟩ [⟨"file:///a.lg"⟩, ⟨"file:///b.lg"⟩],
    .replace ⟨"file:///main.lg"⟩ [⟨"file:///b.lg"⟩]]

/-- The dependents of each document are gone through from the last one to the first one. -/
theorem operated_affected_inCircle :
    (operated inCircle).affected ⟨"file:///a.lg"⟩ = [⟨"file:///b.lg"⟩, ⟨"file:///main.lg"⟩] ∧
      (∀ w, ((operated inCircle).backward.targets w).reverse.Perm ((operated inCircle).backward.targets w)) ∧
      ∃ found,
        Visits (fun w => ((operated inCircle).backward.targets w).reverse)
          ((operated inCircle).backward.targets ⟨"file:///a.lg"⟩).reverse ∅ found ∧
        ∀ v, v ∈ (operated inCircle).affected ⟨"file:///a.lg"⟩ ↔ v ≠ ⟨"file:///a.lg"⟩ ∧ v ∈ found := by
  have haffected : (operated inCircle).affected ⟨"file:///a.lg"⟩ = [⟨"file:///b.lg"⟩, ⟨"file:///main.lg"⟩] := by
    decide +kernel
  have hreverse : ∀ w, ((operated inCircle).backward.targets w).reverse.Perm ((operated inCircle).backward.targets w) :=
    fun w => List.reverse_perm _
  obtain ⟨-, -, -, -, hsearch⟩ := operated_affected inCircle
  exact ⟨haffected, hreverse, (hsearch ⟨"file:///a.lg"⟩).2 _ hreverse⟩

end Dependencies

end LgLang.Workspace
