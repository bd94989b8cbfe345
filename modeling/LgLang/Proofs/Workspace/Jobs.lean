import LgLang.Proofs.Maps
import LgLang.Workspace.Jobs
import Mathlib.Data.List.Nodup

/-!
# Live jobs

A job is live while it is neither finished nor cancelled. `Sound` says that jobs have different numbers and that the
pending entries are exactly the live jobs, so that a document has at most one. Every operation keeps this, and what it
does is said by the jobs that are live behind it.
-/

namespace LgLang.Workspace.Jobs

variable {js : Jobs} {j : Job} {u : Uri} {n : Nat}

/-- A job is neither finished nor cancelled. -/
def Live (js : Jobs) (j : Job) : Prop :=
  j ∈ js.unfinished ∧ j.cancelled = false

/-- What holds of the jobs at all times. -/
structure Sound (js : Jobs) : Prop where
  numbers : ∀ j ∈ js.unfinished, j.sequence ≤ js.count
  distinct : (js.unfinished.map (·.sequence)).Nodup
  pending : ∀ u n, js.pending.get? u = some n ↔ ∃ j, js.Live j ∧ j.uri = u ∧ j.sequence = n

theorem sound_empty : empty.Sound where
  numbers _ h := absurd h List.not_mem_nil
  distinct := List.nodup_nil
  pending u n := by
    rw [empty, Maps.get?_empty]
    constructor
    · intro h
      cases h
    · rintro ⟨j, hj, _⟩
      exact absurd hj.1 List.not_mem_nil

theorem Sound.eq_of_sequence (h : js.Sound) {i j : Job} (hi : i ∈ js.unfinished) (hj : j ∈ js.unfinished)
    (hsequence : i.sequence = j.sequence) : i = j :=
  List.inj_on_of_nodup_map h.distinct hi hj hsequence

/-- A document has at most one live job. -/
theorem Sound.live_unique (h : js.Sound) {i j : Job} (hi : js.Live i) (hj : js.Live j) (huri : i.uri = j.uri) :
    i = j := by
  have hpending := (h.pending i.uri i.sequence).2 ⟨i, hi, rfl, rfl⟩
  have hpending' := (h.pending i.uri j.sequence).2 ⟨j, hj, huri.symm, rfl⟩
  exact h.eq_of_sequence hi.1 hj.1 (Option.some.inj (hpending.symm.trans hpending'))

/-- Where all live jobs of a document stay, so does its entry. -/
theorem Sound.pending_iff (h : js.Sound) {P : Job → Prop} (hstay : ∀ j, js.Live j → j.uri = u → P j) :
    js.pending.get? u = some n ↔ ∃ j, (js.Live j ∧ P j) ∧ j.uri = u ∧ j.sequence = n := by
  rw [h.pending]
  constructor
  · rintro ⟨j, hj, huri, hsequence⟩
    exact ⟨j, ⟨hj, hstay j hj huri⟩, huri, hsequence⟩
  · rintro ⟨j, ⟨hj, _⟩, huri, hsequence⟩
    exact ⟨j, hj, huri, hsequence⟩

theorem Sound.find?_eq_some (h : js.Sound) : js.find? n = some j ↔ j ∈ js.unfinished ∧ j.sequence = n := by
  unfold find?
  constructor
  · intro hfind
    exact ⟨List.mem_of_find?_eq_some hfind, by simpa using List.find?_some hfind⟩
  · rintro ⟨hj, rfl⟩
    have hsome : (js.unfinished.find? (·.sequence == j.sequence)).isSome :=
      List.find?_isSome.2 ⟨j, hj, by simp⟩
    obtain ⟨i, hfind⟩ := Option.isSome_iff_exists.1 hsome
    have hsequence : i.sequence = j.sequence := by simpa using List.find?_some hfind
    rw [hfind, h.eq_of_sequence (List.mem_of_find?_eq_some hfind) hj hsequence]

theorem Sound.eq_of_find? (h : js.Sound) {i : Job} (hfind : js.find? n = some j) (hi : i ∈ js.unfinished)
    (hn : i.sequence = n) : i = j :=
  Option.some.inj ((h.find?_eq_some.2 ⟨hi, hn⟩).symm.trans hfind)

theorem Sound.ne_of_find?_none (h : js.Sound) {i : Job} (hfind : js.find? n = none) (hi : i ∈ js.unfinished) :
    i.sequence ≠ n := by
  intro hn
  rw [h.find?_eq_some.2 ⟨hi, hn⟩] at hfind
  cases hfind

/-! ## Changing a job -/

theorem mem_modify {f : Job → Job} :
    j ∈ (js.modify n f).unfinished ↔ ∃ i ∈ js.unfinished, (if i.sequence = n then f i else i) = j :=
  List.mem_map

theorem map_sequence_modify {f : Job → Job} (hf : ∀ i, (f i).sequence = i.sequence) :
    (js.modify n f).unfinished.map (·.sequence) = js.unfinished.map (·.sequence) := by
  unfold modify
  rw [List.map_map]
  refine List.map_congr_left fun i _ => ?_
  show (if i.sequence = n then f i else i).sequence = i.sequence
  split
  · exact hf i
  · rfl

/-- The live jobs behind a new stage of one of them. -/
theorem live_setStage {stage : JobStage} :
    (js.setStage n stage).Live j ↔ ∃ i, js.Live i ∧ (if i.sequence = n then { i with stage } else i) = j := by
  unfold Live setStage
  rw [mem_modify]
  constructor
  · rintro ⟨⟨i, hi, rfl⟩, hlive⟩
    refine ⟨i, ⟨hi, ?_⟩, rfl⟩
    split at hlive <;> exact hlive
  · rintro ⟨i, ⟨hi, hlive⟩, rfl⟩
    refine ⟨⟨i, hi, rfl⟩, ?_⟩
    split <;> exact hlive

theorem Sound.setStage (h : js.Sound) (n : Nat) (stage : JobStage) : (js.setStage n stage).Sound where
  numbers := by
    intro j hj
    obtain ⟨i, hi, rfl⟩ := mem_modify.1 hj
    have hcount := h.numbers i hi
    split <;> exact hcount
  distinct := by
    unfold Jobs.setStage
    rw [map_sequence_modify]
    · exact h.distinct
    · exact fun _ => rfl
  pending u m := by
    rw [show (js.setStage n stage).pending = js.pending from rfl, h.pending]
    constructor
    · rintro ⟨i, hi, rfl, rfl⟩
      refine ⟨_, live_setStage.2 ⟨i, hi, rfl⟩, ?_⟩
      split <;> exact ⟨rfl, rfl⟩
    · rintro ⟨j, hj, rfl, rfl⟩
      obtain ⟨i, hi, rfl⟩ := live_setStage.1 hj
      refine ⟨i, hi, ?_⟩
      split <;> exact ⟨rfl, rfl⟩

/-! ## Cancelling -/

/-- Cancelling takes the live job of a document away. -/
theorem Sound.live_cancel (h : js.Sound) : (js.cancel u).Live j ↔ js.Live j ∧ j.uri ≠ u := by
  unfold Jobs.cancel
  cases hpending : js.pending.get? u with
  | none =>
    refine ⟨fun hj => ⟨hj, ?_⟩, fun hj => hj.1⟩
    rintro rfl
    have hsome := (h.pending j.uri j.sequence).2 ⟨j, hj, rfl, rfl⟩
    rw [hpending] at hsome
    cases hsome
  | some n =>
    obtain ⟨i, hi, rfl, rfl⟩ := (h.pending u n).1 hpending
    unfold Live cancelNumber
    rw [mem_modify]
    constructor
    · rintro ⟨⟨k, hk, rfl⟩, hlive⟩
      by_cases hsequence : k.sequence = i.sequence
      · rw [if_pos hsequence] at hlive
        cases hlive
      · rw [if_neg hsequence] at hlive ⊢
        refine ⟨⟨hk, hlive⟩, fun huri => hsequence ?_⟩
        rw [h.live_unique ⟨hk, hlive⟩ hi huri]
    · rintro ⟨⟨hj, hlive⟩, huri⟩
      have hsequence : j.sequence ≠ i.sequence := fun heq => huri (congrArg Job.uri (h.eq_of_sequence hj hi.1 heq))
      exact ⟨⟨j, hj, if_neg hsequence⟩, hlive⟩

theorem count_cancel : (js.cancel u).count = js.count := by
  unfold cancel
  split <;> rfl

theorem map_sequence_cancel : (js.cancel u).unfinished.map (·.sequence) = js.unfinished.map (·.sequence) := by
  unfold cancel
  split
  · exact map_sequence_modify fun _ => rfl
  · rfl

theorem get?_pending_cancel (v : Uri) :
    (js.cancel u).pending.get? v = if u = v then none else js.pending.get? v := by
  unfold cancel
  cases hpending : js.pending.get? u with
  | none =>
    by_cases hu : u = v
    · rw [if_pos hu, ← hu]
      exact hpending
    · rw [if_neg hu]
  | some n => exact Maps.get?_erase _ _ _

/-- Every unfinished job is unfinished behind a cancellation, and there are no others. -/
theorem mem_unfinished_cancel (hj : j ∈ (js.cancel u).unfinished) :
    ∃ i ∈ js.unfinished, j = i ∨ j = { i with cancelled := true } := by
  unfold cancel at hj
  split at hj
  · obtain ⟨i, hi, rfl⟩ := mem_modify.1 hj
    refine ⟨i, hi, ?_⟩
    split
    · exact Or.inr rfl
    · exact Or.inl rfl
  · exact ⟨j, hj, Or.inl rfl⟩

theorem Sound.cancel (h : js.Sound) (u : Uri) : (js.cancel u).Sound where
  numbers := by
    intro j hj
    rw [count_cancel]
    obtain ⟨i, hi, hcases⟩ := mem_unfinished_cancel hj
    have hsequence : j.sequence = i.sequence := by rcases hcases with rfl | rfl <;> rfl
    rw [hsequence]
    exact h.numbers i hi
  distinct := by
    rw [map_sequence_cancel]
    exact h.distinct
  pending v n := by
    simp only [h.live_cancel]
    rw [get?_pending_cancel]
    by_cases hu : u = v
    · rw [if_pos hu]
      refine ⟨fun hnone => absurd hnone.symm (Option.some_ne_none _), ?_⟩
      rintro ⟨j, ⟨_, hne⟩, huri, _⟩
      exact absurd (huri.trans hu.symm) hne
    · rw [if_neg hu]
      exact h.pending_iff fun j _ huri => huri ▸ Ne.symm hu

theorem mem_unfinished_cancelAll (hj : j ∈ js.cancelAll.unfinished) :
    ∃ i ∈ js.unfinished, j =
      if js.pending.get? i.uri = some i.sequence then { i with cancelled := true } else i := by
  obtain ⟨i, hi, rfl⟩ := List.mem_map.1 hj
  exact ⟨i, hi, rfl⟩

/-- Cancelling everything leaves no live job. -/
theorem Sound.not_live_cancelAll (h : js.Sound) (j : Job) : ¬ js.cancelAll.Live j := by
  rintro ⟨hj, hlive⟩
  obtain ⟨i, hi, rfl⟩ := mem_unfinished_cancelAll hj
  by_cases hpending : js.pending.get? i.uri = some i.sequence
  · rw [if_pos hpending] at hlive
    cases hlive
  · rw [if_neg hpending] at hlive
    exact hpending ((h.pending _ _).2 ⟨i, ⟨hi, hlive⟩, rfl, rfl⟩)

theorem Sound.cancelAll (h : js.Sound) : js.cancelAll.Sound where
  numbers := by
    intro j hj
    obtain ⟨i, hi, rfl⟩ := mem_unfinished_cancelAll hj
    have hcount := h.numbers i hi
    split <;> exact hcount
  distinct := by
    have hsequence : js.cancelAll.unfinished.map (·.sequence) = js.unfinished.map (·.sequence) := by
      unfold Jobs.cancelAll
      rw [List.map_map]
      refine List.map_congr_left fun i _ => ?_
      show (if js.pending.get? i.uri = some i.sequence then { i with cancelled := true } else i).sequence = i.sequence
      split <;> rfl
    rw [hsequence]
    exact h.distinct
  pending u n := by
    show (∅ : Std.TreeMap Uri Nat).get? u = some n ↔ _
    rw [Maps.get?_empty]
    constructor
    · intro hn
      cases hn
    · rintro ⟨j, hj, _⟩
      exact absurd hj (h.not_live_cancelAll j)

/-! ## Asking for jobs and finishing them -/

/-- A job that is asked for takes the place of the one before. -/
theorem Sound.live_schedule (h : js.Sound) {version : Int} {delay : Nat} :
    (js.schedule u version delay).Live j ↔
      j = ⟨u, version, js.count + 1, delay, false, .waiting⟩ ∨ (js.Live j ∧ j.uri ≠ u) := by
  rw [← h.live_cancel]
  unfold Live schedule
  rw [List.mem_append, List.mem_singleton]
  constructor
  · rintro ⟨hj | rfl, hlive⟩
    · exact Or.inr ⟨hj, hlive⟩
    · exact Or.inl rfl
  · rintro (rfl | ⟨hj, hlive⟩)
    · exact ⟨Or.inr rfl, rfl⟩
    · exact ⟨Or.inl hj, hlive⟩

theorem mem_unfinished_schedule {version : Int} {delay : Nat} (hj : j ∈ (js.schedule u version delay).unfinished) :
    j = ⟨u, version, js.count + 1, delay, false, .waiting⟩ ∨
      ∃ i ∈ js.unfinished, j = i ∨ j = { i with cancelled := true } := by
  rcases List.mem_append.1 hj with hold | hnew
  · exact Or.inr (mem_unfinished_cancel hold)
  · exact Or.inl (List.mem_singleton.1 hnew)

theorem Sound.schedule (h : js.Sound) (u : Uri) (version : Int) (delay : Nat) :
    (js.schedule u version delay).Sound where
  numbers := by
    intro j hj
    show j.sequence ≤ js.count + 1
    rcases List.mem_append.1 hj with hold | hnew
    · have hcount := (h.cancel u).numbers j hold
      rw [count_cancel] at hcount
      exact Nat.le_succ_of_le hcount
    · exact Nat.le_of_eq (congrArg Job.sequence (List.mem_singleton.1 hnew))
  distinct := by
    show (List.map (fun j : Job => j.sequence) ((js.cancel u).unfinished ++ [_])).Nodup
    rw [List.map_append, map_sequence_cancel]
    refine List.nodup_append.2 ⟨h.distinct, List.nodup_singleton _, ?_⟩
    intro a ha b hb heq
    obtain ⟨i, hi, rfl⟩ := List.mem_map.1 ha
    have hcount := h.numbers i hi
    rw [heq, List.mem_singleton.1 hb] at hcount
    exact absurd hcount (Nat.not_succ_le_self _)
  pending v n := by
    simp only [h.live_schedule]
    show (((js.cancel u).pending.insert u (js.count + 1)).get? v = some n) ↔ _
    rw [Maps.get?_insert, get?_pending_cancel]
    by_cases hu : u = v
    · subst hu
      rw [if_pos rfl]
      constructor
      · intro hn
        exact ⟨_, Or.inl rfl, rfl, Option.some.inj hn⟩
      · rintro ⟨j, rfl | ⟨_, hne⟩, huri, rfl⟩
        · rfl
        · exact absurd huri hne
    · rw [if_neg hu, if_neg hu, h.pending]
      constructor
      · rintro ⟨j, hj, rfl, rfl⟩
        exact ⟨j, Or.inr ⟨hj, Ne.symm hu⟩, rfl, rfl⟩
      · rintro ⟨j, rfl | ⟨hj, _⟩, huri, rfl⟩
        · exact absurd huri hu
        · exact ⟨j, hj, huri, rfl⟩

/-- Finishing takes the job with the given number away, live or not. -/
theorem Sound.mem_finish (h : js.Sound) : j ∈ (js.finish n).unfinished ↔ j ∈ js.unfinished ∧ j.sequence ≠ n := by
  unfold finish
  cases hfind : js.find? n with
  | none =>
    exact ⟨fun hj => ⟨hj, h.ne_of_find?_none hfind hj⟩, fun hj => hj.1⟩
  | some i => simp [List.mem_filter]

theorem Sound.live_finish (h : js.Sound) : (js.finish n).Live j ↔ js.Live j ∧ j.sequence ≠ n := by
  unfold Live
  rw [h.mem_finish]
  exact and_right_comm

/-- When a live job ends, the live jobs of other documents are left. -/
theorem Sound.live_finish_of_live (h : js.Sound) {i : Job} (hj : js.Live j) :
    (js.finish j.sequence).Live i ↔ js.Live i ∧ i.uri ≠ j.uri := by
  rw [h.live_finish]
  refine and_congr_right fun hi => not_congr ⟨fun hsequence => ?_, fun huri => ?_⟩
  · rw [h.eq_of_sequence hi.1 hj.1 hsequence]
  · rw [h.live_unique hi hj huri]

theorem count_finish : (js.finish n).count = js.count := by
  unfold finish
  split <;> rfl

theorem Sound.finish (h : js.Sound) (n : Nat) : (js.finish n).Sound where
  numbers := by
    intro j hj
    rw [count_finish]
    exact h.numbers j (h.mem_finish.1 hj).1
  distinct := by
    unfold Jobs.finish
    split
    · exact h.distinct
    · exact h.distinct.sublist (List.filter_sublist.map _)
  pending v m := by
    simp only [h.live_finish]
    unfold Jobs.finish
    cases hfind : js.find? n with
    | none => exact h.pending_iff fun j hj _ => h.ne_of_find?_none hfind hj.1
    | some i =>
      obtain ⟨hi, rfl⟩ := h.find?_eq_some.1 hfind
      show ((if js.pending.get? i.uri = some i.sequence then js.pending.erase i.uri else js.pending).get? v =
        some m) ↔ _
      -- A cancelled job may share its document with a live one: only the entry with its own number goes with it.
      have hother : ∀ j, js.Live j → j.uri = v → (js.pending.get? i.uri = some i.sequence → i.uri ≠ v) →
          j.sequence ≠ i.sequence := by
        rintro j hj rfl hne heq
        obtain rfl := h.eq_of_sequence hj.1 hi heq
        exact hne ((h.pending _ _).2 ⟨j, hj, rfl, rfl⟩) rfl
      by_cases hentry : js.pending.get? i.uri = some i.sequence
      · rw [if_pos hentry, Maps.get?_erase]
        by_cases hv : i.uri = v
        · subst hv
          rw [if_pos rfl]
          refine ⟨fun hnone => absurd hnone.symm (Option.some_ne_none _), ?_⟩
          rintro ⟨j, ⟨hj, hne⟩, huri, _⟩
          have hpending := (h.pending i.uri j.sequence).2 ⟨j, hj, huri, rfl⟩
          exact absurd (Option.some.inj (hpending.symm.trans hentry)) hne
        · rw [if_neg hv]
          exact h.pending_iff fun j hj huri => hother j hj huri fun _ => hv
      · rw [if_neg hentry]
        exact h.pending_iff fun j hj huri => hother j hj huri fun h => absurd h hentry

/-- The entry of a document stays if the job that ends is not its own. -/
theorem Sound.pending_finish_of_ne (h : js.Sound) (hother : ∀ j, js.Live j → j.uri = u → j.sequence ≠ n) :
    (js.finish n).pending.get? u = js.pending.get? u := by
  refine Option.ext fun m => ?_
  rw [(h.finish n).pending, h.pending_iff hother]
  simp only [h.live_finish]

/-- When the live job of a document ends, none is pending. -/
theorem Sound.pending_finish_self (h : js.Sound) (hj : js.Live j) :
    (js.finish j.sequence).pending.get? j.uri = none := by
  refine Option.eq_none_iff_forall_ne_some.2 fun m hm => ?_
  obtain ⟨i, hi, huri, -⟩ := ((h.finish j.sequence).pending j.uri m).1 hm
  exact ((h.live_finish_of_live hj).1 hi).2 huri

end LgLang.Workspace.Jobs
