import LgLang.Proofs.Workspace.Following
import LgLang.Proofs.Workspace.Jobs
import LgLang.Workbench

/-!
# Asking for jobs

What it does to a workbench when the analyses of several documents are asked for: those that are open have a new job
behind it, all other live jobs go on, and nothing else changes (`scheduleEach_rescheduled`).
-/

namespace LgLang.Workbench

open Workspace (Job Jobs Documents)

variable {b b₁ b₂ : Workbench} {which which₁ which₂ : Uri → Prop}

/-- The analyses of some open documents have been asked for. -/
structure Rescheduled (b b' : Workbench) (which : Uri → Prop) : Prop where
  workspace : b'.workspace = b.workspace
  publisher : b'.publisher = b.publisher
  sound : b'.jobs.Sound
  count : b.jobs.count ≤ b'.jobs.count
  live : ∀ j, b'.jobs.Live j → (b.jobs.Live j ∧ ¬ which j.uri) ∨ (which j.uri ∧ j.stage = .waiting ∧
    b.jobs.count < j.sequence ∧ ∃ d, b.workspace.documents.get? j.uri = some d ∧ d.version = j.version)
  kept : ∀ j, b.jobs.Live j → ¬ which j.uri → b'.jobs.Live j
  asked : ∀ u, which u → ∃ j, b'.jobs.Live j ∧ j.uri = u
  /-- Cancelled jobs go on where they stand. -/
  unfinished : ∀ j ∈ b'.jobs.unfinished,
    (∃ i ∈ b.jobs.unfinished, i.sequence = j.sequence ∧ i.stage = j.stage) ∨
      (b.jobs.count < j.sequence ∧ j.stage = .waiting)

theorem Rescheduled.refl (h : b.jobs.Sound) : Rescheduled b b fun _ => False where
  workspace := rfl
  publisher := rfl
  sound := h
  count := Nat.le_refl _
  live _ hj := Or.inl ⟨hj, id⟩
  kept _ hj _ := hj
  asked _ hu := hu.elim
  unfinished j hj := Or.inl ⟨j, hj, rfl, rfl⟩

theorem Rescheduled.trans (h₁ : Rescheduled b b₁ which₁) (h₂ : Rescheduled b₁ b₂ which₂) :
    Rescheduled b b₂ fun u => which₁ u ∨ which₂ u where
  workspace := h₂.workspace.trans h₁.workspace
  publisher := h₂.publisher.trans h₁.publisher
  sound := h₂.sound
  count := Nat.le_trans h₁.count h₂.count
  live j hj := by
    rcases h₂.live j hj with ⟨hj₁, hnot₂⟩ | ⟨hwhich, hstage, hcount, hversion⟩
    · rcases h₁.live j hj₁ with ⟨hj₀, hnot₁⟩ | ⟨hwhich, hrest⟩
      · exact Or.inl ⟨hj₀, fun h => h.elim hnot₁ hnot₂⟩
      · exact Or.inr ⟨Or.inl hwhich, hrest⟩
    · rw [h₁.workspace] at hversion
      exact Or.inr ⟨Or.inr hwhich, hstage, Nat.lt_of_le_of_lt h₁.count hcount, hversion⟩
  kept j hj hnot := h₂.kept j (h₁.kept j hj fun h => hnot (Or.inl h)) fun h => hnot (Or.inr h)
  asked u hu := by
    by_cases hu₂ : which₂ u
    · exact h₂.asked u hu₂
    · obtain ⟨j, hj, rfl⟩ := h₁.asked u (hu.resolve_right hu₂)
      exact ⟨j, h₂.kept j hj hu₂, rfl⟩
  unfinished j hj := by
    rcases h₂.unfinished j hj with ⟨i, hi, hsequence, hstage⟩ | ⟨hcount, hstage⟩
    · rcases h₁.unfinished i hi with ⟨k, hk, hsequence', hstage'⟩ | ⟨hcount, hstage'⟩
      · exact Or.inl ⟨k, hk, hsequence'.trans hsequence, hstage'.trans hstage⟩
      · exact Or.inr ⟨hsequence ▸ hcount, hstage ▸ hstage'⟩
    · exact Or.inr ⟨Nat.lt_of_le_of_lt h₁.count hcount, hstage⟩

theorem Rescheduled.congr (h : Rescheduled b b₁ which₁) (hwhich : ∀ u, which₁ u ↔ which₂ u) :
    Rescheduled b b₁ which₂ := by
  obtain rfl : which₁ = which₂ := funext fun u => propext (hwhich u)
  exact h

theorem schedule_rescheduled (h : b.jobs.Sound) (u : Uri) (delay : Nat) :
    Rescheduled b (b.schedule u delay).1 fun v => v = u ∧ b.workspace.documents.isOpen v = true := by
  unfold schedule
  cases hget : b.workspace.documents.get? u with
  | none =>
    refine (Rescheduled.refl h).congr fun v => ⟨False.elim, ?_⟩
    rintro ⟨rfl, hopen⟩
    obtain ⟨d, hd⟩ := Documents.isOpen_iff.1 hopen
    rw [hget] at hd
    cases hd
  | some d =>
    have hopen : b.workspace.documents.isOpen u = true := Documents.isOpen_iff.2 ⟨d, hget⟩
    exact
      { workspace := rfl
        publisher := rfl
        sound := h.schedule u d.version delay
        count := Nat.le_succ _
        live := by
          intro j hj
          rcases h.live_schedule.1 hj with rfl | ⟨hj, hne⟩
          · exact Or.inr ⟨⟨rfl, hopen⟩, rfl, Nat.lt_succ_self _, d, hget, rfl⟩
          · exact Or.inl ⟨hj, fun hu => hne hu.1⟩
        kept := fun j hj hnot => h.live_schedule.2 (Or.inr ⟨hj, fun hu => hnot ⟨hu, hu ▸ hopen⟩⟩)
        asked := by
          rintro v ⟨rfl, _⟩
          exact ⟨_, h.live_schedule.2 (Or.inl rfl), rfl⟩
        unfinished := by
          intro j hj
          rcases Jobs.mem_unfinished_schedule hj with rfl | ⟨i, hi, hcases⟩
          · exact Or.inr ⟨Nat.lt_succ_self _, rfl⟩
          · refine Or.inl ⟨i, hi, ?_⟩
            rcases hcases with rfl | rfl <;> exact ⟨rfl, rfl⟩ }

/-- **Asking for several analyses gives every open document among them a new job, and leaves the jobs of the others.**
-/
theorem scheduleEach_rescheduled (h : b.jobs.Sound) (us : List Uri) (delay : Nat) :
    Rescheduled b (b.scheduleEach us delay) fun v => v ∈ us ∧ b.workspace.documents.isOpen v = true := by
  induction us generalizing b with
  | nil => exact (Rescheduled.refl h).congr fun v => ⟨False.elim, fun hv => absurd hv.1 List.not_mem_nil⟩
  | cons u us ih =>
    have hfirst := schedule_rescheduled h u delay
    have hrest := ih hfirst.sound
    rw [hfirst.workspace] at hrest
    refine (hfirst.trans hrest).congr fun v => ?_
    rw [List.mem_cons, ← or_and_right]

theorem scheduleDependents_rescheduled (h : b.jobs.Sound) (u : Uri) (delay : Nat) :
    Rescheduled b (b.scheduleDependents u delay) (· ∈ b.workspace.openDependents u) :=
  (scheduleEach_rescheduled h _ delay).congr fun _ =>
    ⟨fun hv => hv.1, fun hv => ⟨hv, (Workspace.mem_openDependents.1 hv).2⟩⟩

/-- Asking for the analysis of an open document and then for those of its dependents. -/
theorem scheduleBoth_rescheduled (h : b.jobs.Sound) {u : Uri} (hopen : b.workspace.documents.isOpen u = true)
    (delay delay' : Nat) : Rescheduled b ((b.schedule u delay).1.scheduleDependents u delay')
      fun v => v = u ∨ v ∈ b.workspace.openDependents u := by
  have hfirst := schedule_rescheduled h u delay
  have hrest := scheduleDependents_rescheduled hfirst.sound u delay'
  rw [hfirst.workspace] at hrest
  refine (hfirst.trans hrest).congr fun v => or_congr ⟨fun hv => hv.1, ?_⟩ Iff.rfl
  rintro rfl
  exact ⟨rfl, hopen⟩

/-! ## The workspace

Whatever the jobs are, asking for more of them leaves the workspace alone.
-/

theorem workspace_schedule (b : Workbench) (u : Uri) (delay : Nat) : (b.schedule u delay).1.workspace = b.workspace := by
  unfold schedule
  cases b.workspace.documents.get? u <;> rfl

theorem workspace_scheduleEach (b : Workbench) (us : List Uri) (delay : Nat) :
    (b.scheduleEach us delay).workspace = b.workspace := by
  induction us generalizing b with
  | nil => rfl
  | cons u us ih => exact (ih (b.schedule u delay).1).trans (b.workspace_schedule u delay)

theorem workspace_scheduleWithDependents (b : Workbench) (u : Uri) (delay : Nat) :
    (b.scheduleWithDependents u delay).workspace = b.workspace :=
  (workspace_scheduleEach _ _ delay).trans (b.workspace_schedule u delay)

end LgLang.Workbench
