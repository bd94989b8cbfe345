import LgLang.Proofs.Workspace.Following
import LgLang.Proofs.Workspace.Jobs
import LgLang.Workbench

/-!
# The steps of a job

What each of the three steps of a job can do to a workbench, with what is known of the job in each case. Later proofs
go by these cases and never look into the steps themselves.
-/

namespace LgLang.Workbench

open Workspace (Job JobStage Jobs Document Tag)

variable {b : Workbench} {n : Nat}

/-- A job whose document is open at the version that the job is for. -/
theorem isDue_iff {j : Job} :
    b.isDue j = true ↔ ∃ d, b.workspace.documents.get? j.uri = some d ∧ d.version = j.version := by
  unfold isDue
  cases b.workspace.documents.get? j.uri with
  | none => simp
  | some d => simp

/-- What can come of capturing. -/
inductive Captures (b : Workbench) (n : Nat) (after : Workbench) : Prop where
  | unchanged (hafter : after = b) (hstage : ∀ j ∈ b.jobs.unfinished, j.sequence = n → j.stage ≠ .waiting)
  | ended (j : Job) (hj : j ∈ b.jobs.unfinished) (hn : j.sequence = n) (hwhy : j.cancelled = true ∨ b.isDue j = false)
      (hafter : after = b.finish n)
  | captured (j : Job) (d : Document) (hj : b.jobs.Live j) (hn : j.sequence = n)
      (hd : b.workspace.documents.get? j.uri = some d)
      (hafter : after = { b with jobs := b.jobs.setStage n (.captured d.content) })

theorem captureStep_captures (h : b.jobs.Sound) (n : Nat) : b.Captures n (b.captureStep n) := by
  cases hfind : b.jobs.find? n with
  | none =>
    have hafter : b.captureStep n = b := by
      unfold captureStep
      rw [hfind]
    exact .unchanged hafter fun j hj hn => absurd hn (h.ne_of_find?_none hfind hj)
  | some j =>
    obtain ⟨hj, hn⟩ := h.find?_eq_some.1 hfind
    obtain ⟨uri, version, sequence, delay, cancelled, stage⟩ := j
    cases stage with
    | waiting =>
      cases cancelled with
      | true => exact .ended _ hj hn (Or.inl rfl) (by unfold captureStep; rw [hfind])
      | false =>
        cases hd : b.workspace.documents.get? uri with
        | none =>
          refine .ended _ hj hn (Or.inr ?_) (by unfold captureStep; simp only [hfind, hd])
          unfold isDue
          simp only [hd]
        | some d =>
          by_cases hversion : d.version = version
          · exact .captured _ d ⟨hj, rfl⟩ hn hd (by unfold captureStep; simp only [hfind, hd, if_pos hversion])
          · refine .ended _ hj hn (Or.inr ?_) (by unfold captureStep; simp only [hfind, hd, if_neg hversion])
            unfold isDue
            simp only [hd]
            exact beq_false_of_ne hversion
    | captured _ | analyzed _ =>
      have hafter : b.captureStep n = b := by
        unfold captureStep
        rw [hfind]
        cases cancelled <;> rfl
      refine .unchanged hafter fun i hi hin hstage => ?_
      rw [h.eq_of_find? hfind hi hin] at hstage
      cases hstage

/-- What can come of analyzing. -/
inductive Analyzes (b : Workbench) (s : Surroundings) (n : Nat) (after : Workbench) : Prop where
  | unchanged (hafter : after = b) (hstage : ∀ j ∈ b.jobs.unfinished, j.sequence = n → ∀ text, j.stage ≠ .captured text)
  | ended (j : Job) (hj : j ∈ b.jobs.unfinished) (hn : j.sequence = n) (hwhy : j.cancelled = true)
      (hafter : after = b.finish n)
  | analyzed (j : Job) (text : String) (hj : b.jobs.Live j) (hn : j.sequence = n) (hstage : j.stage = .captured text)
      (hafter : after = { b with
        workspace := (b.workspace.analyze s j.uri text).2
        jobs := b.jobs.setStage n (.analyzed (b.workspace.analyze s j.uri text).1) })

theorem analyzeStep_analyzes (h : b.jobs.Sound) (s : Surroundings) (n : Nat) :
    b.Analyzes s n (b.analyzeStep s n) := by
  cases hfind : b.jobs.find? n with
  | none =>
    have hafter : b.analyzeStep s n = b := by
      unfold analyzeStep
      rw [hfind]
    exact .unchanged hafter fun j hj hn => absurd hn (h.ne_of_find?_none hfind hj)
  | some j =>
    obtain ⟨hj, hn⟩ := h.find?_eq_some.1 hfind
    obtain ⟨uri, version, sequence, delay, cancelled, stage⟩ := j
    cases stage with
    | captured text =>
      cases cancelled with
      | true => exact .ended _ hj hn rfl (by unfold analyzeStep; rw [hfind])
      | false => exact .analyzed _ text ⟨hj, rfl⟩ hn rfl (by unfold analyzeStep; rw [hfind])
    | waiting | analyzed _ =>
      have hafter : b.analyzeStep s n = b := by
        unfold analyzeStep
        rw [hfind]
        cases cancelled <;> rfl
      refine .unchanged hafter fun i hi hin text hstage => ?_
      rw [h.eq_of_find? hfind hi hin] at hstage
      cases hstage

/-- A result is not newer than the one that is kept. -/
def Outdated (b : Workbench) (j : Job) : Prop :=
  ∃ old, b.workspace.snapshots.get? j.uri = some old ∧ Tag.newer ⟨j.version, j.sequence⟩ old.tag = false

/-- The workbench with the result of a job. -/
def accept (b : Workbench) (j : Job) (a : Analysis) : Workbench :=
  { b with
    workspace := { b.workspace with
      snapshots := ⟨b.workspace.snapshots.byUri.insert j.uri ⟨b.workspace.resultOf a, ⟨j.version, j.sequence⟩, false⟩⟩
      dependencies := b.workspace.dependencies.replace j.uri a.scope.dependencies }
    publisher := b.publisher.publish j.uri ⟨j.version, j.sequence⟩ (b.workspace.resultOf a).notices }

theorem get?_accept (b : Workbench) (j : Job) (a : Analysis) (u : Uri) :
    (b.accept j a).workspace.snapshots.get? u =
      if j.uri = u then some ⟨b.workspace.resultOf a, ⟨j.version, j.sequence⟩, false⟩
      else b.workspace.snapshots.get? u :=
  Maps.get?_insert _ _ _ _

/-- What can come of committing. -/
inductive Commits (b : Workbench) (n : Nat) (after : Workbench) : Prop where
  | unchanged (hafter : after = b) (hstage : ∀ j ∈ b.jobs.unfinished, j.sequence = n → ∀ a, j.stage ≠ .analyzed a)
  | ended (j : Job) (a : Analysis) (hj : j ∈ b.jobs.unfinished) (hn : j.sequence = n) (hstage : j.stage = .analyzed a)
      (hwhy : j.cancelled = true ∨ b.isDue j = false ∨ b.Outdated j) (hafter : after = b.finish n)
  | accepted (j : Job) (a : Analysis) (hj : b.jobs.Live j) (hn : j.sequence = n) (hstage : j.stage = .analyzed a)
      (hdue : b.isDue j = true) (hnewer : ¬ b.Outdated j) (hafter : after = (b.accept j a).finish n)

theorem commit_eq (b : Workbench) (j : Job) (a : Analysis) (hcancelled : j.cancelled = false) (hdue : b.isDue j = true)
    (hnewer : ¬ b.Outdated j) : b.commit j a = b.accept j a := by
  have hnewer' : ∀ old, b.workspace.snapshots.get? j.uri = some old →
      Tag.newer ⟨j.version, j.sequence⟩ old.tag = true :=
    fun old hold => Bool.not_eq_false _ |>.mp fun hnot => hnewer ⟨old, hold, hnot⟩
  unfold commit
  rw [hcancelled, hdue]
  simp only [Workspace.commit?, Workspace.Snapshots.commit?_eq]
  rw [if_pos hnewer']
  rfl

theorem commit_eq_self (b : Workbench) (j : Job) (a : Analysis)
    (hwhy : j.cancelled = true ∨ b.isDue j = false ∨ b.Outdated j) : b.commit j a = b := by
  unfold commit
  by_cases hgone : (j.cancelled || !b.isDue j) = true
  · rw [if_pos hgone]
  · rw [if_neg hgone]
    rw [Bool.or_eq_true, Bool.not_eq_true', not_or] at hgone
    obtain ⟨old, hold, hnot⟩ := (hwhy.resolve_left hgone.1).resolve_left hgone.2
    simp only [Workspace.commit?, Workspace.Snapshots.commit?_eq]
    rw [if_neg fun hnewer => Bool.noConfusion (hnot.symm.trans (hnewer old hold))]
    rfl

theorem commitStep_commits (h : b.jobs.Sound) (n : Nat) : b.Commits n (b.commitStep n) := by
  cases hfind : b.jobs.find? n with
  | none =>
    have hafter : b.commitStep n = b := by
      unfold commitStep
      rw [hfind]
    exact .unchanged hafter fun j hj hn => absurd hn (h.ne_of_find?_none hfind hj)
  | some j =>
    obtain ⟨hj, hn⟩ := h.find?_eq_some.1 hfind
    cases hstage : j.stage with
    | analyzed a =>
      have hafter : b.commitStep n = (b.commit j a).finish n := by
        unfold commitStep
        simp only [hfind, hstage]
      by_cases hwhy : j.cancelled = true ∨ b.isDue j = false ∨ b.Outdated j
      · exact .ended j a hj hn hstage hwhy (by rw [hafter, b.commit_eq_self j a hwhy])
      · obtain ⟨hcancelled, hdue, hnewer⟩ : j.cancelled ≠ true ∧ b.isDue j ≠ false ∧ ¬ b.Outdated j := by
          simpa only [not_or, ne_eq] using hwhy
        have hcancelled' := Bool.eq_false_iff.2 hcancelled
        have hdue' := Bool.ne_false_iff.1 hdue
        exact .accepted j a ⟨hj, hcancelled'⟩ hn hstage hdue' hnewer
          (by rw [hafter, b.commit_eq j a hcancelled' hdue' hnewer])
    | waiting | captured _ =>
      have hafter : b.commitStep n = b := by
        unfold commitStep
        simp only [hfind, hstage]
      refine .unchanged hafter fun i hi hin a hstage' => ?_
      rw [h.eq_of_find? hfind hi hin, hstage] at hstage'
      cases hstage'

/-! ## What steps leave -/

theorem workspace_captureStep (h : b.jobs.Sound) (n : Nat) : (b.captureStep n).workspace = b.workspace := by
  cases captureStep_captures h n with
  | unchanged hafter _ | ended _ _ _ _ hafter | captured _ _ _ _ _ hafter =>
    exact (congrArg workspace hafter).trans rfl

theorem documents_analyzeStep (h : b.jobs.Sound) (s : Surroundings) (n : Nat) :
    (b.analyzeStep s n).workspace.documents = b.workspace.documents := by
  cases analyzeStep_analyzes h s n with
  | unchanged hafter _ | ended _ _ _ _ hafter =>
    exact (congrArg (·.workspace.documents) hafter).trans rfl
  | analyzed j text _ _ _ hafter =>
    rw [hafter]
    exact (Workspace.afterReads_parts _ _ _).1

theorem snapshots_analyzeStep (h : b.jobs.Sound) (s : Surroundings) (n : Nat) :
    (b.analyzeStep s n).workspace.snapshots = b.workspace.snapshots := by
  cases analyzeStep_analyzes h s n with
  | unchanged hafter _ | ended _ _ _ _ hafter =>
    exact (congrArg (·.workspace.snapshots) hafter).trans rfl
  | analyzed j text _ _ _ hafter =>
    rw [hafter]
    exact (Workspace.afterReads_parts _ _ _).2.2.1

theorem documents_commitStep (h : b.jobs.Sound) (n : Nat) :
    (b.commitStep n).workspace.documents = b.workspace.documents := by
  cases commitStep_commits h n with
  | unchanged hafter _ | ended _ _ _ _ _ _ hafter | accepted _ _ _ _ _ _ _ hafter =>
    exact (congrArg (·.workspace.documents) hafter).trans rfl

/-- A kept result was kept before the commit, or it is the one of the job. -/
theorem get?_commitStep (h : b.jobs.Sound) {u : Uri} {s : Workspace.Snapshot Workspace.Result}
    (hs : (b.commitStep n).workspace.snapshots.get? u = some s) :
    b.workspace.snapshots.get? u = some s ∨
      ∃ j a, b.jobs.Live j ∧ j.sequence = n ∧ j.uri = u ∧ j.stage = .analyzed a ∧ s.tag.sequence = n := by
  cases commitStep_commits h n with
  | unchanged hafter _ | ended _ _ _ _ _ _ hafter =>
    rw [hafter] at hs
    exact Or.inl hs
  | accepted j a hj hn hstage _ _ hafter =>
    rw [hafter] at hs
    have hget := (get?_accept b j a u).symm.trans hs
    by_cases hu : j.uri = u
    · rw [if_pos hu] at hget
      obtain rfl := Option.some.inj hget
      exact Or.inr ⟨j, a, hj, hn, hu, hstage, hn⟩
    · rw [if_neg hu] at hget
      exact Or.inl hget

/-! ## All steps at once -/

/-- No job has taken a step. -/
def Resting (b : Workbench) : Prop :=
  ∀ j ∈ b.jobs.unfinished, j.stage = .waiting

/-- Only the job with the given number has taken steps, and they have led it to such a stage. -/
def RestingBut (b : Workbench) (n : Nat) (p : JobStage → Prop) : Prop :=
  ∀ j ∈ b.jobs.unfinished, (j.sequence = n ∧ p j.stage) ∨ (j.sequence ≠ n ∧ j.stage = .waiting)

theorem Resting.captureStep (hb : b.Resting) (h : b.jobs.Sound) (n : Nat) :
    (b.captureStep n).RestingBut n fun stage => ∃ text, stage = .captured text := by
  intro j hj
  cases captureStep_captures h n with
  | unchanged hafter hstage =>
    rw [hafter] at hj
    exact Or.inr ⟨fun hn => hstage j hj hn (hb j hj), hb j hj⟩
  | ended i _ _ _ hafter =>
    rw [hafter] at hj
    obtain ⟨hj, hne⟩ := h.mem_finish.1 hj
    exact Or.inr ⟨hne, hb j hj⟩
  | captured i d _ _ _ hafter =>
    rw [hafter] at hj
    obtain ⟨k, hk, rfl⟩ := Jobs.mem_modify.1 hj
    by_cases hn : k.sequence = n
    · rw [if_pos hn]
      exact Or.inl ⟨hn, d.content, rfl⟩
    · rw [if_neg hn]
      exact Or.inr ⟨hn, hb k hk⟩

theorem RestingBut.analyzeStep (hb : b.RestingBut n fun stage => ∃ text, stage = .captured text) (h : b.jobs.Sound)
    (s : Surroundings) : (b.analyzeStep s n).RestingBut n fun stage => ∃ a, stage = .analyzed a := by
  intro j hj
  cases analyzeStep_analyzes h s n with
  | unchanged hafter hstage =>
    rw [hafter] at hj
    rcases hb j hj with ⟨hn, text, htext⟩ | hother
    · exact absurd htext (hstage j hj hn text)
    · exact Or.inr hother
  | ended i _ _ _ hafter =>
    rw [hafter] at hj
    obtain ⟨hj, hne⟩ := h.mem_finish.1 hj
    exact Or.inr ((hb j hj).resolve_left fun hstage => hne hstage.1)
  | analyzed i text _ _ _ hafter =>
    rw [hafter] at hj
    obtain ⟨k, hk, rfl⟩ := Jobs.mem_modify.1 hj
    by_cases hn : k.sequence = n
    · rw [if_pos hn]
      exact Or.inl ⟨hn, _, rfl⟩
    · rw [if_neg hn]
      exact Or.inr ((hb k hk).resolve_left fun hstage => hn hstage.1)

theorem RestingBut.commitStep (hb : b.RestingBut n fun stage => ∃ a, stage = .analyzed a) (h : b.jobs.Sound) :
    (b.commitStep n).Resting := by
  have hfinish : ∀ j ∈ (b.jobs.finish n).unfinished, j.stage = .waiting := by
    intro j hj
    obtain ⟨hj, hne⟩ := h.mem_finish.1 hj
    exact ((hb j hj).resolve_left fun hstage => hne hstage.1).2
  intro j hj
  cases commitStep_commits h n with
  | unchanged hafter hstage =>
    rw [hafter] at hj
    rcases hb j hj with ⟨hn, a, ha⟩ | ⟨_, hwaiting⟩
    · exact absurd ha (hstage j hj hn a)
    · exact hwaiting
  | ended _ _ _ _ _ _ hafter | accepted _ _ _ _ _ _ _ hafter =>
    rw [hafter] at hj
    exact hfinish j hj

end LgLang.Workbench
