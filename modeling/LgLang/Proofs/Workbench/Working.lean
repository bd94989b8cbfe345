import LgLang.Proofs.Workbench.Following
import LgLang.Proofs.Workbench.Steps

/-!
# The work of live jobs

A live job works on its document as it is now: the document is open at the version that the job is for, and what the
job has captured or analyzed is the content that the document still has (`AllWorking`). This is so because nothing that
changes a document leaves its job alive. Of the steps of jobs it only matters how far they lead each job (`Advances`).
-/

namespace LgLang.Workbench

open Workspace (Job Jobs JobStage Document)

variable {b b' : Workbench} {j : Job}

/-- A job for a document, and the document. -/
structure Working (b : Workbench) (j : Job) (d : Document) : Prop where
  document : b.workspace.documents.get? j.uri = some d
  version : d.version = j.version
  captured : ∀ text, j.stage = .captured text → text = d.content
  analyzed : ∀ a, j.stage = .analyzed a → ∃ ctx, a = analyzeDocument ctx j.uri d.content

/-- Every live job works on its document as it is. -/
structure AllWorking (b : Workbench) : Prop where
  sound : b.jobs.Sound
  working : ∀ j, b.jobs.Live j → ∃ d, b.Working j d

theorem allWorking_start (config : Config) : (start config).AllWorking where
  sound := Jobs.sound_empty
  working _ hj := absurd hj.1 List.not_mem_nil

theorem AllWorking.follows (h : b.AllWorking) {closed : Option Uri} (hfollows : b.Follows b' closed) :
    b'.AllWorking where
  sound := hfollows.sound
  working := by
    intro j hj
    rcases hfollows.live j hj with ⟨hold, hsame⟩ | ⟨hstage, d, hd, hversion⟩
    -- A job that goes on has kept its document, and a new one has not looked at its document yet.
    · obtain ⟨d, hd⟩ := h.working j hold
      exact ⟨d, hsame.trans hd.document, hd.version, hd.captured, hd.analyzed⟩
    · refine ⟨d, hd, hversion, fun text htext => ?_, fun a ha => ?_⟩
      · cases hstage.symm.trans htext
      · cases hstage.symm.trans ha

/-! ## Steps of jobs -/

/-- How far a step leads a job: it stays where it is, it captures the text of its document, or it analyzes the text that it
has captured. -/
inductive Leads (b : Workbench) (i : Job) (stage : JobStage) : Prop where
  | same (h : stage = i.stage)
  | captured (d : Document) (hd : b.workspace.documents.get? i.uri = some d) (h : stage = .captured d.content)
  | analyzed (ctx : AnalysisContext) (text : String) (htext : i.stage = .captured text)
      (h : stage = .analyzed (analyzeDocument ctx i.uri text))

/-- Some job has taken a step. -/
structure Advances (b b' : Workbench) : Prop where
  sound : b'.jobs.Sound
  documents : b'.workspace.documents = b.workspace.documents
  live : ∀ j, b'.jobs.Live j →
    ∃ i, b.jobs.Live i ∧ i.uri = j.uri ∧ i.version = j.version ∧ b.Leads i j.stage

theorem Advances.refl (h : b.jobs.Sound) : b.Advances b where
  sound := h
  documents := rfl
  live j hj := ⟨j, hj, rfl, rfl, .same rfl⟩

/-- A job ends, whatever becomes of the results. -/
theorem Advances.finish (h : b.jobs.Sound) {n : Nat} (hjobs : b'.jobs = b.jobs.finish n)
    (hdocuments : b'.workspace.documents = b.workspace.documents) : b.Advances b' where
  sound := hjobs ▸ h.finish n
  documents := hdocuments
  live := by
    intro j hj
    rw [hjobs] at hj
    exact ⟨j, (h.live_finish.1 hj).1, rfl, rfl, .same rfl⟩

/-- A live job moves on. -/
theorem Advances.setStage (h : b.jobs.Sound) {stage : JobStage} (hj : b.jobs.Live j) (hleads : b.Leads j stage)
    (hjobs : b'.jobs = b.jobs.setStage j.sequence stage)
    (hdocuments : b'.workspace.documents = b.workspace.documents) : b.Advances b' where
  sound := hjobs ▸ h.setStage _ _
  documents := hdocuments
  live := by
    intro k hk
    rw [hjobs] at hk
    obtain ⟨i, hi, rfl⟩ := Jobs.live_setStage.1 hk
    refine ⟨i, hi, ?_⟩
    by_cases hsequence : i.sequence = j.sequence
    · -- The numbers of jobs are different, so that it is the one that moves.
      rw [if_pos hsequence]
      obtain rfl := h.eq_of_sequence hi.1 hj.1 hsequence
      exact ⟨rfl, rfl, hleads⟩
    · rw [if_neg hsequence]
      exact ⟨rfl, rfl, .same rfl⟩

theorem captureStep_advances (h : b.jobs.Sound) (n : Nat) : b.Advances (b.captureStep n) := by
  cases captureStep_captures h n with
  | unchanged hafter _ =>
    rw [hafter]
    exact .refl h
  | ended j _ _ _ hafter =>
    rw [hafter]
    exact .finish h rfl rfl
  | captured j d hj hn hd hafter =>
    rw [hafter, ← hn]
    exact .setStage h hj (.captured d hd rfl) rfl rfl

theorem analyzeStep_advances (h : b.jobs.Sound) (sur : Surroundings) (n : Nat) :
    b.Advances (b.analyzeStep sur n) := by
  cases analyzeStep_analyzes h sur n with
  | unchanged hafter _ =>
    rw [hafter]
    exact .refl h
  | ended j _ _ _ hafter =>
    rw [hafter]
    exact .finish h rfl rfl
  | analyzed j text hj hn hstage hafter =>
    rw [hafter, ← hn]
    exact .setStage h hj (.analyzed (b.workspace.context sur) text hstage rfl) rfl (Workspace.afterReads_parts _ _ _).1

theorem commitStep_advances (h : b.jobs.Sound) (n : Nat) : b.Advances (b.commitStep n) := by
  cases commitStep_commits h n with
  | unchanged hafter _ =>
    rw [hafter]
    exact .refl h
  | ended _ _ _ _ _ _ hafter | accepted _ _ _ _ _ _ _ hafter =>
    rw [hafter]
    exact .finish h rfl rfl

theorem AllWorking.advances (h : b.AllWorking) (hadvances : b.Advances b') : b'.AllWorking where
  sound := hadvances.sound
  working := by
    intro j hj
    obtain ⟨i, hi, huri, hversion, hleads⟩ := hadvances.live j hj
    obtain ⟨d, hd⟩ := h.working i hi
    have hdocument : b'.workspace.documents.get? j.uri = some d := by
      rw [hadvances.documents, ← huri]
      exact hd.document
    refine ⟨d, hdocument, hd.version.trans hversion, ?_, ?_⟩
    · intro text htext
      cases hleads with
      | same hstage => exact hd.captured text (hstage.symm.trans htext)
      | captured e he hstage =>
        obtain rfl : d = e := Option.some.inj (hd.document.symm.trans he)
        cases hstage.symm.trans htext
        rfl
      | analyzed ctx text' _ hstage => cases hstage.symm.trans htext
    · intro a ha
      rw [← huri]
      cases hleads with
      | same hstage => exact hd.analyzed a (hstage.symm.trans ha)
      | captured e _ hstage => cases hstage.symm.trans ha
      | analyzed ctx text htext hstage =>
        obtain rfl := hd.captured text htext
        cases hstage.symm.trans ha
        exact ⟨ctx, rfl⟩

end LgLang.Workbench
