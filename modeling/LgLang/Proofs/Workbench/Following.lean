import LgLang.Proofs.Workbench.Scheduling
import LgLang.Proofs.Workspace.Publisher

/-!
# What the client's news does to a workbench

Whatever the client tells of its documents and files, the workbench follows in the same way (`Follows`): a live job goes
on only if its document stays as it is, new jobs are for documents as they are now, and of what is kept and published
nothing changes, except that the result of a closed document is given up and what was published of it is taken back.
The jobs and what they publish rest on this alone.
-/

namespace LgLang.Workbench

open Workspace (Job Jobs Document Documents Publisher Result Snapshot Tag Change)

variable {b b₁ b₂ : Workbench} {u : Uri}

/-- The result that is kept for a document, with its tag. -/
def kept? (b : Workbench) (u : Uri) : Option (Result × Tag) :=
  (b.workspace.snapshots.get? u).map fun s => (s.content, s.tag)

/-- A workbench behind news of the client, which may have closed a document. -/
structure Follows (b b' : Workbench) (closed : Option Uri) : Prop where
  sound : b'.jobs.Sound
  live : ∀ j, b'.jobs.Live j →
    (b.jobs.Live j ∧ b'.workspace.documents.get? j.uri = b.workspace.documents.get? j.uri) ∨
      (j.stage = .waiting ∧ ∃ d, b'.workspace.documents.get? j.uri = some d ∧ d.version = j.version)
  kept : ∀ u, b'.kept? u = if closed = some u then none else b.kept? u
  publisher : b'.publisher = closed.elim b.publisher b.publisher.clear
  count : b.jobs.count ≤ b'.jobs.count

/-- A mark on a result changes neither the result nor its tag. -/
theorem kept?_of_outdated {p : Prop} [Decidable p]
    (h : b₁.workspace.snapshots.get? u =
      if p then (b.workspace.snapshots.get? u).map Snapshot.outdated else b.workspace.snapshots.get? u) :
    b₁.kept? u = b.kept? u := by
  unfold kept?
  rw [h]
  split
  · rw [Option.map_map]
    rfl
  · rfl

theorem Follows.refl (h : b.jobs.Sound) : b.Follows b none where
  sound := h
  live _ hj := Or.inl ⟨hj, rfl⟩
  kept _ := rfl
  publisher := rfl
  count := Nat.le_refl _

/-- Reading, marking and settings leave the documents and the results. -/
theorem follows_workspace (h : b.jobs.Sound) {workspace : Workspace} (hdocuments : workspace.documents = b.workspace.documents)
    (hsnapshots : workspace.snapshots = b.workspace.snapshots) : b.Follows { b with workspace } none where
  sound := h
  live _ hj := Or.inl ⟨hj, congrArg (Documents.get? · _) hdocuments⟩
  kept u := congrArg (fun snapshots => (snapshots.get? u).map fun s => (s.content, s.tag)) hsnapshots
  publisher := rfl
  count := Nat.le_refl _

theorem follows_cancelAll (h : b.jobs.Sound) : b.Follows b.cancelAll none where
  sound := h.cancelAll
  live j hj := absurd hj (h.not_live_cancelAll j)
  kept _ := rfl
  publisher := rfl
  count := Nat.le_refl _

/-- New jobs have been asked for where documents may have changed. -/
theorem Rescheduled.follows {which : Uri → Prop} {closed : Option Uri} (h : Rescheduled b₁ b₂ which)
    (hlive : ∀ j, b₁.jobs.Live j → ¬ which j.uri →
      b.jobs.Live j ∧ b₁.workspace.documents.get? j.uri = b.workspace.documents.get? j.uri)
    (hkept : ∀ u, b₁.kept? u = if closed = some u then none else b.kept? u)
    (hpublisher : b₁.publisher = closed.elim b.publisher b.publisher.clear)
    (hcount : b₁.jobs.count = b.jobs.count) : b.Follows b₂ closed where
  sound := h.sound
  live := by
    intro j hj
    rw [h.workspace]
    rcases h.live j hj with ⟨hold, hwhich⟩ | ⟨_, hstage, _, hversion⟩
    · exact Or.inl (hlive j hold hwhich)
    · exact Or.inr ⟨hstage, hversion⟩
  kept := by
    intro u
    rw [← hkept u, kept?, h.workspace]
    rfl
  publisher := h.publisher.trans hpublisher
  count := hcount ▸ h.count

/-! ## Documents -/

theorem follows_opened (h : b.jobs.Sound) (u : Uri) (d : Document) (delay : Nat) :
    b.Follows
      (({ b with workspace := b.workspace.openDocument u d }.schedule u 0).1.scheduleDependents u delay) none := by
  have hdocuments := Documents.get?_opened b.workspace.documents u d
  have hopen : (b.workspace.openDocument u d).documents.isOpen u = true :=
    Documents.isOpen_iff.2 ⟨d, (hdocuments u).trans (if_pos rfl)⟩
  refine (scheduleBoth_rescheduled (b := { b with workspace := b.workspace.openDocument u d }) h hopen 0 delay).follows
    ?_ (fun _ => rfl) rfl rfl
  intro j hj hwhich
  exact ⟨hj, (hdocuments j.uri).trans (if_neg fun hu => hwhich (Or.inl hu.symm))⟩

theorem follows_changed (h : b.jobs.Sound) {version : Int} {changes : List Change} {workspace : Workspace}
    (hchange : b.workspace.changeDocument u version changes = .ok workspace) (delay : Nat) :
    b.Follows ({ b with workspace }.scheduleWithDependents u delay) none := by
  obtain ⟨old, new, hchanged⟩ := Workspace.changeDocument_followed hchange
  have hopen : workspace.documents.isOpen u = true :=
    Documents.isOpen_iff.2 ⟨new, (hchanged.documents u).trans (if_pos rfl)⟩
  refine (scheduleBoth_rescheduled (b := { b with workspace }) h hopen delay delay).follows ?_ ?_ rfl rfl
  · intro j hj hwhich
    exact ⟨hj, (hchanged.documents j.uri).trans (if_neg fun hu => hwhich (Or.inl hu.symm))⟩
  · exact fun v => kept?_of_outdated (hchanged.snapshots v)

theorem follows_closed (h : b.jobs.Sound) (u : Uri) (delay : Nat) :
    b.Follows
      (({ b.cancel u with
        workspace := b.workspace.closeDocument u
        publisher := b.publisher.clear u } : Workbench).scheduleDependents u delay) (some u) := by
  have hdocuments : ∀ v, (b.workspace.closeDocument u).documents.get? v =
      if u = v then none else b.workspace.documents.get? v := Documents.get?_close b.workspace.documents u
  refine (scheduleDependents_rescheduled
    (b := { b.cancel u with workspace := b.workspace.closeDocument u, publisher := b.publisher.clear u })
    (h.cancel u) u delay).follows ?_ ?_ rfl Jobs.count_cancel
  · intro j hj _
    obtain ⟨hlive, hne⟩ := h.live_cancel.1 hj
    exact ⟨hlive, (hdocuments j.uri).trans (if_neg hne.symm)⟩
  · intro v
    have hsnapshots := Workspace.get?_closeDocument b.workspace u v
    by_cases hv : u = v
    · rw [if_pos hv] at hsnapshots
      rw [if_pos (congrArg some hv)]
      exact congrArg (Option.map _) hsnapshots
    · rw [if_neg hv] at hsnapshots
      rw [if_neg fun heq => hv (Option.some.inj heq)]
      exact kept?_of_outdated hsnapshots

theorem follows_filesChanged (h : b.jobs.Sound) (us : List Uri) (delay : Nat) :
    b.Follows
      ({ b with workspace := (b.workspace.filesChanged us).1 }.scheduleEach (b.workspace.filesChanged us).2 delay)
      none := by
  have hchanged := Workspace.filesChanged_followed b.workspace us
  refine (scheduleEach_rescheduled (b := { b with workspace := (b.workspace.filesChanged us).1 }) h _ delay).follows
    ?_ ?_ rfl rfl
  · intro j hj _
    exact ⟨hj, congrArg (Documents.get? · j.uri) hchanged.documents⟩
  · exact fun v => kept?_of_outdated (hchanged.snapshots v)

end LgLang.Workbench
