import LgLang.Proofs.Server.Soundness

/-!
# Notices of clients

Each of the four notices of a client does to a scene what `Followed` says, so that each of them keeps the invariant.
What has to be seen for a notice about `u` is that no result rests on `u` unless its document is among the dependents
of `u`.
-/

namespace LgLang.Scene

open Workspace (Document Documents Snapshot Snapshots Job Jobs Change Dependencies Publisher)

variable {sc : Scene} {u v : Uri}

/-! ## Dependents -/

theorem KeptSound.ne_of_mem {s : Snapshot Workspace.Result} (h : sc.KeptSound v s)
    (hu : u ∈ s.content.analysis.scope.dependencies) : v ≠ u := by
  rintro rfl
  obtain ⟨b, _, hanalysis⟩ := h.made
  rw [hanalysis] at hu
  exact uri_not_mem_dependencies hu

/-- A document whose result depends on `u` is affected by `u`. -/
theorem KeptSound.mem_affected {s : Snapshot Workspace.Result} (h : sc.KeptSound v s) {d : Dependencies}
    (hmirrored : d.Mirrored)
    (hd : ∀ x, x ∈ d.forward.targets v ↔ x ∈ sc.workspace.dependencies.forward.targets v)
    (hu : u ∈ s.content.analysis.scope.dependencies) : v ∈ d.affected u :=
  hmirrored.mem_affected ((hd u).2 ((h.dependencies u).2 hu)) (h.ne_of_mem hu)

theorem Sound.untagged (hsc : sc.Sound) (hnone : sc.kept? u = none) : sc.bench.publisher.tags.get? u = none := by
  rw [hsc.tags, hnone]
  rfl

/-! ## Opening and changing -/

/-- The text of one document is another now. -/
theorem followed_edited (hsc : sc.Sound) {workspace : Workspace} {document : Document} {marks : Prop} [Decidable marks]
    (hdocuments : ∀ v, workspace.documents.get? v = if u = v then some document else sc.document? v)
    (hdependencies : workspace.dependencies = sc.workspace.dependencies)
    (hfiles : workspace.files = sc.workspace.files) (hconfig : workspace.config = sc.workspace.config)
    (hsnapshots : ∀ v, workspace.snapshots.get? v =
      if marks ∧ (v = u ∨ v ∈ workspace.openDependents u) then (sc.kept? v).map Snapshot.outdated else sc.kept? v) :
    sc.Followed (sc.withBench { sc.bench with workspace } sc.surroundings.disk)
      (fun v => v = u ∨ v ∈ workspace.openDependents u) marks := by
  have hother : ∀ v, v ≠ u → workspace.documents.get? v = sc.document? v :=
    fun v hv => (hdocuments v).trans (if_neg hv.symm)
  have hmirrored : workspace.dependencies.Mirrored := hdependencies ▸ hsc.mirrored
  have htargets : ∀ v x,
      x ∈ workspace.dependencies.forward.targets v ↔ x ∈ sc.workspace.dependencies.forward.targets v := by
    intro v x
    rw [hdependencies]
  exact
    { config := hconfig
      cache := hfiles ▸ hsc.cache
      mirrored := hmirrored
      jobs := hsc.jobs
      count := rfl
      live := fun j hj => ⟨hj, fun hnot => hother j.uri fun heq => hnot (Or.inl heq)⟩
      unfinished := fun j hj => ⟨j, hj, rfl, rfl⟩
      others := by
        intro v d hd hnot
        have hv : v ≠ u := fun heq => hnot (Or.inl heq)
        have hsame : workspace.snapshots.get? v = sc.kept? v :=
          (hsnapshots v).trans (if_neg fun hmarked => hnot hmarked.2)
        refine ⟨(hother v hv).symm.trans hd, hsame, fun j hj _ => hj, ?_⟩
        intro s hs x hx
        -- The result cannot rest on the document: its own would be among the dependents.
        refine Workspace.present_congr (hother x ?_)
        rintro rfl
        have hmem := (hsc.kept v s hs).mem_affected hmirrored (htargets v) hx
        exact hnot (Or.inr (Workspace.mem_openDependents.2 ⟨hmem, Documents.isOpen_iff.2 ⟨d, hd⟩⟩))
      kept := by
        intro v s' hs'
        obtain ⟨s, hs, hcontent, htag, hstale⟩ := Snapshot.of_outdated (hsnapshots v) hs'
        refine ⟨?_, htargets v, rfl, rfl, s, hs, hcontent, htag, fun hmarks hv => hstale ⟨hmarks, hv⟩⟩
        by_cases hv : v = u
        · exact ⟨document, (hdocuments v).trans (if_pos hv.symm)⟩
        · obtain ⟨d, hd⟩ := (hsc.kept v s hs).isOpen
          exact ⟨d, (hother v hv).trans hd⟩
      connected := hsc.connected
      untagged := fun v hnone => hsc.untagged (Snapshot.none_of_outdated (hsnapshots v) hnone) }

theorem follows_opened (hsc : sc.Sound) (u : Uri) (document : Document) :
    sc.Follows (sc.step (.opened u document)) (sc.workspace.openDocument u document)
      (fun v => v = u ∨ v ∈ (sc.workspace.openDocument u document).openDependents u) False := by
  have hstep : sc.step (.opened u document) = { sc with server := sc.server.onDocument (.didOpen u document) } := by
    show { sc with server := if sc.server.session.state.isReady then _ else _ } = _
    rw [if_pos hsc.ready]
  have hdocuments := Documents.get?_opened sc.workspace.documents u document
  have hopen : (sc.workspace.openDocument u document).documents.isOpen u = true :=
    Documents.isOpen_iff.2 ⟨document, (hdocuments u).trans (if_pos rfl)⟩
  have hfollowed :
      sc.Followed (sc.withBench { sc.bench with workspace := sc.workspace.openDocument u document } _) _ False :=
    followed_edited hsc hdocuments rfl rfl rfl fun v => (if_neg fun hmarked => hmarked.1).symm
  exact ⟨_, _, _, rfl, hstep, hfollowed, Workbench.scheduleBoth_rescheduled hfollowed.jobs hopen 0 sc.server.debounce⟩

/-- A change that is refused does nothing. -/
theorem step_changed_error (hsc : sc.Sound) {version : Int} {changes : List Change} {e : Workspace.ChangeError}
    (h : sc.workspace.changeDocument u version changes = .error e) : sc.step (.changed u version changes) = sc := by
  have hchange : sc.server.workspace.changeDocument u version changes = .error e := h
  show { sc with server := if sc.server.session.state.isReady then sc.server.onDocument _ else _ } = _
  rw [if_pos hsc.ready]
  unfold Server.onDocument
  simp only [hchange]

theorem follows_changed (hsc : sc.Sound) {version : Int} {changes : List Change} {workspace : Workspace}
    (h : sc.workspace.changeDocument u version changes = .ok workspace) :
    sc.Follows (sc.step (.changed u version changes)) workspace
      (fun v => v = u ∨ v ∈ workspace.openDependents u) True := by
  have hchange : sc.server.workspace.changeDocument u version changes = .ok workspace := h
  have hstep : sc.step (.changed u version changes) = { sc with server :=
      { sc.server with bench := { sc.bench with workspace }.scheduleWithDependents u sc.server.debounce } } := by
    show { sc with server := if sc.server.session.state.isReady then sc.server.onDocument _ else _ } = _
    rw [if_pos hsc.ready]
    unfold Server.onDocument
    simp only [hchange]
    rfl
  obtain ⟨old, new, hchanged⟩ := Workspace.changeDocument_followed h
  have hopen : workspace.documents.isOpen u = true :=
    Documents.isOpen_iff.2 ⟨new, (hchanged.documents u).trans (if_pos rfl)⟩
  have hfollowed : sc.Followed _ _ True := followed_edited hsc hchanged.documents hchanged.dependencies hchanged.files
    hchanged.config fun v => (hchanged.snapshots v).trans (by simp only [true_and]; rfl)
  exact ⟨_, _, _, rfl, hstep, hfollowed, Workbench.scheduleBoth_rescheduled hfollowed.jobs hopen _ _⟩

/-! ## Closing -/

/-- The workbench behind a closed document, before jobs are asked for. -/
def closedBench (sc : Scene) (u : Uri) : Workbench where
  workspace := sc.workspace.closeDocument u
  jobs := sc.bench.jobs.cancel u
  publisher := sc.bench.publisher.clear u

theorem followed_closed (hsc : sc.Sound) (u : Uri) :
    sc.Followed (sc.withBench (sc.closedBench u) sc.surroundings.disk)
      (· ∈ (sc.workspace.closeDocument u).openDependents u) True := by
  have hdocuments : ∀ v, (sc.workspace.closeDocument u).documents.get? v = if u = v then none else sc.document? v :=
    Documents.get?_close sc.workspace.documents u
  have hmirrored : (sc.workspace.closeDocument u).dependencies.Mirrored := hsc.mirrored.forget u
  have htargets : ∀ v x, u ≠ v → (x ∈ (sc.workspace.closeDocument u).dependencies.forward.targets v ↔
      x ∈ sc.workspace.dependencies.forward.targets v) := by
    intro v x hv
    refine Dependencies.mem_forward_forget.trans ?_
    exact and_iff_right hv
  exact
    { config := rfl
      cache := hsc.cache
      mirrored := hmirrored
      jobs := hsc.jobs.cancel u
      count := Jobs.count_cancel
      live := by
        intro j hj
        obtain ⟨hlive, hne⟩ := hsc.jobs.live_cancel.1 hj
        exact ⟨hlive, fun _ => (hdocuments j.uri).trans (if_neg hne.symm)⟩
      unfinished := by
        intro j hj
        obtain ⟨i, hi, hcases⟩ := Jobs.mem_unfinished_cancel hj
        refine ⟨i, hi, ?_⟩
        rcases hcases with rfl | rfl <;> exact ⟨rfl, rfl⟩
      others := by
        intro v d hd hnot
        have hv : u ≠ v := by
          rintro rfl
          cases ((hdocuments u).trans (if_pos rfl)).symm.trans hd
        have hsame : (sc.workspace.closeDocument u).snapshots.get? v = sc.kept? v := by
          rw [Workspace.get?_closeDocument, if_neg hv, if_neg hnot]
          rfl
        refine ⟨((hdocuments v).trans (if_neg hv)).symm.trans hd, hsame, ?_, ?_⟩
        · rintro j hj rfl
          exact hsc.jobs.live_cancel.2 ⟨hj, hv.symm⟩
        · -- As for an edited document, no result that rests on the closed one is left alone.
          intro s hs x hx
          refine Workspace.present_congr ((hdocuments x).trans (if_neg ?_))
          rintro rfl
          have hmem := (hsc.kept v s hs).mem_affected hmirrored (fun x => htargets v x hv) hx
          exact hnot (Workspace.mem_openDependents.2 ⟨hmem, Documents.isOpen_iff.2 ⟨d, hd⟩⟩)
      kept := by
        intro v s' hs'
        have hget := Workspace.get?_closeDocument sc.workspace u v
        have hv : u ≠ v := by
          rintro rfl
          cases (hget.trans (if_pos rfl)).symm.trans hs'
        rw [if_neg hv] at hget
        obtain ⟨s, hs, hcontent, htag, hstale⟩ := Snapshot.of_outdated hget hs'
        refine ⟨?_, fun x => htargets v x hv, ?_, ?_, s, hs, hcontent, htag, fun _ => hstale⟩
        · obtain ⟨d, hd⟩ := (hsc.kept v s hs).isOpen
          exact ⟨d, ((hdocuments v).trans (if_neg hv)).trans hd⟩
        · exact (Publisher.get?_tags_clear _ _ _).trans (if_neg hv)
        · exact (Publisher.latest?_clear hsc.connected _ _).trans (if_neg hv)
      connected := (Publisher.connected_clear _ _).trans hsc.connected
      untagged := by
        intro v hnone
        refine (Publisher.get?_tags_clear _ _ _).trans ?_
        by_cases hv : u = v
        · exact if_pos hv
        · rw [if_neg hv]
          have hget := Workspace.get?_closeDocument sc.workspace u v
          rw [if_neg hv] at hget
          exact hsc.untagged (Snapshot.none_of_outdated hget hnone) }

theorem follows_closed (hsc : sc.Sound) (u : Uri) :
    sc.Follows (sc.step (.closed u)) (sc.workspace.closeDocument u)
      (· ∈ (sc.workspace.closeDocument u).openDependents u) True := by
  have hstep : sc.step (.closed u) = { sc with server := sc.server.onDocument (.didClose u) } := by
    show { sc with server := if sc.server.session.state.isReady then _ else _ } = _
    rw [if_pos hsc.ready]
  have hfollowed := followed_closed hsc u
  exact ⟨_, _, _, rfl, hstep, hfollowed, Workbench.scheduleDependents_rescheduled hfollowed.jobs u sc.server.debounce⟩

/-! ## Changes of files -/

/-- A file that a result depends on and that has changed is announced, so the document of the result is concerned. -/
theorem Sound.read_filesChanged (hsc : sc.Sound) {disk : Disk} {us : List Uri} {s : Snapshot Workspace.Result}
    (hannounced : sc.Announced (.filesChanged disk us)) (hs : sc.kept? v = some s)
    (hnot : v ∉ (sc.workspace.filesChanged us).2) (hu : u ∈ s.content.analysis.scope.dependencies) :
    sc.workspace.present disk u = sc.read u := by
  have hkept := hsc.kept v s hs
  cases hdocument : sc.document? u with
  | some document =>
    exact (Workspace.present_of_get? hdocument).trans (Workspace.present_of_get? hdocument).symm
  | none =>
    refine (Workspace.present_of_closed hdocument).trans (Eq.trans ?_ (Workspace.present_of_closed hdocument).symm)
    refine FileCache.read_empty_congr ?_
    by_contra hentry
    have hknown : sc.Knows u := by
      obtain ⟨basis, hbasis, hanalysis⟩ := hkept.made
      rw [hanalysis] at hu
      exact Or.inr ⟨v, basis, ⟨s, hs, hbasis⟩, (mem_dependencies.1 hu).1⟩
    have hclosed : sc.workspace.documents.isOpen u = false := by
      refine Bool.eq_false_iff.2 fun hopen => ?_
      obtain ⟨d, hd⟩ := Documents.isOpen_iff.1 hopen
      cases hdocument.symm.trans hd
    have hmem := hkept.mem_affected hsc.mirrored (fun _ => Iff.rfl) hu
    have hdependent := Workspace.mem_openDependents.2 ⟨hmem, Documents.isOpen_iff.2 hkept.isOpen⟩
    have hconcerned := (Workspace.filesChanged_followed sc.workspace us).mem_concerned v
    exact hnot (hconcerned.2 ⟨u, hannounced u hknown hentry, hclosed, hdependent⟩)

theorem followed_filesChanged (hsc : sc.Sound) {disk : Disk} {us : List Uri}
    (hannounced : sc.Announced (.filesChanged disk us)) :
    sc.Followed (sc.withBench { sc.bench with workspace := (sc.workspace.filesChanged us).1 } disk)
      (· ∈ (sc.workspace.filesChanged us).2) True := by
  have hchanged := Workspace.filesChanged_followed sc.workspace us
  have hdocuments : ∀ v, (sc.workspace.filesChanged us).1.documents.get? v = sc.document? v := by
    intro v
    rw [hchanged.documents]
    rfl
  exact
    { config := hchanged.config
      cache := by
        intro v f hv
        obtain ⟨hnot, hf⟩ := hchanged.files v f hv
        refine Eq.trans ?_ (hsc.cache v f hf)
        by_contra hentry
        exact hnot (hannounced v (Or.inl (FileCache.contains_of_get? hf)) hentry)
      mirrored := hchanged.dependencies ▸ hsc.mirrored
      jobs := hsc.jobs
      count := rfl
      live := fun j hj => ⟨hj, fun _ => hdocuments j.uri⟩
      unfinished := fun j hj => ⟨j, hj, rfl, rfl⟩
      others := by
        intro v d hd hnot
        refine ⟨(hdocuments v).symm.trans hd, (hchanged.snapshots v).trans (if_neg hnot), fun j hj _ => hj, ?_⟩
        intro s hs x hx
        exact (Workspace.present_congr (hdocuments x)).trans (hsc.read_filesChanged hannounced hs hnot hx)
      kept := by
        intro v s' hs'
        obtain ⟨s, hs, hcontent, htag, hstale⟩ := Snapshot.of_outdated (hchanged.snapshots v) hs'
        refine ⟨?_, fun x => ?_, rfl, rfl, s, hs, hcontent, htag, fun _ => hstale⟩
        · obtain ⟨d, hd⟩ := (hsc.kept v s hs).isOpen
          exact ⟨d, (hdocuments v).trans hd⟩
        · show x ∈ (sc.workspace.filesChanged us).1.dependencies.forward.targets v ↔ _
          rw [hchanged.dependencies]
      connected := hsc.connected
      untagged := fun v hnone => hsc.untagged (Snapshot.none_of_outdated (hchanged.snapshots v) hnone) }

theorem follows_filesChanged (hsc : sc.Sound) {disk : Disk} {us : List Uri}
    (hannounced : sc.Announced (.filesChanged disk us)) :
    sc.Follows (sc.step (.filesChanged disk us)) (sc.workspace.filesChanged us).1
      (· ∈ (sc.workspace.filesChanged us).2) True := by
  have hstep : sc.step (.filesChanged disk us) = { sc with
      surroundings := { sc.surroundings with disk }
      server := sc.server.onDocument (.didChangeFiles us) } := by
    show Scene.mk (if sc.server.session.state.isReady then _ else _) _ _ _ = _
    rw [if_pos hsc.ready]
  have hopen : ∀ v, v ∈ (sc.workspace.filesChanged us).2 →
      (sc.workspace.filesChanged us).1.documents.isOpen v = true := by
    intro v hv
    have hchanged := Workspace.filesChanged_followed sc.workspace us
    rw [hchanged.documents]
    obtain ⟨u, _, _, hu⟩ := (hchanged.mem_concerned v).1 hv
    exact (Workspace.mem_openDependents.1 hu).2
  have hfollowed := followed_filesChanged hsc hannounced
  refine ⟨_, _, _, rfl, hstep, hfollowed, ?_⟩
  exact (Workbench.scheduleEach_rescheduled hfollowed.jobs _ sc.server.debounce).congr fun v =>
    ⟨fun hv => hv.1, fun hv => ⟨hv, hopen v hv⟩⟩

end LgLang.Scene
