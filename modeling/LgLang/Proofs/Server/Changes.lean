import LgLang.Proofs.Server.Freshness

/-!
# What a change of a document touches

A batch of changes that is refused leaves the server as it is. One that is taken changes a single document. It outdates
the results of that document and of the open documents that depend on it, and no others. A result that is not outdated
was made without a look at the changed document, since whatever is read is noted as a dependency: if it was the analysis
that would be made of its document at that time, it still is (`onNotification_didChange`).

All of this needs no more of the workspace than that results are kept of open documents only, with the dependencies that
they have (`Grounded`). Every scene that events lead to is like that (`Scene.Sound.grounded`).
-/

namespace LgLang

open Relation (TransGen)
open Workspace (Change Document Documents Result Snapshot)

namespace Workspace

variable {w after : Workspace} {sur : Surroundings} {u v x : Uri} {old new : Document} {s : Snapshot Result}

/-- Results are kept of open documents only, and a document depends on what its result depends on. Both directions of
the dependencies hold the same pairs, as they do behind any operations. -/
structure Grounded (w : Workspace) : Prop where
  isOpen : ∀ v s, w.snapshots.get? v = some s → w.documents.isOpen v = true
  /-- A document is never noted to depend on itself. -/
  edges : ∀ v s, w.snapshots.get? v = some s →
    ∀ x, x ≠ v → (x ∈ w.dependencies.forward.targets v ↔ x ∈ s.content.analysis.scope.dependencies)
  mirrored : w.dependencies.Mirrored

/-- A change of `u` concerns `u` itself and the open documents that depend on it, directly or through others. -/
def Concerns (w : Workspace) (u v : Uri) : Prop :=
  v = u ∨ (w.documents.isOpen v = true ∧ TransGen w.dependencies.forward.Leads v u)

/-- A result is the analysis that would be made of its document now. -/
def Fresh (w : Workspace) (sur : Surroundings) (v : Uri) (s : Snapshot Result) : Prop :=
  ∃ document, w.documents.get? v = some document ∧ s.content.analysis = (w.analyze sur v document.content).1

/-- What a batch of changes of `u` that is taken leads to. -/
structure Edited (w : Workspace) (u : Uri) (after : Workspace) : Prop where
  documents : ∀ v, v ≠ u → after.documents.get? v = w.documents.get? v
  dependencies : after.dependencies = w.dependencies
  outdated : ∀ v, w.Concerns u v → after.snapshots.get? v = (w.snapshots.get? v).map Snapshot.outdated
  others : ∀ v, ¬ w.Concerns u v → after.snapshots.get? v = w.snapshots.get? v
  fresh : ∀ sur v s, ¬ w.Concerns u v → w.snapshots.get? v = some s → w.Fresh sur v s → after.Fresh sur v s

/-! ## Whom a change concerns -/

theorem ChangeFollowed.isOpen_eq (h : w.ChangeFollowed u after old new) (v : Uri) :
    after.documents.isOpen v = w.documents.isOpen v := by
  rw [Bool.eq_iff_iff, Documents.isOpen_iff, Documents.isOpen_iff, h.documents v]
  by_cases hv : u = v
  · subst hv
    rw [if_pos rfl]
    exact iff_of_true ⟨new, rfl⟩ ⟨old, h.document⟩
  · rw [if_neg hv]

theorem ChangeFollowed.openDependents_eq (h : w.ChangeFollowed u after old new) :
    after.openDependents u = w.openDependents u := by
  unfold openDependents
  rw [h.dependencies, funext h.isOpen_eq]

/-- The open documents among those that the search finds are those that a change concerns. -/
theorem concerns_iff (hmirrored : w.dependencies.Mirrored) : w.Concerns u v ↔ v = u ∨ v ∈ w.openDependents u := by
  unfold Concerns
  rw [mem_openDependents, hmirrored.mem_affected_iff]
  by_cases hv : v = u
  · exact iff_of_true (Or.inl hv) (Or.inl hv)
  · rw [or_iff_right hv, or_iff_right hv, and_iff_right hv, and_comm]

/-! ## What analyses look at -/

theorem read_of_get? {d : Disk} {document : Document} (h : w.documents.get? u = some document) :
    w.read d u = .ok document.content := by
  rw [read, h]

/-- Only the changed document says something else. -/
theorem ChangeFollowed.read_eq (h : w.ChangeFollowed u after old new) (d : Disk) (hx : u ≠ x) :
    after.read d x = w.read d x := by
  rw [read, read, h.documents x, if_neg hx, h.files]

/-- An analysis depends on every open document that it reads. -/
theorem mem_dependencies_analyze {text : String} (hread : x ∈ documentReads (w.context sur) v text)
    (hopen : w.documents.get? x = some old) : x ∈ (w.analyze sur v text).1.scope.dependencies :=
  mem_dependencies.2 ⟨hread, old.content, read_of_get? hopen⟩

/-- **A result stays the analysis of its document when a document changes that it does not depend on.** -/
theorem Grounded.fresh (h : w.Grounded) (hchanged : w.ChangeFollowed u after old new) (hnot : ¬ w.Concerns u v)
    (hs : w.snapshots.get? v = some s) (hfresh : w.Fresh sur v s) : after.Fresh sur v s := by
  have hv : v ≠ u := fun heq => hnot (Or.inl heq)
  obtain ⟨document, hdocument, hanalysis⟩ := hfresh
  refine ⟨document, (hchanged.documents v).trans ((if_neg hv.symm).trans hdocument), ?_⟩
  rw [hanalysis, analyze_eq, analyze_eq]
  show analyzeDocument (w.context sur) v document.content =
    analyzeDocument ((w.context sur).withRead (after.read sur.disk)) v document.content
  refine analyzeDocument_eq_iff.2 ⟨rfl, fun x hx => ?_⟩
  by_cases hu : u = x
  · -- The document is open, so that a look at it succeeds and makes it a dependency.
    subst hu
    have hmem : u ∈ s.content.analysis.scope.dependencies := by
      rw [hanalysis]
      exact mem_dependencies_analyze hx hchanged.document
    have hleads : w.dependencies.forward.Leads v u := (h.edges v s hs u hv.symm).2 hmem
    exact absurd (Or.inr ⟨h.isOpen v s hs, .single hleads⟩) hnot
  · show Import.answer (after.read sur.disk) x = Import.answer (w.read sur.disk) x
    unfold Import.answer
    rw [hchanged.read_eq sur.disk hu]

theorem Grounded.edited (h : w.Grounded) (hchanged : w.ChangeFollowed u after old new) : w.Edited u after := by
  have hconcerns : ∀ v, w.Concerns u v ↔ v = u ∨ v ∈ after.openDependents u := by
    intro v
    rw [concerns_iff h.mirrored, hchanged.openDependents_eq]
  exact
    { documents := fun v hv => (hchanged.documents v).trans (if_neg hv.symm)
      dependencies := hchanged.dependencies
      outdated := fun v hv => (hchanged.snapshots v).trans (if_pos ((hconcerns v).1 hv))
      others := fun v hv => (hchanged.snapshots v).trans (if_neg (mt (hconcerns v).2 hv))
      fresh := fun _ _ _ hv hs hfresh => h.fresh hchanged hv hs hfresh }

end Workspace

/-! ## Scenes -/

namespace Scene

variable {sc : Scene} {u v : Uri} {document : Document} {n : Nat}

/-- The workspace of every scene that events lead to is grounded. -/
theorem Sound.grounded (hsc : sc.Sound) : sc.server.workspace.Grounded where
  isOpen v s hs := Documents.isOpen_iff.2 (hsc.kept v s hs).isOpen
  edges v s hs x _ := (hsc.kept v s hs).dependencies x
  mirrored := hsc.mirrored

/-- The result of a job that takes all of its steps is the analysis that would be made then. -/
theorem fresh_of_ran (hsc : sc.Sound) (hresting : sc.bench.Resting) (hnone : sc.kept? u = none)
    (hdocument : sc.document? u = some document) {s : Snapshot Result}
    (hs : (sc.step (.ran n)).kept? u = some s) (hcurrent : s.isCurrent document.version = true) :
    (sc.step (.ran n)).server.workspace.Fresh (sc.step (.ran n)).surroundings u s := by
  have hafter : (sc.step (.ran n)).Sound := ((hsc.capture n).analyze n).commit n
  have hdocument' : (sc.step (.ran n)).document? u = some document := by
    rw [← hdocument]
    exact congrArg (Documents.get? · u) (documents_ran hsc n)
  obtain ⟨b, hb, hanalysis⟩ := (hafter.kept u s hs).made
  rcases held_ran hsc hresting ⟨hdocument', s, hs, hcurrent, hb⟩ with ⟨_, s', hs', _⟩ | rfl
  · cases hnone.symm.trans hs'
  · refine ⟨document, hdocument', ?_⟩
    rw [hanalysis]
    refine Eq.trans ?_ (hafter.analyze_fst u document.content).symm
    rw [fresh, read_ran hsc]

end Scene

/-! ## What the server does -/

namespace Server

variable {s : Server} {u : Uri} {version : Int} {changes : List Change}

/-- The server takes a batch of changes, which leaves these documents. -/
def Takes (s : Server) (u : Uri) (version : Int) (changes : List Change) (documents : Documents) : Prop :=
  s.session.state.isReady = true ∧ s.workspace.documents.change u version changes = .ok documents

theorem onNotification_of_not_takes (h : ∀ documents, ¬ s.Takes u version changes documents) :
    s.onNotification (.didChange u version changes) = s := by
  show (if s.session.state.isReady then s.onDocument (.didChange u version changes) else s) = s
  by_cases hready : s.session.state.isReady = true
  · rw [if_pos hready]
    unfold onDocument
    cases hchange : s.workspace.documents.change u version changes with
    | ok documents => exact absurd ⟨hready, hchange⟩ (h documents)
    | error e => simp only [Workspace.changeDocument, hchange]
  · rw [if_neg hready]

theorem workspace_of_takes {documents : Documents} (h : s.Takes u version changes documents) :
    (s.onNotification (.didChange u version changes)).workspace.documents = documents ∧
      s.workspace.changeDocument u version changes =
        .ok (s.onNotification (.didChange u version changes)).workspace := by
  obtain ⟨hready, hchange⟩ := h
  have hafter : s.onNotification (.didChange u version changes) = s.onDocument (.didChange u version changes) :=
    if_pos hready
  rw [hafter]
  unfold onDocument
  simp only [Workspace.changeDocument, hchange]
  unfold workspace
  rw [Workbench.workspace_scheduleWithDependents]
  exact ⟨rfl, rfl⟩

/-- **A change touches its document and the results of the open documents that depend on it, and nothing else.** Nothing
happens when it is refused. When it is taken, the other documents and all dependencies stay, the results that it
concerns are outdated, and the others stay; those that were the analysis of their document still are. -/
theorem onNotification_didChange (s : Server) (u : Uri) (version : Int) (changes : List Change)
    (hgrounded : s.workspace.Grounded) :
    ((∀ documents, ¬ s.Takes u version changes documents) →
        s.onNotification (.didChange u version changes) = s) ∧
      ∀ documents, s.Takes u version changes documents →
        (s.onNotification (.didChange u version changes)).workspace.documents = documents ∧
          s.workspace.Edited u (s.onNotification (.didChange u version changes)).workspace := by
  refine ⟨onNotification_of_not_takes, fun documents htakes => ?_⟩
  obtain ⟨hdocuments, hafter⟩ := workspace_of_takes htakes
  obtain ⟨old, new, hchanged⟩ := Workspace.changeDocument_followed hafter
  exact ⟨hdocuments, hgrounded.edited hchanged⟩

/-- Of three open documents, one imports another one and the third one imports a file on disk. All are analyzed, but for
the last one. -/
def threeOpened : Scene :=
  Scene.besideLibrary.run
    [.opened ⟨"file:///project/names.lg"⟩ ⟨1, "# Name\n- you", "lg"⟩, .ran 1,
      .opened ⟨"file:///project/main.lg"⟩ ⟨1, "[names](names.lg)\n# Main\n- hi ${Name()}", "lg"⟩, .ran 2,
      .opened ⟨"file:///project/other.lg"⟩ ⟨1, "[lib](lib.lg)\n# Other\n- ${Greet()}", "lg"⟩]

/-- All three documents are analyzed. -/
def threeAnalyzed : Scene :=
  threeOpened.step (.ran 3)

theorem sound_resting_threeOpened : threeOpened.Sound ∧ threeOpened.bench.Resting := by
  refine Scene.sound_resting_run (Scene.sound_start _ _ _ _) (fun j hj => absurd hj List.not_mem_nil) _ ?_ ?_
  · intro e he
    simp only [List.mem_cons, List.not_mem_nil, or_false] at he
    rcases he with rfl | rfl | rfl | rfl | rfl <;> trivial
  · refine fun before e => Scene.announced_of_disk fun disk us hmem => ?_
    simp only [List.mem_cons, List.not_mem_nil, or_false, reduceCtorEq] at hmem

/-- Another text for the document that is imported. -/
def renamed : List Change :=
  [⟨none, "# Name\n- me"⟩]

/-- The imported document changes: the result of the one that imports it is outdated, that of the third one is as it would
be now. A batch that comes too late is refused. -/
theorem onNotification_didChange_renamed :
    threeAnalyzed.server.workspace.Grounded ∧
      threeAnalyzed.server.onNotification (.didChange ⟨"file:///project/names.lg"⟩ 1 renamed) =
        threeAnalyzed.server ∧
      ∃ after, threeAnalyzed.server.onNotification (.didChange ⟨"file:///project/names.lg"⟩ 2 renamed) = after ∧
        threeAnalyzed.server.workspace.Edited ⟨"file:///project/names.lg"⟩ after.workspace ∧
        (∃ s, after.workspace.snapshots.get? ⟨"file:///project/main.lg"⟩ = some s ∧ s.stale = true) ∧
        ∃ s, after.workspace.snapshots.get? ⟨"file:///project/other.lg"⟩ = some s ∧ s.isCurrent 1 = true ∧
          after.workspace.Fresh threeAnalyzed.surroundings ⟨"file:///project/other.lg"⟩ s := by
  obtain ⟨hsound, hresting⟩ := sound_resting_threeOpened
  have hanalyzed : threeAnalyzed.Sound := hsound.step trivial
  have hopened : threeOpened.kept? ⟨"file:///project/other.lg"⟩ = none ∧
      threeOpened.document? ⟨"file:///project/other.lg"⟩ =
        some ⟨1, "[lib](lib.lg)\n# Other\n- ${Greet()}", "lg"⟩ := by
    decide +kernel
  have hfresh : ∀ s, threeAnalyzed.kept? ⟨"file:///project/other.lg"⟩ = some s → s.isCurrent 1 = true →
      threeAnalyzed.server.workspace.Fresh threeAnalyzed.surroundings ⟨"file:///project/other.lg"⟩ s :=
    fun s hs hcurrent => Scene.fresh_of_ran hsound hresting hopened.1 hopened.2 hs hcurrent
  have hfacts :
      (threeAnalyzed.server.workspace.documents.change ⟨"file:///project/names.lg"⟩ 1 renamed).isOk = false ∧
        (threeAnalyzed.server.workspace.documents.change ⟨"file:///project/names.lg"⟩ 2 renamed).isOk = true ∧
        threeAnalyzed.server.workspace.openDependents ⟨"file:///project/names.lg"⟩ = [⟨"file:///project/main.lg"⟩] ∧
        (threeAnalyzed.kept? ⟨"file:///project/main.lg"⟩).isSome = true ∧
        (threeAnalyzed.kept? ⟨"file:///project/other.lg"⟩).map (·.isCurrent 1) = some true := by
    decide +kernel
  -- What has led to the scene does not matter from here on.
  generalize threeAnalyzed = sc at *
  obtain ⟨hrefused, haccepted, hdependents, hmain, hother⟩ := hfacts
  have hgrounded := hanalyzed.grounded
  refine ⟨hgrounded, ?_, _, rfl, ?_⟩
  · refine (onNotification_didChange sc.server _ _ _ hgrounded).1 fun documents htakes => ?_
    rw [htakes.2] at hrefused
    cases hrefused
  · cases hchange : sc.server.workspace.documents.change ⟨"file:///project/names.lg"⟩ 2 renamed with
    | error e =>
      rw [hchange] at haccepted
      cases haccepted
    | ok documents =>
      obtain ⟨-, hedited⟩ := (onNotification_didChange sc.server _ _ _ hgrounded).2 documents ⟨hanalyzed.ready, hchange⟩
      refine ⟨hedited, ?_, ?_⟩
      · have hconcerns := (Workspace.concerns_iff hgrounded.mirrored).2 (Or.inr (hdependents ▸ List.mem_cons_self))
        obtain ⟨s, hs⟩ := Option.isSome_iff_exists.1 hmain
        exact ⟨s.outdated, (hedited.outdated _ hconcerns).trans (congrArg _ hs), rfl⟩
      · have hnot : ¬ sc.server.workspace.Concerns ⟨"file:///project/names.lg"⟩ ⟨"file:///project/other.lg"⟩ := by
          rw [Workspace.concerns_iff hgrounded.mirrored, hdependents]
          decide
        obtain ⟨s, hs, hcurrent⟩ := Option.map_eq_some_iff.1 hother
        exact ⟨s, (hedited.others _ hnot).trans hs, hcurrent, hedited.fresh _ _ _ hnot hs (hfresh s hs hcurrent)⟩

end Server

end LgLang
