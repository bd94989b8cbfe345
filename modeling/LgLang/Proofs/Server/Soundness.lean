import LgLang.Proofs.Server.Scene

/-!
# The invariant of scenes

`Sound` holds of every scene that events lead to. What a client's notice does is summed up by `Followed`: which
documents have a new job, what becomes of the results that are kept, and that nothing which a result rests on has
changed unless its document has a new job. From this the invariant is kept once for all four kinds of notices
(`Sound.of_followed`). The three steps of a job keep it each by itself, so that they may come in any order.
-/

namespace LgLang

open Workspace (Document Documents Snapshot Snapshots Job Jobs JobStage Tag)

namespace Scene

variable {sc sc' : Scene} {which : Uri → Prop} {marks : Prop} {u v : Uri} {n : Nat}

/-! ## The invariant -/

/-- A live job that has captured a text has captured the text of its document, and its result is the analysis of that.
-/
def StageSound (sc : Scene) (j : Job) (document : Document) : Prop :=
  match j.stage with
  | .waiting => True
  | .captured text => text = document.content
  | .analyzed a => ∃ b, sc.basis j.sequence = some b ∧ b.text = document.content ∧ a = b.analysis sc.surroundings j.uri

/-- A result that is kept is what the record says, and the dependencies are those of the result. -/
structure KeptSound (sc : Scene) (u : Uri) (s : Snapshot Workspace.Result) : Prop where
  isOpen : ∃ document, sc.document? u = some document
  made : ∃ b, sc.basis s.tag.sequence = some b ∧ s.content.analysis = b.analysis sc.surroundings u
  committed : ∃ r, sc.committed s.tag.sequence = some r
  notices : s.content.notices = Editor.Notice.ofAnalysis sc.workspace.config s.content.analysis
  dependencies : ∀ v, v ∈ sc.workspace.dependencies.forward.targets u ↔ v ∈ s.content.analysis.scope.dependencies
  earlier : s.tag.sequence ≤ sc.bench.jobs.count
  finished : ∀ j ∈ sc.bench.jobs.unfinished, j.sequence ≠ s.tag.sequence
  before : ∀ j, sc.bench.jobs.Live j → j.uri = u → s.tag.sequence < j.sequence

/-- The list of findings that was last sent for a document. -/
def published? (sc : Scene) (u : Uri) : Option (List Editor.Notice) :=
  sc.bench.publisher.latest? u

/-- An open document without a live job has a result that is not older than the document. If the result is of its
version, it was made of its text, and the files that it depends on say what they said when it was committed. -/
def Settled (sc : Scene) (u : Uri) (document : Document) : Prop :=
  ∃ s b r, sc.kept? u = some s ∧ sc.basis s.tag.sequence = some b ∧ sc.committed s.tag.sequence = some r ∧
    document.version ≤ s.tag.version ∧
    (s.tag.version = document.version → b.text = document.content ∧
      ∀ v ∈ s.content.analysis.scope.dependencies, sc.read v = r v)

/-- What holds of every scene that events lead to. -/
structure Sound (sc : Scene) : Prop where
  ready : sc.server.session.state.isReady = true
  cache : sc.workspace.files.Valid sc.surroundings.disk
  mirrored : sc.workspace.dependencies.Mirrored
  jobs : sc.bench.jobs.Sound
  live : ∀ j, sc.bench.jobs.Live j →
    ∃ document, sc.document? j.uri = some document ∧ document.version = j.version ∧ sc.StageSound j document
  kept : ∀ u s, sc.kept? u = some s → sc.KeptSound u s
  connected : sc.bench.publisher.connected = true
  tags : ∀ u, sc.bench.publisher.tags.get? u = (sc.kept? u).map (·.tag)
  published : ∀ u s, sc.kept? u = some s → sc.published? u = some s.content.notices
  settled : ∀ u document, sc.document? u = some document →
    (∃ j, sc.bench.jobs.Live j ∧ j.uri = u) ∨ sc.Settled u document

/-- A document that was read is among the dependencies of the result. -/
theorem KeptSound.mem_dependencies_of_read {s : Snapshot Workspace.Result} {b : Basis} {text : String}
    (h : sc.KeptSound u s) (hb : sc.basis s.tag.sequence = some b) (hv : v ∈ b.reads sc.surroundings u)
    (hread : b.read v = .ok text) : v ∈ s.content.analysis.scope.dependencies := by
  obtain ⟨b', hb', hanalysis⟩ := h.made
  obtain rfl := Option.some.inj (hb.symm.trans hb')
  rw [hanalysis]
  exact mem_dependencies.2 ⟨hv, text, hread⟩

/-- With a valid cache, an analysis of the workspace is made of the open documents and the disk. -/
theorem Sound.analyze_fst (hsc : sc.Sound) (u : Uri) (text : String) :
    (sc.workspace.analyze sc.surroundings u text).1 = sc.fresh u text := by
  have hcontext : sc.workspace.context sc.surroundings = (⟨text, sc.read⟩ : Basis).context sc.surroundings := by
    unfold Workspace.context
    rw [Workspace.read_eq_present hsc.cache]
    rfl
  rw [Workspace.analyze_eq, hcontext]
  rfl

/-! ## Notices of clients -/

/-- The scene with another workbench and another disk. -/
def withBench (sc : Scene) (b : Workbench) (disk : Disk) : Scene :=
  { sc with
    server := { sc.server with bench := b }
    surroundings := { sc.surroundings with disk } }

/-- What a client's notice does before it asks for jobs, if it is going to do so for the documents `which`. If the
notice `marks` results, theirs are outdated. -/
structure Followed (sc sc' : Scene) (which : Uri → Prop) (marks : Prop) : Prop where
  config : sc'.workspace.config = sc.workspace.config
  cache : sc'.workspace.files.Valid sc'.surroundings.disk
  mirrored : sc'.workspace.dependencies.Mirrored
  jobs : sc'.bench.jobs.Sound
  count : sc'.bench.jobs.count = sc.bench.jobs.count
  live : ∀ j, sc'.bench.jobs.Live j → sc.bench.jobs.Live j ∧ (¬ which j.uri → sc'.document? j.uri = sc.document? j.uri)
  unfinished : ∀ j ∈ sc'.bench.jobs.unfinished,
    ∃ i ∈ sc.bench.jobs.unfinished, i.sequence = j.sequence ∧ i.stage = j.stage
  /-- A document without a new job is as it was, and so are its job and what its result depends on. -/
  others : ∀ u document, sc'.document? u = some document → ¬ which u →
    sc.document? u = some document ∧ sc'.kept? u = sc.kept? u ∧
      (∀ j, sc.bench.jobs.Live j → j.uri = u → sc'.bench.jobs.Live j) ∧
      ∀ s, sc.kept? u = some s → ∀ v ∈ s.content.analysis.scope.dependencies, sc'.read v = sc.read v
  kept : ∀ u s', sc'.kept? u = some s' → (∃ document, sc'.document? u = some document) ∧
    (∀ v, v ∈ sc'.workspace.dependencies.forward.targets u ↔ v ∈ sc.workspace.dependencies.forward.targets u) ∧
    sc'.bench.publisher.tags.get? u = sc.bench.publisher.tags.get? u ∧ sc'.published? u = sc.published? u ∧
    ∃ s, sc.kept? u = some s ∧ s'.content = s.content ∧ s'.tag = s.tag ∧ (marks → which u → s'.stale = true)
  connected : sc'.bench.publisher.connected = true
  untagged : ∀ u, sc'.kept? u = none → sc'.bench.publisher.tags.get? u = none

theorem KeptSound.withBench {s s' : Snapshot Workspace.Result} {b : Workbench} {disk : Disk}
    (h : sc.KeptSound u s) (hcontent : s'.content = s.content) (htag : s'.tag = s.tag)
    (hopen : ∃ document, (sc.withBench b disk).document? u = some document)
    (hconfig : b.workspace.config = sc.workspace.config)
    (htargets : ∀ v, v ∈ b.workspace.dependencies.forward.targets u ↔ v ∈ sc.workspace.dependencies.forward.targets u)
    (hcount : sc.bench.jobs.count ≤ b.jobs.count)
    (hunfinished : ∀ j ∈ b.jobs.unfinished,
      (∃ i ∈ sc.bench.jobs.unfinished, i.sequence = j.sequence) ∨ sc.bench.jobs.count < j.sequence)
    (hlive : ∀ j, b.jobs.Live j →
      (∃ i, sc.bench.jobs.Live i ∧ i.uri = j.uri ∧ i.sequence = j.sequence) ∨ sc.bench.jobs.count < j.sequence) :
    (sc.withBench b disk).KeptSound u s' where
  isOpen := hopen
  made := by
    rw [htag, hcontent]
    exact h.made
  committed := by
    rw [htag]
    exact h.committed
  notices := by
    show _ = Editor.Notice.ofAnalysis b.workspace.config _
    rw [hcontent, hconfig]
    exact h.notices
  dependencies v := by
    rw [hcontent]
    exact (htargets v).trans (h.dependencies v)
  earlier := by
    rw [htag]
    exact Nat.le_trans h.earlier hcount
  finished j hj := by
    rw [htag]
    rcases hunfinished j hj with ⟨i, hi, hsequence⟩ | hlater
    · exact hsequence ▸ h.finished i hi
    · exact Nat.ne_of_gt (Nat.lt_of_le_of_lt h.earlier hlater)
  before j hj huri := by
    rw [htag]
    rcases hlive j hj with ⟨i, hi, huri', hsequence⟩ | hlater
    · exact hsequence ▸ h.before i hi (huri'.trans huri)
    · exact Nat.lt_of_le_of_lt h.earlier hlater

/-- **A client's notice keeps the invariant.** -/
theorem Sound.of_followed {b b' : Workbench} {disk : Disk} (hsc : sc.Sound)
    (h : sc.Followed (sc.withBench b disk) which marks) (hjobs : b.Rescheduled b' which) :
    (sc.withBench b' disk).Sound := by
  obtain ⟨workspace, jobs, publisher⟩ := b'
  obtain rfl : workspace = b.workspace := hjobs.workspace
  obtain rfl : publisher = b.publisher := hjobs.publisher
  have hcount : sc.bench.jobs.count = b.jobs.count := h.count.symm
  exact
    { ready := hsc.ready
      cache := h.cache
      mirrored := h.mirrored
      jobs := hjobs.sound
      live := by
        intro j hj
        rcases hjobs.live j hj with ⟨hold, hnot⟩ | ⟨_, hstage, _, document, hdocument, hversion⟩
        · obtain ⟨hlive, hsame⟩ := h.live j hold
          obtain ⟨document, hdocument, hversion, hsound⟩ := hsc.live j hlive
          exact ⟨document, (hsame hnot).trans hdocument, hversion, hsound⟩
        · refine ⟨document, hdocument, hversion, ?_⟩
          unfold StageSound
          rw [hstage]
          trivial
      kept := by
        intro u s' hs'
        obtain ⟨hopen, htargets, _, _, s, hs, hcontent, htag, _⟩ := h.kept u s' hs'
        refine (hsc.kept u s hs).withBench hcontent htag hopen h.config htargets (hcount ▸ hjobs.count) ?_ ?_
        · intro j hj
          rcases hjobs.unfinished j hj with ⟨i, hi, hsequence, _⟩ | ⟨hlater, _⟩
          · obtain ⟨k, hk, hsequence', _⟩ := h.unfinished i hi
            exact Or.inl ⟨k, hk, hsequence'.trans hsequence⟩
          · exact Or.inr (hcount ▸ hlater)
        · intro j hj
          rcases hjobs.live j hj with ⟨hold, _⟩ | ⟨_, _, hlater, _⟩
          · exact Or.inl ⟨j, (h.live j hold).1, rfl, rfl⟩
          · exact Or.inr (hcount ▸ hlater)
      connected := h.connected
      tags := by
        intro u
        cases hs' : (sc.withBench b disk).kept? u with
        | none =>
          refine (h.untagged u hs').trans ?_
          show none = Option.map _ ((sc.withBench b disk).kept? u)
          rw [hs']
          rfl
        | some s' =>
          obtain ⟨_, _, htags, _, s, hs, _, htag, _⟩ := h.kept u s' hs'
          refine htags.trans ?_
          show _ = Option.map _ ((sc.withBench b disk).kept? u)
          rw [hsc.tags, hs, hs', Option.map_some, Option.map_some, htag]
      published := by
        intro u s' hs'
        obtain ⟨_, _, _, hpublished, s, hs, hcontent, _, _⟩ := h.kept u s' hs'
        refine hpublished.trans ?_
        rw [hsc.published u s hs, hcontent]
      settled := by
        intro u document hdocument
        -- A document has a new job, or it is as settled as it was.
        by_cases hwhich : which u
        · exact Or.inl (hjobs.asked u hwhich)
        · obtain ⟨hdocument', hkept, hlive, hreads⟩ := h.others u document hdocument hwhich
          rcases hsc.settled u document hdocument' with ⟨j, hj, rfl⟩ | ⟨s, basis, r, hs, hbasis, hr, hversion, hsame⟩
          · exact Or.inl ⟨j, hjobs.kept j (hlive j hj rfl) hwhich, rfl⟩
          · refine Or.inr ⟨s, basis, r, hkept.trans hs, hbasis, hr, hversion, fun heq => ?_⟩
            obtain ⟨htext, hreads'⟩ := hsame heq
            exact ⟨htext, fun v hv => (hreads s hs v hv).trans (hreads' v hv)⟩ }

/-- What a client's notice does: it leads to another workspace, and the documents `which` have new jobs. -/
def Follows (sc sc' : Scene) (workspace : Workspace) (which : Uri → Prop) (marks : Prop) : Prop :=
  ∃ b b' disk, b.workspace = workspace ∧ sc' = sc.withBench b' disk ∧ sc.Followed (sc.withBench b disk) which marks ∧
    b.Rescheduled b' which

variable {workspace : Workspace}

theorem Follows.sound (h : sc.Follows sc' workspace which marks) (hsc : sc.Sound) : sc'.Sound := by
  obtain ⟨b, b', disk, _, rfl, hfollowed, hjobs⟩ := h
  exact hsc.of_followed hfollowed hjobs

theorem Follows.workspace_eq (h : sc.Follows sc' workspace which marks) : sc'.workspace = workspace := by
  obtain ⟨b, b', disk, rfl, rfl, _, hjobs⟩ := h
  exact hjobs.workspace

theorem Follows.basis_eq (h : sc.Follows sc' workspace which marks) : sc'.basis = sc.basis := by
  obtain ⟨b, b', disk, _, rfl, _⟩ := h
  rfl

theorem Follows.reads_eq (h : sc.Follows sc' workspace which marks) (basis : Basis) (u : Uri) :
    basis.reads sc'.surroundings u = basis.reads sc.surroundings u := by
  obtain ⟨b, b', disk, _, rfl, _⟩ := h
  rfl

/-- A document without a new job is as it was, and so is what its result depends on. -/
theorem Follows.others (h : sc.Follows sc' workspace which marks) {document : Document}
    (hdocument : sc'.document? u = some document) (hnot : ¬ which u) :
    sc.document? u = some document ∧ sc'.kept? u = sc.kept? u ∧
      ∀ s, sc.kept? u = some s → ∀ v ∈ s.content.analysis.scope.dependencies, sc'.read v = sc.read v := by
  obtain ⟨b, ⟨workspace, jobs, publisher⟩, disk, _, rfl, hfollowed, hjobs⟩ := h
  obtain rfl : workspace = b.workspace := hjobs.workspace
  obtain ⟨hdocument', hkept, _, hreads⟩ := hfollowed.others u document hdocument hnot
  exact ⟨hdocument', hkept, hreads⟩

/-- Results come from before. -/
theorem Follows.kept (h : sc.Follows sc' workspace which marks) {s' : Snapshot Workspace.Result}
    (hs' : sc'.kept? u = some s') :
    ∃ s, sc.kept? u = some s ∧ s'.content = s.content ∧ s'.tag = s.tag ∧ (marks → which u → s'.stale = true) := by
  obtain ⟨b, ⟨workspace, jobs, publisher⟩, disk, _, rfl, hfollowed, hjobs⟩ := h
  obtain rfl : workspace = b.workspace := hjobs.workspace
  obtain ⟨_, _, _, _, hs⟩ := hfollowed.kept u s' hs'
  exact hs

/-- New jobs are waiting. -/
theorem Follows.unfinished (h : sc.Follows sc' workspace which marks) {j : Job} (hj : j ∈ sc'.bench.jobs.unfinished) :
    (∃ i ∈ sc.bench.jobs.unfinished, i.stage = j.stage) ∨ j.stage = .waiting := by
  obtain ⟨b, b', disk, _, rfl, hfollowed, hjobs⟩ := h
  rcases hjobs.unfinished j hj with ⟨i, hi, _, hstage⟩ | ⟨_, hstage⟩
  · obtain ⟨k, hk, _, hstage'⟩ := hfollowed.unfinished i hi
    exact Or.inl ⟨k, hk, hstage'.trans hstage⟩
  · exact Or.inr hstage

end Scene

end LgLang
