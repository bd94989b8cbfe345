import LgLang.Proofs.Server.Notices

/-!
# Steps of jobs and whole runs

Each of the three steps of a job keeps the invariant of scenes, and so does every event of which the client tells as it
should (`Sound.step`). By induction the invariant holds behind every list of events (`Sound.run`).
-/

namespace LgLang.Scene

open Workspace (Document Documents Snapshot Snapshots Job Jobs JobStage Tag Publisher Dependencies)

variable {sc : Scene} {u v : Uri} {n : Nat}

/-! ## The record -/

theorem capturedText?_eq_some (h : sc.bench.jobs.Sound) {text : String} :
    sc.capturedText? n = some text ↔ ∃ j, sc.bench.jobs.Live j ∧ j.sequence = n ∧ j.stage = .captured text := by
  unfold capturedText?
  constructor
  · intro hsome
    split at hsome
    · rename_i hfind
      obtain ⟨hj, hn⟩ := h.find?_eq_some.1 hfind
      obtain rfl := Option.some.inj hsome
      exact ⟨_, ⟨hj, rfl⟩, hn, rfl⟩
    · cases hsome
  · rintro ⟨⟨uri, version, sequence, delay, cancelled, stage⟩, ⟨hj, rfl⟩, hn, rfl⟩
    rw [h.find?_eq_some.2 ⟨hj, hn⟩]

theorem hasResult_iff (h : sc.bench.jobs.Sound) :
    sc.hasResult n = true ↔ ∃ j ∈ sc.bench.jobs.unfinished, j.sequence = n ∧ ∃ a, j.stage = .analyzed a := by
  unfold hasResult
  constructor
  · intro htrue
    split at htrue
    · rename_i hfind
      obtain ⟨hj, hn⟩ := h.find?_eq_some.1 hfind
      exact ⟨_, hj, hn, _, rfl⟩
    · cases htrue
  · rintro ⟨⟨uri, version, sequence, delay, cancelled, stage⟩, hj, hn, a, rfl⟩
    rw [h.find?_eq_some.2 ⟨hj, hn⟩]

/-- What is recorded of a job that has not finished concerns no kept result. -/
theorem Sound.of_record (hsc : sc.Sound) {j : Job} (hj : j ∈ sc.bench.jobs.unfinished) {basis : Nat → Option Basis}
    {committed : Nat → Option (Uri → Except SourceError String)}
    (hbasis : ∀ m, m ≠ j.sequence ∨ (∃ a, j.stage = .analyzed a) → basis m = sc.basis m)
    (hcommitted : ∀ m, m ≠ j.sequence → committed m = sc.committed m) :
    Sound { sc with basis, committed } where
  ready := hsc.ready
  cache := hsc.cache
  mirrored := hsc.mirrored
  jobs := hsc.jobs
  live i hi := by
    obtain ⟨document, hdocument, hversion, hstage⟩ := hsc.live i hi
    refine ⟨document, hdocument, hversion, ?_⟩
    unfold StageSound at hstage ⊢
    split
    · trivial
    · rename_i text heq
      rw [heq] at hstage
      exact hstage
    · rename_i a heq
      rw [heq] at hstage
      obtain ⟨b, hb, hrest⟩ := hstage
      refine ⟨b, (hbasis i.sequence ?_).trans hb, hrest⟩
      by_cases hn : i.sequence = j.sequence
      · exact Or.inr ⟨a, hsc.jobs.eq_of_sequence hi.1 hj hn ▸ heq⟩
      · exact Or.inl hn
  kept v s hs := by
    have hkept := hsc.kept v s hs
    have hne := (hkept.finished j hj).symm
    exact
      { isOpen := hkept.isOpen
        made := by
          obtain ⟨b, hb, hanalysis⟩ := hkept.made
          exact ⟨b, (hbasis _ (Or.inl hne)).trans hb, hanalysis⟩
        committed := by
          obtain ⟨r, hr⟩ := hkept.committed
          exact ⟨r, (hcommitted _ hne).trans hr⟩
        notices := hkept.notices
        dependencies := hkept.dependencies
        earlier := hkept.earlier
        finished := hkept.finished
        before := hkept.before }
  connected := hsc.connected
  tags := hsc.tags
  published := hsc.published
  settled v document hdocument := by
    refine (hsc.settled v document hdocument).imp id fun ⟨s, b, r, hs, hb, hr, hrest⟩ => ?_
    have hne := ((hsc.kept v s hs).finished j hj).symm
    exact ⟨s, b, r, hs, (hbasis _ (Or.inl hne)).trans hb, (hcommitted _ hne).trans hr, hrest⟩

/-! ## Parts of steps -/

/-- A job may end if it is not live or there is nothing left to do for its document. -/
theorem Sound.finish (hsc : sc.Sound) (n : Nat)
    (hn : ∀ j document, sc.bench.jobs.Live j → j.sequence = n → sc.document? j.uri = some document →
      document.version = j.version → sc.Settled j.uri document) :
    (sc.withBench (sc.bench.finish n) sc.surroundings.disk).Sound where
  ready := hsc.ready
  cache := hsc.cache
  mirrored := hsc.mirrored
  jobs := hsc.jobs.finish n
  live j hj := hsc.live j (hsc.jobs.live_finish.1 hj).1
  kept v s hs := by
    have hkept := hsc.kept v s hs
    refine hkept.withBench rfl rfl hkept.isOpen rfl (fun _ => Iff.rfl) (Nat.le_of_eq Jobs.count_finish.symm) ?_ ?_
    · exact fun j hj => Or.inl ⟨j, (hsc.jobs.mem_finish.1 hj).1, rfl⟩
    · exact fun j hj => Or.inl ⟨j, (hsc.jobs.live_finish.1 hj).1, rfl, rfl⟩
  connected := hsc.connected
  tags := hsc.tags
  published := hsc.published
  settled v document hdocument := by
    rcases hsc.settled v document hdocument with ⟨j, hj, rfl⟩ | hsettled
    · by_cases hsequence : j.sequence = n
      · obtain ⟨d, hd, hversion, _⟩ := hsc.live j hj
        obtain rfl := Option.some.inj (hdocument.symm.trans hd)
        exact Or.inr (hn j document hj hsequence hdocument hversion)
      · exact Or.inl ⟨j, hsc.jobs.live_finish.2 ⟨hj, hsequence⟩, rfl⟩
    · exact Or.inr hsettled

/-- A live job may come to a stage that is sound for its document. -/
theorem Sound.setStage (hsc : sc.Sound) {j : Job} (hj : sc.bench.jobs.Live j) {stage : JobStage}
    (hstage : ∀ document, sc.document? j.uri = some document → sc.StageSound j document →
      sc.StageSound { j with stage } document) :
    (sc.withBench { sc.bench with jobs := sc.bench.jobs.setStage j.sequence stage } sc.surroundings.disk).Sound where
  ready := hsc.ready
  cache := hsc.cache
  mirrored := hsc.mirrored
  jobs := hsc.jobs.setStage j.sequence stage
  live i hi := by
    obtain ⟨k, hk, rfl⟩ := Jobs.live_setStage.1 hi
    obtain ⟨document, hdocument, hversion, hsound⟩ := hsc.live k hk
    by_cases hsequence : k.sequence = j.sequence
    · obtain rfl := hsc.jobs.eq_of_sequence hk.1 hj.1 hsequence
      rw [if_pos rfl]
      exact ⟨document, hdocument, hversion, hstage document hdocument hsound⟩
    · rw [if_neg hsequence]
      exact ⟨document, hdocument, hversion, hsound⟩
  kept v s hs := by
    have hkept := hsc.kept v s hs
    refine hkept.withBench rfl rfl hkept.isOpen rfl (fun _ => Iff.rfl) (Nat.le_refl _) ?_ ?_
    · intro i hi
      obtain ⟨k, hk, rfl⟩ := Jobs.mem_modify.1 hi
      exact Or.inl ⟨k, hk, by split <;> rfl⟩
    · intro i hi
      obtain ⟨k, hk, rfl⟩ := Jobs.live_setStage.1 hi
      exact Or.inl ⟨k, hk, by split <;> rfl, by split <;> rfl⟩
  connected := hsc.connected
  tags := hsc.tags
  published := hsc.published
  settled v document hdocument := by
    refine (hsc.settled v document hdocument).imp ?_ id
    rintro ⟨i, hi, rfl⟩
    refine ⟨_, Jobs.live_setStage.2 ⟨i, hi, rfl⟩, ?_⟩
    split <;> rfl

/-- Reading files changes only the cache. -/
theorem Sound.afterReads (hsc : sc.Sound) (us : List Uri) :
    (sc.withBench { sc.bench with workspace := sc.workspace.afterReads sc.surroundings.disk us }
      sc.surroundings.disk).Sound := by
  have hcache := Workspace.valid_afterReads us hsc.cache
  obtain ⟨hdocuments, hdependencies, hsnapshots, hconfig⟩ :=
    Workspace.afterReads_parts us sc.workspace sc.surroundings.disk
  cases hworkspace : sc.workspace.afterReads sc.surroundings.disk us with
  | mk documents dependencies snapshots files config =>
  rw [hworkspace] at hcache
  rw [hworkspace] at hdocuments hdependencies hsnapshots hconfig
  obtain rfl : documents = sc.workspace.documents := hdocuments
  obtain rfl : dependencies = sc.workspace.dependencies := hdependencies
  obtain rfl : snapshots = sc.workspace.snapshots := hsnapshots
  obtain rfl : config = sc.workspace.config := hconfig
  exact
    { ready := hsc.ready
      cache := hcache
      mirrored := hsc.mirrored
      jobs := hsc.jobs
      live := hsc.live
      kept := fun v s hs => by
        have hkept := hsc.kept v s hs
        exact hkept.withBench rfl rfl hkept.isOpen rfl (fun _ => Iff.rfl) (Nat.le_refl _)
          (fun j hj => Or.inl ⟨j, hj, rfl⟩) fun j hj => Or.inl ⟨j, hj, rfl, rfl⟩
      connected := hsc.connected
      tags := hsc.tags
      published := hsc.published
      settled := hsc.settled }

/-- The result of a live job is newer than what was sent, unless it is outdated. -/
theorem Sound.accepts (hsc : sc.Sound) {j : Job} (hnewer : ¬ sc.bench.Outdated j) :
    sc.bench.publisher.accepts j.uri ⟨j.version, j.sequence⟩ = true := by
  unfold Publisher.accepts Publisher.last?
  rw [hsc.tags]
  cases hs : sc.kept? j.uri with
  | none => rfl
  | some old => exact Bool.not_eq_false _ |>.mp fun hnot => hnewer ⟨old, hs, hnot⟩

/-- The scene behind a commit that is accepted. -/
def withResult (sc : Scene) (j : Job) (a : Analysis) : Scene :=
  sc.withBench ((sc.bench.accept j a).finish j.sequence) sc.surroundings.disk

theorem kept?_withResult (sc : Scene) (j : Job) (a : Analysis) (v : Uri) :
    (sc.withResult j a).kept? v =
      if j.uri = v then some ⟨sc.workspace.resultOf a, ⟨j.version, j.sequence⟩, false⟩ else sc.kept? v :=
  Workbench.get?_accept _ _ _ _

/-- The new result. -/
theorem Sound.keptSound_self (hsc : sc.Sound) {j : Job} {document : Document} {b : Basis} (hj : sc.bench.jobs.Live j)
    (hdocument : sc.document? j.uri = some document) (hb : sc.basis j.sequence = some b)
    (hcommitted : sc.committed j.sequence = some sc.read) :
    (sc.withResult j (b.analysis sc.surroundings j.uri)).KeptSound j.uri
      ⟨sc.workspace.resultOf (b.analysis sc.surroundings j.uri), ⟨j.version, j.sequence⟩, false⟩ where
  isOpen := ⟨document, hdocument⟩
  made := ⟨b, hb, rfl⟩
  committed := ⟨_, hcommitted⟩
  notices := rfl
  dependencies x := by
    refine Dependencies.mem_forward_replace.trans ?_
    rw [if_pos rfl]
    exact and_iff_left_of_imp fun hx heq => uri_not_mem_dependencies (heq ▸ hx)
  earlier := Nat.le_trans (hsc.jobs.numbers j hj.1) (Nat.le_of_eq Jobs.count_finish.symm)
  finished i hi := (hsc.jobs.mem_finish.1 hi).2
  before i hi huri := absurd huri ((hsc.jobs.live_finish_of_live hj).1 hi).2

/-- The other results. -/
theorem Sound.keptSound_other (hsc : sc.Sound) {j : Job} (a : Analysis) {s : Snapshot Workspace.Result}
    (hv : j.uri ≠ v) (hs : sc.kept? v = some s) : (sc.withResult j a).KeptSound v s := by
  have hkept := hsc.kept v s hs
  refine hkept.withBench rfl rfl hkept.isOpen rfl (fun x => ?_) (Nat.le_of_eq Jobs.count_finish.symm) ?_ ?_
  · refine Dependencies.mem_forward_replace.trans ?_
    rw [if_neg hv]
    exact Iff.rfl
  · exact fun i hi => Or.inl ⟨i, (hsc.jobs.mem_finish.1 hi).1, rfl⟩
  · exact fun i hi => Or.inl ⟨i, (hsc.jobs.live_finish.1 hi).1, rfl, rfl⟩

/-- A live job may commit its result. -/
theorem Sound.accept (hsc : sc.Sound) {j : Job} {a : Analysis} (hj : sc.bench.jobs.Live j)
    (hstage : j.stage = .analyzed a) (hnewer : ¬ sc.bench.Outdated j)
    (hcommitted : sc.committed j.sequence = some sc.read) : (sc.withResult j a).Sound := by
  have haccepts := hsc.accepts hnewer
  obtain ⟨document, hdocument, hversion, hsound⟩ := hsc.live j hj
  unfold StageSound at hsound
  rw [hstage] at hsound
  obtain ⟨b, hb, htext, rfl⟩ := hsound
  have hget := sc.kept?_withResult j (b.analysis sc.surroundings j.uri)
  exact
    { ready := hsc.ready
      cache := hsc.cache
      mirrored := hsc.mirrored.replace _ _
      jobs := hsc.jobs.finish _
      live := fun i hi => hsc.live i (hsc.jobs.live_finish.1 hi).1
      kept := by
        intro v s' hs'
        rw [hget] at hs'
        by_cases hv : j.uri = v
        · subst hv
          rw [if_pos rfl] at hs'
          obtain rfl := Option.some.inj hs'
          exact hsc.keptSound_self hj hdocument hb hcommitted
        · rw [if_neg hv] at hs'
          exact hsc.keptSound_other _ hv hs'
      connected := (Publisher.connected_publish _ _ _ _).trans hsc.connected
      tags := by
        intro v
        refine (Publisher.get?_tags_publish haccepts v).trans ?_
        rw [hget]
        by_cases hv : j.uri = v
        · rw [if_pos hv, if_pos hv]
          rfl
        · rw [if_neg hv, if_neg hv, hsc.tags]
      published := by
        intro v s' hs'
        refine (Publisher.latest?_publish hsc.connected haccepts v).trans ?_
        rw [hget] at hs'
        by_cases hv : j.uri = v
        · rw [if_pos hv] at hs' ⊢
          obtain rfl := Option.some.inj hs'
          rfl
        · rw [if_neg hv] at hs' ⊢
          exact hsc.published v s' hs'
      settled := by
        intro v d hd
        by_cases hv : j.uri = v
        · subst hv
          obtain rfl := Option.some.inj (hdocument.symm.trans hd)
          exact Or.inr ⟨_, b, sc.read, (hget j.uri).trans (if_pos rfl), hb, hcommitted, Int.le_of_eq hversion,
            fun _ => ⟨htext, fun _ _ => rfl⟩⟩
        · rcases hsc.settled v d hd with ⟨i, hi, rfl⟩ | ⟨s, basis, r, hs, hrest⟩
          · exact Or.inl ⟨i, (hsc.jobs.live_finish_of_live hj).2 ⟨hi, Ne.symm hv⟩, rfl⟩
          · exact Or.inr ⟨s, basis, r, (hget v).trans ((if_neg hv).trans hs), hrest⟩ }

/-! ## The steps -/

theorem capture_eq (sc : Scene) (n : Nat) :
    sc.capture n = sc.withBench (sc.bench.captureStep n) sc.surroundings.disk :=
  rfl

theorem Sound.capture (hsc : sc.Sound) (n : Nat) : (sc.capture n).Sound := by
  rw [capture_eq]
  cases Workbench.captureStep_captures hsc.jobs n with
  | unchanged hafter _ =>
    rw [hafter]
    exact hsc
  | ended j hj hn hwhy hafter =>
    rw [hafter]
    refine hsc.finish n fun i document hi hin hdocument hversion => ?_
    -- A live job is never given up here.
    obtain rfl := hsc.jobs.eq_of_sequence hi.1 hj (hin.trans hn.symm)
    rcases hwhy with hcancelled | hdue
    · cases hi.2.symm.trans hcancelled
    · cases hdue.symm.trans (Workbench.isDue_iff.2 ⟨document, hdocument, hversion⟩)
  | captured j document hj hn hdocument hafter =>
    subst hn
    rw [hafter]
    refine hsc.setStage hj fun d hd _ => ?_
    obtain rfl := Option.some.inj (hdocument.symm.trans hd)
    rfl

/-- The record of an analysis. -/
def recordBasis (sc : Scene) (n : Nat) : Scene :=
  { sc with basis := (sc.analyze n).basis }

theorem analyze_eq (sc : Scene) (n : Nat) :
    sc.analyze n = (sc.recordBasis n).withBench (sc.bench.analyzeStep sc.surroundings n) sc.surroundings.disk :=
  rfl

theorem basis_analyze (sc : Scene) (n m : Nat) : (sc.analyze n).basis m =
    if m = n then (sc.capturedText? n).elim (sc.basis n) (fun text => some ⟨text, sc.read⟩) else sc.basis m :=
  rfl

theorem basis_analyze_of_ne {m : Nat} (h : m ≠ n) : (sc.analyze n).basis m = sc.basis m := by
  rw [basis_analyze, if_neg h]

theorem recordBasis_of_none (h : sc.capturedText? n = none) : sc.recordBasis n = sc := by
  unfold recordBasis
  have hbasis : (sc.analyze n).basis = sc.basis := by
    funext m
    rw [basis_analyze, h]
    split
    · rename_i hm
      rw [hm]
      rfl
    · rfl
  rw [hbasis]

theorem Sound.analyze (hsc : sc.Sound) (n : Nat) : (sc.analyze n).Sound := by
  rw [analyze_eq]
  cases Workbench.analyzeStep_analyzes hsc.jobs sc.surroundings n with
  | unchanged hafter hstage =>
    have hnone : sc.capturedText? n = none := by
      rw [Option.eq_none_iff_forall_ne_some]
      intro text hsome
      obtain ⟨j, hj, hn, htext⟩ := (capturedText?_eq_some hsc.jobs).1 hsome
      exact hstage j hj.1 hn text htext
    rw [hafter, recordBasis_of_none hnone]
    exact hsc
  | ended j hj hn hcancelled hafter =>
    have hgone : ∀ i, sc.bench.jobs.Live i → i.sequence ≠ n := by
      intro i hi hin
      obtain rfl := hsc.jobs.eq_of_sequence hi.1 hj (hin.trans hn.symm)
      cases hi.2.symm.trans hcancelled
    have hnone : sc.capturedText? n = none := by
      rw [Option.eq_none_iff_forall_ne_some]
      intro text hsome
      obtain ⟨i, hi, hin, _⟩ := (capturedText?_eq_some hsc.jobs).1 hsome
      exact hgone i hi hin
    rw [hafter, recordBasis_of_none hnone]
    exact hsc.finish n fun i _ hi hin _ _ => absurd hin (hgone i hi)
  | analyzed j text hj hn hstage hafter =>
    subst hn
    have hrecorded : (sc.recordBasis j.sequence).Sound := by
      refine hsc.of_record hj.1 (fun m hm => ?_) fun _ _ => rfl
      rcases hm with hne | ⟨a, hanalyzed⟩
      · exact basis_analyze_of_ne hne
      · cases hstage.symm.trans hanalyzed
    have hbasis : (sc.recordBasis j.sequence).basis j.sequence = some ⟨text, sc.read⟩ := by
      show (sc.analyze j.sequence).basis j.sequence = _
      rw [basis_analyze, if_pos rfl, (capturedText?_eq_some hsc.jobs).2 ⟨j, hj, rfl, hstage⟩]
      rfl
    rw [hafter]
    refine (hrecorded.afterReads _).setStage hj fun document _ hsound => ?_
    unfold StageSound at hsound
    rw [hstage] at hsound
    exact ⟨_, hbasis, hsound, hsc.analyze_fst j.uri text⟩

/-- The record of a commit. -/
def recordCommit (sc : Scene) (n : Nat) : Scene :=
  { sc with committed := (sc.commit n).committed }

theorem commit_eq (sc : Scene) (n : Nat) :
    sc.commit n = (sc.recordCommit n).withBench (sc.bench.commitStep n) sc.surroundings.disk :=
  rfl

theorem committed_commit (sc : Scene) (n m : Nat) : (sc.commit n).committed m =
    if m = n ∧ sc.hasResult n = true then some sc.read else sc.committed m :=
  rfl

theorem Sound.commit (hsc : sc.Sound) (n : Nat) : (sc.commit n).Sound := by
  rw [commit_eq]
  have hrecorded : ∀ j ∈ sc.bench.jobs.unfinished, j.sequence = n → (sc.recordCommit n).Sound := by
    rintro j hj rfl
    refine hsc.of_record hj (fun _ _ => rfl) fun m hm => ?_
    show (sc.commit j.sequence).committed m = _
    rw [committed_commit, if_neg fun h => hm h.1]
  cases Workbench.commitStep_commits hsc.jobs n with
  | unchanged hafter hstage =>
    have hnone : sc.hasResult n ≠ true := by
      intro htrue
      obtain ⟨j, hj, hn, a, ha⟩ := (hasResult_iff hsc.jobs).1 htrue
      exact hstage j hj hn a ha
    have hself : sc.recordCommit n = sc := by
      unfold recordCommit
      have hcommitted : (sc.commit n).committed = sc.committed := by
        funext m
        rw [committed_commit, if_neg fun h => hnone h.2]
      rw [hcommitted]
    rw [hafter, hself]
    exact hsc
  | ended j a hj hn hstage hwhy hafter =>
    rw [hafter]
    refine (hrecorded j hj hn).finish n fun i document hi hin hdocument hversion => ?_
    obtain rfl := hsc.jobs.eq_of_sequence hi.1 hj (hin.trans hn.symm)
    rcases hwhy with hcancelled | hdue | ⟨old, hold, hnewer⟩
    · cases hi.2.symm.trans hcancelled
    · cases hdue.symm.trans (Workbench.isDue_iff.2 ⟨document, hdocument, hversion⟩)
    · -- The kept result has a smaller number, so only its version can make it newer.
      have hkept := (hrecorded i hi.1 hn).kept i.uri old hold
      obtain ⟨b, hb, _⟩ := hkept.made
      obtain ⟨r, hr⟩ := hkept.committed
      have hlater : i.version < old.tag.version := Tag.version_lt_of_not_newer hnewer (hkept.before i hi rfl)
      rw [← hversion] at hlater
      exact ⟨old, b, r, hold, hb, hr, Int.le_of_lt hlater, fun heq => absurd heq (Int.ne_of_gt hlater)⟩
  | accepted j a hj hn hstage hdue hnewer hafter =>
    subst hn
    rw [hafter]
    refine (hrecorded j hj.1 rfl).accept hj hstage hnewer ?_
    show (sc.commit j.sequence).committed j.sequence = _
    rw [committed_commit, if_pos ⟨rfl, (hasResult_iff hsc.jobs).2 ⟨j, hj.1, rfl, a, hstage⟩⟩]
    rfl

/-! ## Runs -/

/-- **Every event of which the client tells as it should keeps the invariant.** -/
theorem Sound.step (hsc : sc.Sound) {e : Event} (he : sc.Announced e) : (sc.step e).Sound := by
  cases e with
  | opened u document => exact (follows_opened hsc u document).sound hsc
  | changed u version changes =>
    cases h : sc.workspace.changeDocument u version changes with
    | error _ =>
      rw [step_changed_error hsc h]
      exact hsc
    | ok workspace => exact (follows_changed hsc h).sound hsc
  | closed u => exact (follows_closed hsc u).sound hsc
  | filesChanged disk us => exact (follows_filesChanged hsc he).sound hsc
  | captured n => exact hsc.capture n
  | analyzed n => exact hsc.analyze n
  | committed n => exact hsc.commit n
  | ran n => exact ((hsc.capture n).analyze n).commit n

theorem sound_start (base : Config) (surroundings : Surroundings) (id : Server.RequestId) (client : Server.ClientInfo) :
    (start base surroundings id client).Sound := by
  have hkept : ∀ u, (start base surroundings id client).kept? u = none := fun u => Maps.get?_empty u
  have hdocument : ∀ u, (start base surroundings id client).document? u = none := fun u => Maps.get?_empty u
  exact
    { ready := rfl
      cache := FileCache.valid_empty _
      mirrored := Dependencies.mirrored_empty
      jobs := Jobs.sound_empty
      live := fun j hj => absurd hj.1 List.not_mem_nil
      kept := fun u s hs => by cases (hkept u).symm.trans hs
      connected := rfl
      tags := fun u => by
        rw [hkept]
        exact Maps.get?_empty u
      published := fun u s hs => by cases (hkept u).symm.trans hs
      settled := fun u document hd => by cases (hdocument u).symm.trans hd }

/-- The moments of the first events of a run are moments of the run. -/
theorem Moment.of_append {es more : List Event} {before : Scene} {e : Event} (h : Moment sc es before e) :
    Moment sc (es ++ more) before e := by
  obtain ⟨done, rest, rfl, rfl⟩ := h
  exact ⟨done, rest ++ more, by rw [List.append_assoc, List.cons_append], rfl⟩

theorem run_append (sc : Scene) (es : List Event) (e : Event) : sc.run (es ++ [e]) = (sc.run es).step e := by
  unfold run
  rw [List.foldl_append]
  rfl

theorem disk_run (es : List Event) (h : ∀ disk us, Event.filesChanged disk us ∈ es → disk = sc.surroundings.disk) :
    (sc.run es).surroundings.disk = sc.surroundings.disk := by
  induction es using List.reverseRecOn with
  | nil => rfl
  | append_singleton es e ih =>
    rw [run_append]
    cases e with
    | filesChanged disk us => exact h disk us (List.mem_append_right _ List.mem_cons_self)
    | opened | changed | closed | captured | analyzed | committed | ran =>
      exact ih fun disk us hmem => h disk us (List.mem_append_left _ hmem)

/-- If the disk stays as it is, there is nothing that the client would have to tell. -/
theorem announced_of_disk {es : List Event}
    (h : ∀ disk us, Event.filesChanged disk us ∈ es → disk = sc.surroundings.disk) {before : Scene} {e : Event}
    (hmoment : Moment sc es before e) : before.Announced e := by
  obtain ⟨done, rest, rfl, rfl⟩ := hmoment
  cases e with
  | filesChanged disk us =>
    have hdisk := h disk us (List.mem_append_right _ List.mem_cons_self)
    have hdone := disk_run done fun disk us hmem => h disk us (List.mem_append_left _ hmem)
    intro v _ hchanged
    rw [hdisk, hdone] at hchanged
    exact absurd rfl hchanged
  | opened | changed | closed | captured | analyzed | committed | ran => trivial

/-- **The invariant holds behind every list of events.** -/
theorem Sound.run (hsc : sc.Sound) (es : List Event) (h : ∀ before e, Moment sc es before e → before.Announced e) :
    (sc.run es).Sound := by
  induction es using List.reverseRecOn with
  | nil => exact hsc
  | append_singleton es e ih =>
    rw [run_append]
    exact (ih fun before e' hmoment => h before e' hmoment.of_append).step (h _ e ⟨es, [], rfl, rfl⟩)

/-- A scene that events lead to when the client tells of files as it should. -/
def Reached (sc : Scene) : Prop :=
  ∃ base surroundings id client es,
    (∀ before e, Moment (start base surroundings id client) es before e → before.Announced e) ∧
      (start base surroundings id client).run es = sc

theorem reached_of_disk {base : Config} {surroundings : Surroundings} {id : Server.RequestId}
    {client : Server.ClientInfo} {es : List Event}
    (h : ∀ disk us, Event.filesChanged disk us ∈ es → disk = surroundings.disk) :
    ((start base surroundings id client).run es).Reached :=
  ⟨base, surroundings, id, client, es, fun _ _ => announced_of_disk h, rfl⟩

theorem Reached.sound (h : sc.Reached) : sc.Sound := by
  obtain ⟨base, surroundings, id, client, es, hannounced, rfl⟩ := h
  exact (sound_start base surroundings id client).run es hannounced

end LgLang.Scene
