import LgLang.Proofs.Server.Answers
import LgLang.Proofs.Server.LockStep

/-!
# Documents that are opened

An opened document gets a job, which nothing but a message can cancel: if it ends before the next message, it has come
to its commit, and there the tag of its result is compared with that of what is kept (`Outcome`). Its number is the
highest so far (`Numbered`). So the result is kept and published unless the document was open before and what is kept
has a later version (`keepsOpened_iff`); then the result is dropped, and the client is left with findings of a text that
is gone.
-/

namespace LgLang

open Workspace (Document Job Jobs Result Snapshot Tag)

namespace Workbench

variable {b b' : Workbench} {u : Uri} {n : Nat}

/-! ## Numbers of kept results -/

/-- What is kept was found by jobs that have been asked for. -/
def Numbered (b : Workbench) : Prop :=
  ∀ u result tag, b.kept? u = some (result, tag) → tag.sequence ≤ b.jobs.count

theorem Numbered.congr (h : b.Numbered) (hkept : ∀ u, b'.kept? u = b.kept? u) (hcount : b'.jobs.count = b.jobs.count) :
    b'.Numbered := by
  intro u result tag hu
  rw [hcount]
  exact h u result tag ((hkept u).symm.trans hu)

theorem numbered_start (config : Config) : (start config).Numbered := by
  intro u result tag h
  have hnone : (start config).kept? u = none := congrArg (Option.map _) (Maps.get?_empty u)
  rw [hnone] at h
  cases h

theorem Numbered.follows (h : b.Numbered) {closed : Option Uri} (hfollows : b.Follows b' closed) : b'.Numbered := by
  intro u result tag hu
  rw [hfollows.kept] at hu
  split at hu
  · cases hu
  · exact Nat.le_trans (h u result tag hu) hfollows.count

theorem Numbered.captureStep (h : b.Numbered) (hsound : b.jobs.Sound) (n : Nat) : (b.captureStep n).Numbered := by
  cases captureStep_captures hsound n with
  | unchanged hafter _ | captured _ _ _ _ _ hafter =>
    rw [hafter]
    exact h.congr (fun _ => rfl) rfl
  | ended _ _ _ _ hafter =>
    rw [hafter]
    exact h.congr (fun _ => rfl) Jobs.count_finish

theorem Numbered.analyzeStep (h : b.Numbered) (hsound : b.jobs.Sound) (sur : Surroundings) (n : Nat) :
    (b.analyzeStep sur n).Numbered := by
  have hkept : ∀ u, (b.analyzeStep sur n).kept? u = b.kept? u := by
    intro u
    unfold kept?
    rw [snapshots_analyzeStep hsound]
  refine h.congr hkept ?_
  cases analyzeStep_analyzes hsound sur n with
  | unchanged hafter _ | analyzed _ _ _ _ _ hafter => exact congrArg (·.jobs.count) hafter
  | ended _ _ _ _ hafter => exact (congrArg (·.jobs.count) hafter).trans Jobs.count_finish

theorem Numbered.commitStep (h : b.Numbered) (hsound : b.jobs.Sound) (n : Nat) : (b.commitStep n).Numbered := by
  cases commitStep_commits hsound n with
  | unchanged hafter _ => rwa [hafter]
  | ended _ _ _ _ _ _ hafter =>
    rw [hafter]
    exact h.congr (fun _ => rfl) Jobs.count_finish
  | accepted j a hj _ _ _ _ hafter =>
    have haccept : (b.accept j a).Numbered := by
      intro u result tag hu
      obtain ⟨snapshot, hsnapshot, hpair⟩ := Option.map_eq_some_iff.1 hu
      obtain ⟨-, rfl⟩ := Prod.mk.inj hpair
      rw [get?_accept] at hsnapshot
      split at hsnapshot
      · obtain rfl := Option.some.inj hsnapshot
        exact hsound.numbers j hj.1
      · exact h u snapshot.content snapshot.tag (congrArg (Option.map _) hsnapshot)
    rw [hafter]
    exact haccept.congr (fun _ => rfl) Jobs.count_finish

theorem lasting_numbered : Server.Lasting Numbered where
  follows h hfollows := h.follows hfollows
  captured n h hsound := h.captureStep hsound n
  analyzed sur n h hsound := h.analyzeStep hsound sur n
  committed n h hsound := h.commitStep hsound n

/-! ## Steps beside a document -/

/-- What is kept for a document is not different, and its job has not ended. -/
structure Quiet (b b' : Workbench) (u : Uri) : Prop where
  snapshot : b'.workspace.snapshots.get? u = b.workspace.snapshots.get? u
  config : b'.workspace.config = b.workspace.config
  pending : b'.jobs.pending.get? u = b.jobs.pending.get? u

theorem Quiet.refl (b : Workbench) (u : Uri) : b.Quiet b u :=
  ⟨rfl, rfl, rfl⟩

/-- The end of another job. -/
theorem quiet_finish (h : b.jobs.Sound) (hother : ∀ j, b.jobs.Live j → j.uri = u → j.sequence ≠ n) :
    b.Quiet (b.finish n) u :=
  ⟨rfl, rfl, h.pending_finish_of_ne hother⟩

/-- A live job is due. -/
theorem AllWorking.isDue (h : b.AllWorking) {j : Job} (hj : b.jobs.Live j) : b.isDue j = true := by
  obtain ⟨d, hd⟩ := h.working j hj
  exact isDue_iff.2 ⟨d, hd.document, hd.version⟩

theorem quiet_captureStep (h : b.AllWorking) (n : Nat) (u : Uri) : b.Quiet (b.captureStep n) u := by
  cases captureStep_captures h.sound n with
  | unchanged hafter _ =>
    rw [hafter]
    exact .refl b u
  | ended j hj hn hwhy hafter =>
    rw [hafter]
    refine quiet_finish h.sound fun i hi _ hin => ?_
    obtain rfl := h.sound.eq_of_sequence hi.1 hj (hin.trans hn.symm)
    rcases hwhy with hcancelled | hdue
    · exact Bool.noConfusion (hi.2.symm.trans hcancelled)
    · exact Bool.noConfusion (hdue.symm.trans (h.isDue hi))
  | captured _ _ _ _ _ hafter =>
    rw [hafter]
    exact ⟨rfl, rfl, rfl⟩

theorem quiet_analyzeStep (h : b.AllWorking) (sur : Surroundings) (n : Nat) (u : Uri) :
    b.Quiet (b.analyzeStep sur n) u := by
  cases analyzeStep_analyzes h.sound sur n with
  | unchanged hafter _ =>
    rw [hafter]
    exact .refl b u
  | ended j hj hn hcancelled hafter =>
    rw [hafter]
    refine quiet_finish h.sound fun i hi _ hin => ?_
    obtain rfl := h.sound.eq_of_sequence hi.1 hj (hin.trans hn.symm)
    exact Bool.noConfusion (hi.2.symm.trans hcancelled)
  | analyzed j text _ _ _ hafter =>
    obtain ⟨-, -, hsnapshots, hconfig⟩ :=
      Workspace.afterReads_parts (documentReads (b.workspace.context sur) j.uri text) b.workspace sur.disk
    rw [hafter]
    exact ⟨congrArg (Workspace.Snapshots.get? · u) hsnapshots, hconfig, rfl⟩

/-- A commit is one of another document's job, or it is that of the document's own. -/
theorem quiet_commitStep_or (h : b.AllWorking) (n : Nat) (u : Uri) : b.Quiet (b.commitStep n) u ∨
    ∃ j a, b.jobs.Live j ∧ j.uri = u ∧ j.stage = .analyzed a ∧ b.commitStep n = (b.commit j a).finish j.sequence := by
  have hother : ∀ {j : Job}, j ∈ b.jobs.unfinished → j.sequence = n → ¬(b.jobs.Live j ∧ j.uri = u) →
      ∀ i, b.jobs.Live i → i.uri = u → i.sequence ≠ n := by
    intro j hj hn hnot i hi hu hin
    obtain rfl := h.sound.eq_of_sequence hi.1 hj (hin.trans hn.symm)
    exact hnot ⟨hi, hu⟩
  cases commitStep_commits h.sound n with
  | unchanged hafter _ =>
    rw [hafter]
    exact Or.inl (.refl b u)
  | ended j a hj hn hstage hwhy hafter =>
    by_cases hown : b.jobs.Live j ∧ j.uri = u
    · exact Or.inr ⟨j, a, hown.1, hown.2, hstage, by rw [hafter, b.commit_eq_self j a hwhy, hn]⟩
    · rw [hafter]
      exact Or.inl (quiet_finish h.sound (hother hj hn hown))
  | accepted j a hj hn hstage hdue hnewer hafter =>
    by_cases hu : j.uri = u
    · exact Or.inr ⟨j, a, hj, hu, hstage, by rw [hafter, b.commit_eq j a hj.2 hdue hnewer, hn]⟩
    · rw [hafter]
      refine Or.inl ⟨?_, rfl, h.sound.pending_finish_of_ne (hother hj.1 hn fun hown => hu hown.2)⟩
      exact (get?_accept b j a u).trans (if_neg hu)

/-! ## The way of a job -/

/-- How far the work for a document has come, whose job finds results under a tag: the job has not ended, or its result
is kept, or what was kept `before` is as new as that. -/
inductive Outcome (b : Workbench) (u : Uri) (d : Document) (tag : Tag) (before : Option (Snapshot Result)) : Prop where
  | atWork (hpending : b.jobs.pending.get? u = some tag.sequence) (hkept : b.workspace.snapshots.get? u = before)
  | accepted (hpending : b.jobs.pending.get? u = none) (hnewer : ∀ old, before = some old → tag.newer old.tag = true)
      (ctx : AnalysisContext) (hkept : b.workspace.snapshots.get? u =
        some ⟨b.workspace.resultOf (analyzeDocument ctx u d.content), tag, false⟩)
  | rejected (hpending : b.jobs.pending.get? u = none) (old : Snapshot Result) (hbefore : before = some old)
      (hnot : tag.newer old.tag = false) (hkept : b.workspace.snapshots.get? u = some old)

variable {d : Document} {tag : Tag} {before : Option (Snapshot Result)}

theorem Outcome.quiet (h : b.Outcome u d tag before) (hquiet : b.Quiet b' u) : b'.Outcome u d tag before := by
  cases h with
  | atWork hpending hkept => exact .atWork (hquiet.pending.trans hpending) (hquiet.snapshot.trans hkept)
  | accepted hpending hnewer ctx hkept =>
    refine .accepted (hquiet.pending.trans hpending) hnewer ctx ?_
    rw [Workspace.resultOf, hquiet.config]
    exact hquiet.snapshot.trans hkept
  | rejected hpending old hbefore hnot hkept =>
    exact .rejected (hquiet.pending.trans hpending) old hbefore hnot (hquiet.snapshot.trans hkept)

/-- The commit of the document's job decides. -/
theorem Outcome.commit (h : b.Outcome u d tag before) (hwork : b.AllWorking)
    (hdocument : b.workspace.documents.get? u = some d) (hversion : tag.version = d.version) {j : Job} {a : Analysis}
    (hj : b.jobs.Live j) (hu : j.uri = u) (hstage : j.stage = .analyzed a) :
    ((b.commit j a).finish j.sequence).Outcome u d tag before := by
  subst hu
  have hpending : b.jobs.pending.get? j.uri = some j.sequence := (hwork.sound.pending _ _).2 ⟨j, hj, rfl, rfl⟩
  have hnone : (b.jobs.finish j.sequence).pending.get? j.uri = none := hwork.sound.pending_finish_self hj
  obtain ⟨d', hd⟩ := hwork.working j hj
  obtain rfl : d' = d := Option.some.inj (hd.document.symm.trans hdocument)
  cases h with
  | accepted hnotPending _ _ _ | rejected hnotPending _ _ _ _ => cases hnotPending.symm.trans hpending
  | atWork hsequence hkept =>
    obtain rfl : tag = ⟨j.version, j.sequence⟩ := by
      have hsequence := Option.some.inj (hsequence.symm.trans hpending)
      exact Tag.mk.injEq .. ▸ ⟨hversion.trans hd.version, hsequence⟩
    by_cases houtdated : b.Outdated j
    · obtain ⟨old, hold, hnot⟩ := houtdated
      rw [b.commit_eq_self j a (Or.inr (Or.inr ⟨old, hold, hnot⟩))]
      exact .rejected hnone old (hkept.symm.trans hold) hnot hold
    · obtain ⟨ctx, rfl⟩ := hd.analyzed a hstage
      rw [b.commit_eq j _ hj.2 (hwork.isDue hj) houtdated]
      refine .accepted hnone (fun old hold => ?_) ctx ((get?_accept b j _ j.uri).trans (if_pos rfl))
      exact Bool.not_eq_false _ |>.mp fun hnot => houtdated ⟨old, hkept.trans hold, hnot⟩

end Workbench

/-- A shutdown that has been carried through is the end of the session. -/
theorem Session.exited_of_apply {session session' : Session} {e : SessionEvent} (h : session.apply e = .ok session')
    (hover : session.cleanlyShutDown = true → session.state = .exited) :
    session'.cleanlyShutDown = true → session'.state = .exited := by
  intro hclean
  unfold Session.apply at h
  cases hnext : session.state.next e with
  | error _ =>
    rw [hnext] at h
    cases h
  | ok target =>
    rw [hnext] at h
    obtain rfl := Except.ok.inj h
    have hstate : session.state = .exited ∨ session.state = .shuttingDown := by
      rcases Bool.or_eq_true_iff.1 hclean with hbefore | hdown
      · exact Or.inl (hover hbefore)
      · exact Or.inr (beq_iff_eq.1 hdown)
    rcases hstate with hstate | hstate <;> rw [hstate] at hnext <;> cases e <;> cases hnext <;> rfl

namespace Server

variable {s : Server} {u : Uri} {d : Document}

/-! ## Ready sessions -/

/-- What a message does to a session: nothing, or the session takes an event. -/
def Moves (session session' : Session) : Prop :=
  session' = session ∨ ∃ e, session.apply e = .ok session'

theorem moves_onSession (s : Server) (e : SessionEvent) : Moves s.session (s.onSession e).session := by
  unfold onSession
  cases happly : s.session.apply e with
  | ok session => exact Or.inr ⟨e, happly⟩
  | error _ => exact Or.inl rfl

theorem moves_onRequest (s : Server) (sur : Surroundings) (id : RequestId) (method : String) (r : Request) :
    Moves s.session (s.onRequest sur id method r).session := by
  unfold onRequest
  split
  · unfold onStart
    split
    · exact Or.inl rfl
    · next happly => exact Or.inr ⟨_, happly⟩
  · exact Or.inl rfl
  · unfold onShutdown
    split
    · exact Or.inl rfl
    · next happly => exact Or.inr ⟨_, happly⟩
  all_goals
    split
    · exact Or.inl rfl
    · exact Or.inl rfl

theorem session_onDocument (s : Server) (n : Notification) : (s.onDocument n).session = s.session := by
  unfold onDocument
  cases n with
  | didChange u version changes =>
    dsimp only
    split <;> rfl
  | didOpen | didSave | didClose | didChangeFiles | cancel | initialized | exit | ignored => dsimp only [cancelWorkers]

theorem moves_receive (s : Server) (sur : Surroundings) (m : Incoming) : Moves s.session (s.receive sur m).session := by
  unfold receive
  split
  · exact Or.inl rfl
  · cases m with
    | request id method params => exact moves_onRequest s sur id method _
    | response => exact Or.inl rfl
    | notification method params =>
      show Moves s.session (s.onNotification _).session
      unfold onNotification
      split
      · exact moves_onSession s .exitNotice
      · exact moves_onSession s .initializedNotice
      · split
        · exact Or.inl (session_onDocument s _)
        · exact Or.inl rfl

/-- Only messages move a session. -/
theorem session_step {e : Event} (he : ∀ sur m, e ≠ .received sur m) : (s.step e).session = s.session :=
  session_occur (i := .event e) (fun sur m him => he sur m (by cases him; rfl)) s

/-- A session that has been shut down is not ready. -/
theorem not_isShutDown_of_ready (base : Config) (es : List Event) (h : ((start base).run es).session.state = .ready) :
    ¬((start base).run es).IsShutDown := by
  have hover : ((start base).run es).session.cleanlyShutDown = true →
      ((start base).run es).session.state = .exited := by
    clear h
    induction es using List.reverseRecOn with
    | nil => exact fun hclean => Bool.noConfusion hclean
    | append_singleton es e ih =>
      have hlast : (start base).run (es ++ [e]) = ((start base).run es).step e := List.foldl_concat ..
      rw [hlast]
      by_cases he : ∃ sur m, e = .received sur m
      · obtain ⟨sur, m, rfl⟩ := he
        rcases moves_receive ((start base).run es) sur m with hsame | ⟨event, happly⟩
        · show (Server.receive _ sur m).session.cleanlyShutDown = true → (Server.receive _ sur m).session.state = _
          rw [hsame]
          exact ih
        · exact Session.exited_of_apply happly ih
      · rw [session_step fun sur m heq => he ⟨sur, m, heq⟩]
        exact ih
  rintro (hstate | hclean)
  · cases h.symm.trans hstate
  · cases h.symm.trans (hover hclean)

/-! ## Between two messages -/

section Work

variable {tag : Tag} {before : Option (Snapshot Result)} {e : Event}

theorem bench_respondStep (s : Server) (number : Nat) : (s.respondStep number).bench = s.bench := by
  unfold respondStep
  split
  · rfl
  · split
    · rfl
    · split <;> rfl

/-- A step that is no message is quiet for a document, or it is the commit of its job. -/
theorem quiet_step_or (hwork : s.AtWork) (he : ∀ sur m, e ≠ .received sur m) (u : Uri) :
    s.bench.Quiet (s.step e).bench u ∨ ∃ j a, s.bench.jobs.Live j ∧ j.uri = u ∧ j.stage = .analyzed a ∧
      (s.step e).bench = (s.bench.commit j a).finish j.sequence := by
  cases e with
  | received sur m => exact absurd rfl (he sur m)
  | captured n => exact Or.inl (Workbench.quiet_captureStep hwork.working n u)
  | analyzed sur n => exact Or.inl (Workbench.quiet_analyzeStep hwork.working sur n u)
  | committed n => exact Workbench.quiet_commitStep_or hwork.working n u
  | answered sur number =>
    left
    show s.bench.Quiet (s.answerStep sur number).bench u
    unfold answerStep
    split
    · next request _ _ _ =>
      obtain ⟨us, hus⟩ := s.workspace.answer_afterReads sur request
      obtain ⟨-, -, hsnapshots, hconfig⟩ := Workspace.afterReads_parts us s.workspace sur.disk
      rw [← hus] at hsnapshots hconfig
      exact ⟨congrArg (Workspace.Snapshots.get? · u) hsnapshots, hconfig, rfl⟩
    · exact .refl _ u
  | responded number =>
    left
    show s.bench.Quiet (s.respondStep number).bench u
    rw [bench_respondStep]
    exact .refl _ u

/-- Only messages change documents. -/
theorem documents_step (hwork : s.AtWork) (he : ∀ sur m, e ≠ .received sur m) :
    (s.step e).workspace.documents = s.workspace.documents := by
  have hsound := hwork.working.sound
  cases e with
  | received sur m => exact absurd rfl (he sur m)
  | captured n => exact (Workbench.captureStep_advances hsound n).documents
  | analyzed sur n => exact (Workbench.analyzeStep_advances hsound sur n).documents
  | committed n => exact (Workbench.commitStep_advances hsound n).documents
  | answered sur number =>
    show (s.answerStep sur number).workspace.documents = _
    unfold answerStep
    split
    · next request _ _ _ => exact (s.workspace.answer_parts sur request).1
    · rfl
  | responded number => exact congrArg (·.workspace.documents) (bench_respondStep s number)

theorem outcome_step (hwork : s.AtWork) (he : ∀ sur m, e ≠ .received sur m)
    (hdocument : s.workspace.documents.get? u = some d) (hversion : tag.version = d.version)
    (h : s.bench.Outcome u d tag before) : (s.step e).bench.Outcome u d tag before := by
  rcases quiet_step_or hwork he u with hquiet | ⟨j, a, hj, hu, hstage, hcommit⟩
  · exact h.quiet hquiet
  · rw [hcommit]
    exact h.commit hwork.working hdocument hversion hj hu hstage

theorem outcome_run {es : List Event} (hwork : s.AtWork) (hes : ∀ e ∈ es, ∀ sur m, e ≠ .received sur m)
    (hdocument : s.workspace.documents.get? u = some d) (hversion : tag.version = d.version)
    (h : s.bench.Outcome u d tag before) : (s.run es).bench.Outcome u d tag before := by
  induction es generalizing s with
  | nil => exact h
  | cons e es ih =>
    have he := hes e List.mem_cons_self
    have hdocument' : (s.step e).workspace.documents.get? u = some d := by
      rw [documents_step hwork he]
      exact hdocument
    exact ih (hwork.step e) (fun e' he' => hes e' (List.mem_cons_of_mem _ he')) hdocument'
      (outcome_step hwork he hdocument hversion h)

theorem session_run {es : List Event} (hes : ∀ e ∈ es, ∀ sur m, e ≠ .received sur m) :
    (s.run es).session = s.session := by
  induction es generalizing s with
  | nil => rfl
  | cons e es ih =>
    exact (ih fun e' he' => hes e' (List.mem_cons_of_mem _ he')).trans (session_step (hes e List.mem_cons_self))

end Work

/-! ## Opening -/

/-- The server when a document is opened. -/
def opened (s : Server) (u : Uri) (d : Document) : Server :=
  s.onDocument (.didOpen u d)

theorem receive_didOpen (hready : s.session.state = .ready) {method : String} {params : Json}
    (hopen : Notification.ofParams method params = .didOpen u d) (sur : Surroundings) :
    s.receive sur (.notification method params) = s.opened u d := by
  have hstopped : s.isStopped = false := by
    unfold isStopped
    rw [hready]
    rfl
  unfold receive
  rw [hstopped, if_neg Bool.false_ne_true]
  show s.onNotification (.ofParams method params) = _
  rw [hopen]
  unfold onNotification
  simp only [hready, SessionState.isReady, beq_self_eq_true, if_true, opened]

theorem documents_opened (s : Server) (u : Uri) (d : Document) :
    (s.workspace.openDocument u d).documents.get? u = some d :=
  (Workspace.Documents.get?_opened s.workspace.documents u d u).trans (if_pos rfl)

/-- The job of an opened document is asked for first, and then those of its dependents. -/
theorem bench_opened (s : Server) (u : Uri) (d : Document) :
    (s.opened u d).bench = Workbench.scheduleDependents { s.bench with
      workspace := s.workspace.openDocument u d
      jobs := s.bench.jobs.schedule u d.version 0 } u s.debounce := by
  refine congrArg (Workbench.scheduleDependents · u s.debounce) ?_
  show (Workbench.schedule _ u 0).1 = _
  unfold Workbench.schedule
  simp only [documents_opened]

/-- An opened document has a job under the next number. -/
theorem outcome_opened (hwork : s.AtWork) (u : Uri) (d : Document) :
    (s.opened u d).workspace.documents.get? u = some d ∧
      (s.opened u d).bench.Outcome u d ⟨d.version, s.bench.jobs.count + 1⟩ (s.workspace.snapshots.get? u) := by
  have hothers := Workbench.scheduleDependents_rescheduled (b := { s.bench with
    workspace := s.workspace.openDocument u d
    jobs := s.bench.jobs.schedule u d.version 0 }) (hwork.working.sound.schedule u d.version 0) u s.debounce
  rw [← bench_opened] at hothers
  -- The dependents of the document are other documents, so its job stays.
  have hnot : u ∉ (s.workspace.openDocument u d).openDependents u := fun hmem =>
    (Workspace.Dependencies.mem_affected.1 (Workspace.mem_openDependents.1 hmem).1).1 rfl
  have hlive : (s.opened u d).bench.jobs.Live ⟨u, d.version, s.bench.jobs.count + 1, 0, false, .waiting⟩ :=
    hothers.kept _ (hwork.working.sound.live_schedule.2 (Or.inl rfl)) hnot
  have hworkspace : (s.opened u d).bench.workspace = s.workspace.openDocument u d := hothers.workspace
  refine ⟨?_, .atWork ?_ ?_⟩
  · rw [workspace, hworkspace]
    exact documents_opened s u d
  · exact (hothers.sound.pending _ _).2 ⟨_, hlive, rfl, rfl⟩
  · rw [hworkspace]
    rfl

/-- For a document that was opened its text and version are kept as they are, and what was found has been published. -/
def KeepsOpened (s : Server) (u : Uri) (d : Document) : Prop :=
  ∃ snapshot ctx, s.workspace.snapshots.get? u = some snapshot ∧ snapshot.isCurrent d.version = true ∧
    snapshot.content = s.workspace.resultOf (analyzeDocument ctx u d.content) ∧
    s.bench.publisher.lastSent? u = some ⟨u, some d.version, snapshot.content.notices⟩

/-- Where the job of a document has ended, its result is kept and published unless an earlier one is of a later
version. -/
theorem keepsOpened_of_outcome {n : Nat} {before : Option (Snapshot Result)}
    (h : s.bench.Outcome u d ⟨d.version, n⟩ before)
    (hended : s.bench.jobs.pending.get? u = none) (hinStep : s.bench.InStep)
    (hnumber : ∀ old, before = some old → old.tag.sequence < n) :
    KeepsOpened s u d ↔ ∀ old, before = some old → old.tag.version ≤ d.version := by
  cases h with
  | atWork hpending _ => cases hended.symm.trans hpending
  | accepted _ hnewer ctx hkept =>
    constructor
    · intro _ old hold
      have hlater := Workspace.Tag.newer_iff.1 (hnewer old hold)
      dsimp only at hlater
      omega
    · intro _
      have hcurrent : Snapshot.isCurrent ⟨s.workspace.resultOf (analyzeDocument ctx u d.content), ⟨d.version, n⟩, false⟩
          d.version = true := by
        simp [Snapshot.isCurrent]
      exact ⟨_, ctx, hkept, hcurrent, rfl, hinStep.kept u _ _ (congrArg (Option.map _) hkept)⟩
  | rejected _ old hold hnot hkept =>
    constructor
    · rintro ⟨snapshot, ctx, hsnapshot, hcurrent, -⟩ old' hold'
      -- What is kept is what was kept before, and so that has the version of the document.
      obtain rfl := Option.some.inj (hkept.symm.trans hsnapshot)
      obtain rfl := Option.some.inj (hold.symm.trans hold')
      exact Int.le_of_eq (beq_iff_eq.1 (Bool.and_eq_true_iff.1 hcurrent).2)
    · intro hversions
      have hversion := hversions old hold
      have hsequence := hnumber old hold
      have hnotLater := mt Workspace.Tag.newer_iff.2 (Bool.eq_false_iff.1 hnot)
      dsimp only at hnotLater
      omega

/-- **An opened document is kept and published as it is, exactly if no later version of it was kept before.** The job
that opening asks for has ended, and no message has come in between. -/
theorem keepsOpened_iff (base : Config) (es work : List Event) (sur : Surroundings) {method : String} {params : Json}
    (hready : ((start base).run es).session.state = .ready)
    (hopen : Notification.ofParams method params = .didOpen u d) (hwork : ∀ e ∈ work, ∀ sur m, e ≠ .received sur m)
    (hended : ((start base).run (es ++ .received sur (.notification method params) :: work)).bench.jobs.pending.get? u =
      none) :
    KeepsOpened ((start base).run (es ++ .received sur (.notification method params) :: work)) u d ↔
      ∀ old, ((start base).run es).workspace.snapshots.get? u = some old → old.tag.version ≤ d.version := by
  have hrun : (start base).run (es ++ .received sur (.notification method params) :: work) =
      (((start base).run es).opened u d).run work := by
    rw [← receive_didOpen hready hopen sur]
    exact List.foldl_append
  have hbefore : ((start base).run es).AtWork := (atWork_start base).run es
  have hup := not_isShutDown_of_ready base es hready
  have hopened : (((start base).run es).opened u d).AtWork := by
    rw [← receive_didOpen hready hopen sur]
    exact hbefore.step (.received sur (.notification method params))
  obtain ⟨hdocument, hwaiting⟩ := outcome_opened hbefore u d
  have houtcome := outcome_run hopened hwork hdocument rfl hwaiting
  have hinStep : ((((start base).run es).opened u d).run work).bench.InStep := by
    rw [← hrun]
    refine lasting_inStep.run (atWork_start base) (fun _ => Workbench.inStep_start base) _ ?_
    rw [hrun]
    unfold IsShutDown
    rw [session_run hwork, opened, session_onDocument]
    exact hup
  have hnumbered : ((start base).run es).bench.Numbered :=
    Workbench.lasting_numbered.run (atWork_start base) (fun _ => Workbench.numbered_start base) es hup
  rw [hrun] at hended ⊢
  refine keepsOpened_of_outcome houtcome hended hinStep fun old hold => Nat.lt_succ_of_le ?_
  exact hnumbered u old.content old.tag (congrArg (Option.map _) hold)

def mainUri : Uri :=
  ⟨"file:///project/main.lg"⟩

/-- How a client opens `main.lg`. -/
def openParams (d : Document) : Json :=
  .obj [("textDocument", .obj [("uri", .str mainUri.text), ("languageId", .str d.language), ("version", .int d.version),
    ("text", .str d.content)])]

/-- The document is open under version 2, and its job has committed. -/
def openedUnderTwo : List Event :=
  [.received bare (.request (.number 1) "initialize" (.obj [("capabilities", .obj [])])), told "initialized" (.obj []),
    told "textDocument/didOpen" (openParams ⟨2, "# Main\n- hi", "lg"⟩), .captured 1, .analyzed bare 1, .committed 1]

/-- Another text, in which something is wrong. -/
def mistaken (version : Int) : Document :=
  ⟨version, "# Main\n- $\x7bMissing()\x7d", "lg"⟩

/-- The document is opened again with the other text, and its job takes its steps. -/
def openedAgain (version : Int) : List Event :=
  openedUnderTwo ++ told "textDocument/didOpen" (openParams (mistaken version)) ::
    [.captured 2, .analyzed bare 2, .committed 2]

/-- Opened again under its version, the document is kept as it is now. -/
theorem keepsOpened_iff_sameVersion :
    ((start .default).run openedUnderTwo).session.state = .ready ∧
      ((start .default).run (openedAgain 2)).bench.jobs.pending.get? mainUri = none ∧
      KeepsOpened ((start .default).run (openedAgain 2)) mainUri (mistaken 2) := by
  have hready : ((start .default).run openedUnderTwo).session.state = .ready := by
    decide +kernel
  have hopen : Notification.ofParams "textDocument/didOpen" (openParams (mistaken 2)) =
      .didOpen mainUri (mistaken 2) := by
    decide +kernel
  have hended : ((start .default).run (openedAgain 2)).bench.jobs.pending.get? mainUri = none := by
    decide +kernel
  have hversions : (((start .default).run openedUnderTwo).workspace.snapshots.get? mainUri).map (·.tag.version) =
      some 2 := by
    decide +kernel
  refine ⟨hready, hended, (keepsOpened_iff .default openedUnderTwo _ bare hready hopen ?_ hended).2 fun old hold => ?_⟩
  · simp
  · exact Int.le_of_eq (Option.some.inj ((congrArg (Option.map _) hold).symm.trans hversions))

/-- Opened again under an earlier version, it is not. -/
theorem not_keepsOpened_earlierVersion :
    ((start .default).run openedUnderTwo).session.state = .ready ∧
      Notification.ofParams "textDocument/didOpen" (openParams (mistaken 1)) = .didOpen mainUri (mistaken 1) ∧
      ((start .default).run (openedAgain 1)).bench.jobs.pending.get? mainUri = none ∧
      ¬KeepsOpened ((start .default).run (openedAgain 1)) mainUri (mistaken 1) := by
  refine ⟨by decide +kernel, by decide +kernel, by decide +kernel, ?_⟩
  rintro ⟨snapshot, ctx, hsnapshot, hcurrent, -⟩
  have hversion : (((start .default).run (openedAgain 1)).workspace.snapshots.get? mainUri).map (·.tag.version) =
      some 2 := by
    decide +kernel
  have hkept : snapshot.tag.version = 2 := Option.some.inj ((congrArg (Option.map _) hsnapshot).symm.trans hversion)
  have hopened : snapshot.tag.version = 1 := beq_iff_eq.1 (Bool.and_eq_true_iff.1 hcurrent).2
  omega

end Server

end LgLang
