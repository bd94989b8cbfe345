import LgLang.Proofs.Workbench.Following
import LgLang.Proofs.Workbench.Steps
import LgLang.Server

/-!
# Runs of the server

A run is any order of messages, each handled as a whole, and of single steps of jobs and workers; what surrounds the
server may be different at each of them. A message and a step of a worker do one of two things (`Handles`): the
workbench follows news of the client, or `shutdown` is accepted and everything is forgotten. Together with the three
steps of jobs these are all the ways in which the workbench changes.
-/

namespace LgLang

/-- An answer leaves the workspace as it is, but for what has to be read. -/
theorem Workspace.answer_afterReads (w : Workspace) (sur : Surroundings) (r : Server.FeatureRequest) :
    ∃ us, (w.answer sur r).workspace = w.afterReads sur.disk us := by
  have hafter : ∀ c, w.currentAnalysis? sur r.uri = some c → ∃ us, c.workspace = w.afterReads sur.disk us := by
    intro c hc
    unfold Workspace.currentAnalysis? at hc
    cases hdocument : w.documents.get? r.uri with
    | none =>
      rw [hdocument] at hc
      cases hc
    | some document =>
      cases hsnapshot : w.snapshots.get? r.uri with
      | none =>
        simp only [hdocument, hsnapshot] at hc
        obtain rfl := Option.some.inj hc
        exact ⟨_, rfl⟩
      | some snapshot =>
        simp only [hdocument, hsnapshot] at hc
        split at hc
        · obtain rfl := Option.some.inj hc
          exact ⟨[], rfl⟩
        · obtain rfl := Option.some.inj hc
          exact ⟨_, rfl⟩
  unfold Workspace.answer
  split
  · exact ⟨[], rfl⟩
  · next c hc => exact hafter c hc

/-- Whatever has to be read for an answer, the documents and the results stay. -/
theorem Workspace.answer_parts (w : Workspace) (sur : Surroundings) (r : Server.FeatureRequest) :
    (w.answer sur r).workspace.documents = w.documents ∧ (w.answer sur r).workspace.snapshots = w.snapshots := by
  obtain ⟨us, hus⟩ := w.answer_afterReads sur r
  obtain ⟨hdocuments, -, hsnapshots, -⟩ := Workspace.afterReads_parts us w sur.disk
  rw [hus]
  exact ⟨hdocuments, hsnapshots⟩

namespace Server

open Workspace (Job Publisher)

/-- What can happen to a server. -/
inductive Event where
  | received (sur : Surroundings) (m : Incoming)
  | captured (n : Nat)
  | analyzed (sur : Surroundings) (n : Nat)
  | committed (n : Nat)
  /-- A worker finds its answer. -/
  | answered (sur : Surroundings) (number : Nat)
  /-- A worker sends its response. -/
  | responded (number : Nat)

def step (s : Server) : Event → Server
  | .received sur m => s.receive sur m
  | .captured n => s.jobStep (·.captureStep n)
  | .analyzed sur n => s.jobStep (·.analyzeStep sur n)
  | .committed n => s.jobStep (·.commitStep n)
  | .answered sur number => s.answerStep sur number
  | .responded number => s.respondStep number

def run (s : Server) (es : List Event) : Server :=
  es.foldl step s

/-- The lists of findings that are sent when something happens. -/
def sentBy (s : Server) (e : Event) : List (Workspace.Publication Editor.Notice) :=
  (s.step e).bench.publisher.sentAfter s.bench.publisher.sent.length

/-- The client has ended the session by `shutdown`. -/
def IsShutDown (s : Server) : Prop :=
  s.session.state = .shuttingDown ∨ s.session.cleanlyShutDown = true

instance (s : Server) : Decidable s.IsShutDown :=
  inferInstanceAs (Decidable (_ ∨ _))

variable {s s' : Server}

/-- No job is at work unless the session is ready. -/
structure Idle (s : Server) : Prop where
  sound : s.bench.jobs.Sound
  ready : ∀ j, s.bench.jobs.Live j → s.session.state = .ready

/-- What can come of a message or of a step of a worker. -/
inductive Handles (s s' : Server) : Prop where
  | followed (closed : Option Uri) (hbench : s.bench.Follows s'.bench closed)
      (hready : ∀ j, s'.bench.jobs.Live j → s'.session.state = .ready) (hdown : s.IsShutDown → s'.IsShutDown)
  | shutDown (hdown : s'.IsShutDown) (hsound : s'.bench.jobs.Sound) (hlive : ∀ j, ¬ s'.bench.jobs.Live j)
      (hpublisher : s'.bench.publisher = s.bench.publisher)

/-- Only the workers and the responses are others. -/
theorem Idle.handles_of_eq (h : s.Idle) (hbench : s'.bench = s.bench) (hsession : s'.session = s.session) :
    s.Handles s' := by
  refine .followed none ?_ ?_ ?_
  · rw [hbench]
    exact .refl h.sound
  · intro j hj
    rw [hbench] at hj
    rw [hsession]
    exact h.ready j hj
  · intro hdown
    unfold IsShutDown
    rw [hsession]
    exact hdown

theorem isShutDown_of_apply {e : SessionEvent} {session : Session} (h : s.session.apply e = .ok session)
    (hdown : s.IsShutDown) : session.state = .shuttingDown ∨ session.cleanlyShutDown = true := by
  unfold Session.apply at h
  split at h
  · obtain rfl := Except.ok.inj h
    refine Or.inr ?_
    rcases hdown with hstate | hclean
    · simp [hstate]
    · simp [hclean]
  · cases h

theorem isShutDown_onSession (e : SessionEvent) (hdown : s.IsShutDown) : (s.onSession e).IsShutDown := by
  unfold onSession
  cases happly : s.session.apply e with
  | error _ => exact hdown
  | ok session => exact isShutDown_of_apply happly hdown

/-- A ready session cannot be begun. -/
theorem not_ready_of_apply {e : SessionEvent} {session : Session} (h : s.session.apply e = .ok session)
    (he : e = .initializeRequest ∨ e = .initializedNotice) : s.session.state ≠ .ready := by
  intro hready
  unfold Session.apply at h
  rw [hready] at h
  rcases he with rfl | rfl <;> cases h

theorem state_of_shutdown {session : Session} (h : s.session.apply .shutdownRequest = .ok session) :
    session.state = .shuttingDown := by
  unfold Session.apply at h
  cases hstate : s.session.state <;> rw [hstate] at h <;> cases h
  rfl

/-! ## Requests -/

theorem Idle.handles_onStart (h : s.Idle) (sur : Surroundings) (id : RequestId) (client : ClientInfo) :
    s.Handles (s.onStart sur id client) := by
  unfold onStart
  cases happly : s.session.apply .initializeRequest with
  | error e => exact h.handles_of_eq rfl rfl
  | ok session =>
    refine .followed none (Workbench.follows_workspace h.sound rfl rfl) ?_ ?_
    · exact fun j hj => absurd (h.ready j hj) (not_ready_of_apply happly (Or.inl rfl))
    · exact isShutDown_of_apply happly

theorem Idle.handles_onShutdown (h : s.Idle) (id : RequestId) : s.Handles (s.onShutdown id) := by
  unfold onShutdown
  cases happly : s.session.apply .shutdownRequest with
  | error e => exact h.handles_of_eq rfl rfl
  | ok session =>
    exact .shutDown (Or.inl (state_of_shutdown happly)) h.sound.cancelAll h.sound.not_live_cancelAll rfl

theorem Idle.handles_onRequest (h : s.Idle) (sur : Surroundings) (id : RequestId) (method : String) (r : Request) :
    s.Handles (s.onRequest sur id method r) := by
  unfold onRequest
  split
  · exact h.handles_onStart sur id _
  · exact h.handles_of_eq rfl rfl
  · exact h.handles_onShutdown id
  all_goals
    split
    · exact h.handles_of_eq rfl rfl
    · exact h.handles_of_eq rfl rfl

/-! ## Notifications -/

/-- While the session is ready, it stays as it is, and jobs may be at work. -/
theorem handles_of_follows (hready : s.session.state = .ready) {closed : Option Uri} {bench : Workbench}
    (hbench : s.bench.Follows bench closed) : s.Handles { s with bench } :=
  .followed closed hbench (fun _ _ => hready) id

theorem Idle.handles_onDocument (h : s.Idle) (hready : s.session.state = .ready) (n : Notification) :
    s.Handles (s.onDocument n) := by
  cases n with
  | didOpen u d => exact handles_of_follows hready (Workbench.follows_opened h.sound u d s.debounce)
  | didChange u version changes =>
    unfold onDocument
    cases hchange : s.workspace.changeDocument u version changes with
    | error e =>
      simp only [hchange]
      exact h.handles_of_eq rfl rfl
    | ok workspace =>
      simp only [hchange]
      exact handles_of_follows hready (Workbench.follows_changed h.sound hchange s.debounce)
  | didSave u => exact handles_of_follows hready (Workbench.follows_workspace h.sound rfl rfl)
  | didClose u => exact handles_of_follows hready (Workbench.follows_closed h.sound u s.debounce)
  | didChangeFiles us => exact handles_of_follows hready (Workbench.follows_filesChanged h.sound us s.debounce)
  | cancel id | initialized | exit | ignored => exact h.handles_of_eq rfl rfl

theorem Idle.handles_onNotification (h : s.Idle) (n : Notification) : s.Handles (s.onNotification n) := by
  unfold onNotification
  split
  · -- Whatever the session was, the end of it leaves no job alive.
    refine .followed none (Workbench.follows_cancelAll h.sound) ?_ ?_
    · exact fun j hj => absurd hj (h.sound.not_live_cancelAll j)
    · exact isShutDown_onSession .exitNotice
  · unfold onSession
    cases happly : s.session.apply .initializedNotice with
    | error e => exact h.handles_of_eq rfl rfl
    | ok session =>
      refine .followed none (.refl h.sound) ?_ (isShutDown_of_apply happly)
      exact fun j hj => absurd (h.ready j hj) (not_ready_of_apply happly (Or.inr rfl))
  · split
    · next hready => exact h.handles_onDocument (by simpa [SessionState.isReady] using hready) _
    · exact h.handles_of_eq rfl rfl

/-! ## Messages and workers -/

theorem Idle.handles_receive (h : s.Idle) (sur : Surroundings) (m : Incoming) : s.Handles (s.receive sur m) := by
  unfold receive
  split
  · exact h.handles_of_eq rfl rfl
  · cases m with
    | request id method params => exact h.handles_onRequest sur id method _
    | notification method params => exact h.handles_onNotification _
    | response => exact h.handles_of_eq rfl rfl

theorem Idle.handles_answerStep (h : s.Idle) (sur : Surroundings) (number : Nat) :
    s.Handles (s.answerStep sur number) := by
  unfold answerStep
  split
  · next request _ _ _ =>
    obtain ⟨hdocuments, hsnapshots⟩ := Workspace.answer_parts s.workspace sur request
    exact .followed none (Workbench.follows_workspace h.sound hdocuments hsnapshots) h.ready id
  · exact h.handles_of_eq rfl rfl

theorem Idle.handles_respondStep (h : s.Idle) (number : Nat) : s.Handles (s.respondStep number) := by
  unfold respondStep
  split
  · exact h.handles_of_eq rfl rfl
  · split
    · exact h.handles_of_eq rfl rfl
    · split
      · exact h.handles_of_eq rfl rfl
      · exact h.handles_of_eq rfl rfl

/-! ## What a step sends -/

/-- What can become of what has been sent: nothing is sent, the list of a closed document is taken back, or a job
publishes its result. -/
inductive Sends (s : Server) : Event → Publisher Editor.Notice → Prop where
  | nothing (e : Event) : Sends s e s.bench.publisher
  | takenBack (sur : Surroundings) (m : Incoming) (u : Uri) : Sends s (.received sur m) (s.bench.publisher.clear u)
  | published {j : Job} {a : Analysis} (hj : s.bench.jobs.Live j) (hstage : j.stage = .analyzed a) :
      Sends s (.committed j.sequence)
        (s.bench.publisher.publish j.uri ⟨j.version, j.sequence⟩ (s.bench.workspace.resultOf a).notices)

theorem Handles.sends (h : s.Handles s') (sur : Surroundings) (m : Incoming) :
    s.Sends (.received sur m) s'.bench.publisher := by
  cases h with
  | followed closed hbench _ _ =>
    rw [hbench.publisher]
    cases closed with
    | none => exact .nothing _
    | some u => exact .takenBack sur m u
  | shutDown _ _ _ hpublisher =>
    rw [hpublisher]
    exact .nothing _

theorem Idle.step_sends (h : s.Idle) (e : Event) : s.Sends e (s.step e).bench.publisher := by
  have hnothing : ∀ {p}, p = s.bench.publisher → s.Sends e p := by
    rintro _ rfl
    exact .nothing e
  cases e with
  | received sur m => exact (h.handles_receive sur m).sends sur m
  | captured n =>
    refine hnothing ?_
    cases Workbench.captureStep_captures h.sound n with
    | unchanged hafter _ | ended _ _ _ _ hafter | captured _ _ _ _ _ hafter =>
      exact (congrArg Workbench.publisher hafter).trans rfl
  | analyzed sur n =>
    refine hnothing ?_
    cases Workbench.analyzeStep_analyzes h.sound sur n with
    | unchanged hafter _ | ended _ _ _ _ hafter | analyzed _ _ _ _ _ hafter =>
      exact (congrArg Workbench.publisher hafter).trans rfl
  | committed n =>
    cases Workbench.commitStep_commits h.sound n with
    | unchanged hafter _ | ended _ _ _ _ _ _ hafter => exact hnothing ((congrArg Workbench.publisher hafter).trans rfl)
    | accepted j a hj hn hstage _ _ hafter =>
      have hpublisher := congrArg Workbench.publisher hafter
      subst hn
      show s.Sends _ (s.bench.commitStep j.sequence).publisher
      rw [hpublisher]
      exact .published hj hstage
  | answered sur number =>
    refine hnothing ?_
    show (s.answerStep sur number).bench.publisher = _
    unfold answerStep
    split <;> rfl
  | responded number =>
    refine hnothing ?_
    show (s.respondStep number).bench.publisher = _
    unfold respondStep
    split
    · rfl
    · split
      · rfl
      · split <;> rfl

end Server

end LgLang
