import LgLang.Proofs.Server.Events
import LgLang.Proofs.Session.Lifecycle

/-!
# Refused messages

Where the session stands decides whether it heeds a message: each message that moves a session has its own state, and
all others are for a ready session. A message that is not heeded is answered by a failure, if it is a request, and
changes nothing else (`receive_of_not_heeded`). What the server does never depends on the responses it has sent
(`step_frame`), and so a run goes on in the same way without the messages that are not heeded
(`run_heeded`).
-/

namespace LgLang

namespace SessionState

/-- Whether a session heeds a request where it stands. -/
def heedsRequest (state : SessionState) : Server.Request → Bool
  | .start _ | .malformed true => state == .uninitialized
  | .shutdown | .malformed false | .feature _ | .unknown => state == .ready

/-- Whether a session heeds a notification where it stands. -/
def heedsNotification (state : SessionState) : Server.Notification → Bool
  | .exit => true
  | .initialized => state == .initializing
  | _ => state == .ready

/-- Whether a session heeds a message where it stands. A response is not its concern. -/
def heeds (state : SessionState) : Server.Incoming → Bool
  | .request _ method params => state.heedsRequest (.ofParams method params)
  | .notification method params => state.heedsNotification (.ofParams method params)
  | .response => true

end SessionState

namespace Server

variable {s t : Server} {e : Event}

def heeds (s : Server) : Event → Bool
  | .received _ m => s.session.state.heeds m
  | _ => true

/-- A run without the messages that the session does not heed when they are received. -/
def heeded : Server → List Event → List Event
  | _, [] => []
  | s, e :: es => if s.heeds e then e :: heeded (s.step e) es else heeded (s.step e) es

/-- The server with other responses in the place of those that it has sent. -/
def withResponses (s : Server) (responses : List Response) : Server :=
  { s with responses }

/-- Both servers know and do the same: they have the same session, documents, dependencies, results, settings, jobs,
workers and published lists. They have sent the same results; the first one may have sent more failures. -/
structure SameWork (s t : Server) : Prop where
  same : t = s.withResponses t.responses
  responses : t.responses.Sublist s.responses
  results : t.responses.filter (·.result.isOk) = s.responses.filter (·.result.isOk)

/-! ## The session of a server -/

theorem onSession_of_refuses {e : SessionEvent} (h : s.session.Refuses e) : s.onSession e = s := by
  obtain ⟨err, herr⟩ := h
  unfold onSession
  rw [herr]

theorem exists_onStart_of_refuses (h : s.session.Refuses .initializeRequest) (sur : Surroundings) (id : RequestId)
    (client : ClientInfo) : ∃ f, s.onStart sur id client = s.respond id (.error f) := by
  obtain ⟨err, herr⟩ := h
  unfold onStart
  rw [herr]
  exact ⟨_, rfl⟩

theorem exists_onShutdown_of_refuses (h : s.session.Refuses .shutdownRequest) (id : RequestId) :
    ∃ f, s.onShutdown id = s.respond id (.error f) := by
  obtain ⟨err, herr⟩ := h
  unfold onShutdown
  rw [herr]
  exact ⟨_, rfl⟩

/-! ## Responses are only sent -/

/-- The session refuses a request that does not move it before the request is looked at. -/
theorem onRequest_refused {method : String} {err : SessionError} (h : s.session.state.serve method = .error err)
    (sur : Surroundings) (id : RequestId) {r : Request} (hr : r = .malformed false ∨ r = .unknown ∨ ∃ f, r = .feature f) :
    s.onRequest sur id method r = s.respond id (.error (.ofSession err)) := by
  rcases hr with rfl | rfl | ⟨f, rfl⟩ <;> simp only [onRequest, h]

/-- A request that does not move the session is served by it. -/
theorem onRequest_served {method : String} (h : s.session.state.serve method = .ok ()) (sur : Surroundings)
    (id : RequestId) :
    s.onRequest sur id method (.malformed false) = s.respond id (.error (.invalidParams method)) ∧
      s.onRequest sur id method .unknown = s.respond id (.error (.methodNotFound method)) ∧
      ∀ f, s.onRequest sur id method (.feature f) = s.onFeature id f := by
  refine ⟨?_, ?_, fun f => ?_⟩ <;> simp only [onRequest, h]

theorem onRequest_frame (s : Server) (sur : Surroundings) (id : RequestId) (method : String) (r : Request) :
    ∃ new, ∀ rs, (s.withResponses rs).onRequest sur id method r =
      (s.onRequest sur id method r).withResponses (new ++ rs) := by
  have hserve : (r = .malformed false ∨ r = .unknown ∨ ∃ f, r = .feature f) →
      ∃ new, ∀ rs, (s.withResponses rs).onRequest sur id method r =
        (s.onRequest sur id method r).withResponses (new ++ rs) := by
    intro hr
    cases h : s.session.state.serve method with
    | error err =>
      refine ⟨[⟨id, .error (.ofSession err)⟩], fun rs => ?_⟩
      rw [onRequest_refused h sur id hr, onRequest_refused (s := s.withResponses rs) h sur id hr]
      rfl
    | ok =>
      have hserved := onRequest_served h sur id
      have hserved' := fun rs => onRequest_served (s := s.withResponses rs) h sur id
      rcases hr with rfl | rfl | ⟨f, rfl⟩
      · refine ⟨[⟨id, .error (.invalidParams method)⟩], fun rs => ?_⟩
        rw [hserved.1, (hserved' rs).1]
        rfl
      · refine ⟨[⟨id, .error (.methodNotFound method)⟩], fun rs => ?_⟩
        rw [hserved.2.1, (hserved' rs).2.1]
        rfl
      · refine ⟨[], fun rs => ?_⟩
        rw [hserved.2.2, (hserved' rs).2.2]
        rfl
  cases r with
  | start client =>
    cases h : s.session.apply .initializeRequest with
    | error err =>
      refine ⟨[⟨id, .error (.ofSession err)⟩], fun rs => ?_⟩
      simp only [onRequest, onStart, withResponses, h]
      rfl
    | ok session =>
      refine ⟨[⟨id, .ok startResult⟩], fun rs => ?_⟩
      simp only [onRequest, onStart, withResponses, h]
      rfl
  | shutdown =>
    cases h : s.session.apply .shutdownRequest with
    | error err =>
      refine ⟨[⟨id, .error (.ofSession err)⟩], fun rs => ?_⟩
      simp only [onRequest, onShutdown, withResponses, h]
      rfl
    | ok session =>
      refine ⟨[⟨id, .ok .null⟩], fun rs => ?_⟩
      simp only [onRequest, onShutdown, withResponses, h]
      rfl
  | malformed start =>
    cases start with
    | true => exact ⟨[⟨id, .error (.invalidParams method)⟩], fun rs => rfl⟩
    | false => exact hserve (Or.inl rfl)
  | unknown => exact hserve (Or.inr (Or.inl rfl))
  | feature f => exact hserve (Or.inr (Or.inr ⟨f, rfl⟩))

theorem onDocument_withResponses (s : Server) (n : Notification) (rs : List Response) :
    (s.withResponses rs).onDocument n = (s.onDocument n).withResponses rs := by
  cases n with
  | didChange u version changes =>
    cases hchange : s.workspace.changeDocument u version changes with
    | error err =>
      have hchange' : (s.withResponses rs).workspace.changeDocument u version changes = .error err := hchange
      simp only [onDocument, hchange, hchange']
    | ok workspace =>
      have hchange' : (s.withResponses rs).workspace.changeDocument u version changes = .ok workspace := hchange
      simp only [onDocument, hchange, hchange']
      rfl
  | _ => rfl

theorem onSession_withResponses (s : Server) (e : SessionEvent) (rs : List Response) :
    (s.withResponses rs).onSession e = (s.onSession e).withResponses rs := by
  cases h : s.session.apply e with
  | error err => simp only [onSession, withResponses, h]
  | ok session => simp only [onSession, withResponses, h]

theorem onNotification_withResponses (s : Server) (n : Notification) (rs : List Response) :
    (s.withResponses rs).onNotification n = (s.onNotification n).withResponses rs := by
  unfold onNotification
  split
  · rw [onSession_withResponses]
    rfl
  · exact onSession_withResponses s _ rs
  · rw [onDocument_withResponses]
    exact (apply_ite (withResponses · rs) _ _ _).symm

theorem receive_frame (s : Server) (sur : Surroundings) (m : Incoming) :
    ∃ new, ∀ rs, (s.withResponses rs).receive sur m = (s.receive sur m).withResponses (new ++ rs) := by
  have hstopped : ∀ rs, (s.withResponses rs).isStopped = s.isStopped := fun rs => rfl
  cases h : s.isStopped with
  | true =>
    refine ⟨[], fun rs => ?_⟩
    simp only [receive, hstopped, h, if_true, List.nil_append]
  | false =>
    simp only [receive, hstopped, h, Bool.false_eq_true, if_false]
    cases m with
    | request id method params => exact onRequest_frame s sur id method _
    | notification method params => exact ⟨[], fun rs => onNotification_withResponses s _ rs⟩
    | response => exact ⟨[], fun rs => rfl⟩

theorem answerStep_withResponses (s : Server) (sur : Surroundings) (number : Nat) (rs : List Response) :
    (s.withResponses rs).answerStep sur number = (s.answerStep sur number).withResponses rs := by
  have hworker : (s.withResponses rs).worker? number = s.worker? number := rfl
  unfold answerStep
  rw [hworker]
  split <;> rfl

theorem respondStep_frame (s : Server) (number : Nat) :
    ∃ new, ∀ rs, (s.withResponses rs).respondStep number = (s.respondStep number).withResponses (new ++ rs) := by
  have hworker : ∀ rs, (s.withResponses rs).worker? number = s.worker? number := fun rs => rfl
  simp only [respondStep, hworker]
  cases s.worker? number with
  | none => exact ⟨[], fun rs => rfl⟩
  | some w =>
    cases hcancelled : w.cancelled with
    | true => exact ⟨[⟨w.id, .error .cancelled⟩], fun rs => by simp only [hcancelled]; rfl⟩
    | false =>
      cases hanswer : w.answer with
      | none => exact ⟨[], fun rs => by simp only [hcancelled, hanswer]; rfl⟩
      | some answer => exact ⟨[⟨w.id, .ok answer⟩], fun rs => by simp only [hcancelled, hanswer]; rfl⟩

/-- What a step does, and what it sends, does not depend on the responses that have been sent. -/
theorem step_frame (s : Server) (e : Event) :
    ∃ new, ∀ rs, (s.withResponses rs).step e = (s.step e).withResponses (new ++ rs) := by
  cases e with
  | received sur m => exact receive_frame s sur m
  | captured n | analyzed sur n | committed n => exact ⟨[], fun rs => rfl⟩
  | answered sur number => exact ⟨[], answerStep_withResponses s sur number⟩
  | responded number => exact respondStep_frame s number

/-! ## One message -/

theorem refuses_of_not_heeded {r : Request} (h : s.session.state.heedsRequest r = false) :
    (∀ client, r = .start client → s.session.Refuses .initializeRequest) ∧
      (r = .shutdown → s.session.Refuses .shutdownRequest) := by
  constructor
  · rintro client rfl
    cases hstate : s.session.state <;> rw [hstate] at h
    · cases h
    all_goals exact Session.refuses_of_next (by rw [hstate]; rfl)
  · rintro rfl
    cases hstate : s.session.state <;> rw [hstate] at h
    case ready => cases h
    all_goals exact Session.refuses_of_next (by rw [hstate]; rfl)

/-- A request that is not heeded is answered by a failure. -/
theorem onRequest_of_not_heeded {r : Request} (h : s.session.state.heedsRequest r = false) (sur : Surroundings)
    (id : RequestId) (method : String) : ∃ f, s.onRequest sur id method r = s.respond id (.error f) := by
  obtain ⟨hstart, hshutdown⟩ := refuses_of_not_heeded h
  have hserve : r = .malformed false ∨ r = .unknown ∨ (∃ f, r = .feature f) →
      ∃ f, s.onRequest sur id method r = s.respond id (.error f) := by
    intro hr
    have hready : s.session.state ≠ .ready := by
      intro hready
      rw [hready] at h
      rcases hr with rfl | rfl | ⟨f, rfl⟩ <;> cases h
    cases hs : s.session.state.serve method with
    | error err => exact ⟨_, onRequest_refused hs sur id hr⟩
    | ok => cases hstate : s.session.state <;> simp_all [SessionState.serve]
  cases r with
  | start client => exact exists_onStart_of_refuses (hstart client rfl) sur id client
  | shutdown => exact exists_onShutdown_of_refuses (hshutdown rfl) id
  | malformed start =>
    cases start with
    | true => exact ⟨_, rfl⟩
    | false => exact hserve (Or.inl rfl)
  | unknown => exact hserve (Or.inr (Or.inl rfl))
  | feature f => exact hserve (Or.inr (Or.inr ⟨f, rfl⟩))

/-- A notification that is not heeded is ignored. -/
theorem onNotification_of_not_heeded {n : Notification} (h : s.session.state.heedsNotification n = false) :
    s.onNotification n = s := by
  have hready : (∀ state : SessionState, state.heedsNotification n = (state == .ready)) →
      s.session.state.isReady = false := by
    intro hn
    rw [hn] at h
    exact h
  cases n with
  | exit => cases h
  | initialized =>
    refine onSession_of_refuses ?_
    cases hstate : s.session.state <;> rw [hstate] at h
    case initializing => cases h
    all_goals exact Session.refuses_of_next (by rw [hstate]; rfl)
  | _ => exact if_neg (by rw [hready fun _ => rfl]; exact Bool.false_ne_true)

/-- A message that is not heeded changes nothing, but that a request may be answered by a failure. -/
theorem receive_of_not_heeded {m : Incoming} (h : s.session.state.heeds m = false) (sur : Surroundings) :
    ∃ new : List Response, (∀ r ∈ new, r.result.isOk = false) ∧
      s.receive sur m = s.withResponses (new ++ s.responses) := by
  have hsame : ∀ s', s' = s → ∃ new : List Response, (∀ r ∈ new, r.result.isOk = false) ∧
      s' = s.withResponses (new ++ s.responses) := by
    rintro _ rfl
    exact ⟨[], fun r hr => absurd hr List.not_mem_nil, rfl⟩
  unfold receive
  split
  · exact hsame s rfl
  · cases m with
    | request id method params =>
      obtain ⟨f, hf⟩ := onRequest_of_not_heeded h sur id method
      refine ⟨[⟨id, .error f⟩], fun r hr => ?_, hf⟩
      obtain rfl := List.mem_singleton.1 hr
      rfl
    | notification method params => exact hsame _ (onNotification_of_not_heeded h)
    | response => cases h

/-! ## Every run -/

theorem SameWork.refl (s : Server) : s.SameWork s :=
  ⟨rfl, .refl _, rfl⟩

theorem SameWork.step (h : s.SameWork t) (e : Event) : (s.step e).SameWork (t.step e) := by
  obtain ⟨new, hnew⟩ := step_frame s e
  have hs : (s.step e).responses = new ++ s.responses := congrArg Server.responses (hnew s.responses)
  have ht : t.step e = (s.step e).withResponses (new ++ t.responses) := by
    rw [← hnew, ← h.same]
  have hresponses : (t.step e).responses = new ++ t.responses := congrArg Server.responses ht
  refine ⟨?_, ?_, ?_⟩
  · rw [hresponses]
    exact ht
  · rw [hs, hresponses]
    exact h.responses.append_left new
  · rw [hs, hresponses, List.filter_append, List.filter_append, h.results]

/-- The first server may also receive a message that its session does not heed. -/
theorem SameWork.skip (h : s.SameWork t) (he : s.heeds e = false) : (s.step e).SameWork t := by
  cases e with
  | received sur m =>
    obtain ⟨new, hfailures, hnew⟩ := receive_of_not_heeded he sur
    show (s.receive sur m).SameWork t
    rw [hnew]
    have hnone : new.filter (·.result.isOk) = [] :=
      List.filter_eq_nil_iff.2 fun r hr => Bool.eq_false_iff.1 (hfailures r hr)
    refine ⟨h.same, h.responses.trans (List.sublist_append_right _ _), ?_⟩
    show _ = (new ++ s.responses).filter _
    rw [List.filter_append, hnone, List.nil_append, h.results]
  | _ => cases he

/-- **Refused messages are as if they had not come.** A run ends with the same work, and has sent the same results, as
the run without the messages that the session refuses or ignores. -/
theorem run_heeded (s : Server) (es : List Event) : (s.run es).SameWork (s.run (heeded s es)) := by
  suffices h : ∀ t, s.SameWork t → (s.run es).SameWork (t.run (heeded s es)) from h s (.refl s)
  induction es generalizing s with
  | nil => exact fun t h => h
  | cons e es ih =>
    intro t h
    unfold heeded
    split
    · exact ih (s.step e) (t.step e) (h.step e)
    · next he => exact ih (s.step e) t (h.skip (Bool.eq_false_iff.2 he))

end Server

end LgLang
