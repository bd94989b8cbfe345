import LgLang.Session
import Mathlib.Data.List.Chain
import Mathlib.Data.List.TakeWhile

/-!
# The life of a session

A session takes events one after another and ignores those that it refuses (`run`). Where it stands tells which events
are still wanted before it is shutting down (`wanted`), and it is shutting down exactly when they have come in this
order, whatever came between them (`run_before_exit`). From there only `exit` leads on, so that the exit code tells of a
clean shutdown before the first `exit` (`exitCode_eq_zero_iff`).

The history of a session holds the latest of its transitions, as many as it has room for (`Remembers`).
-/

namespace LgLang

namespace SessionState

/-- The transitions of a session that stands here, event by event; a refused event makes none. -/
def transitions : SessionState → List SessionEvent → List Transition
  | _, [] => []
  | state, e :: es =>
    match state.next e with
    | .ok target => ⟨state, target, e⟩ :: transitions target es
    | .error _ => transitions state es

/-- The events that still have to come until the session is shutting down, in order. -/
def wanted : SessionState → List SessionEvent
  | uninitialized => [.initializeRequest, .initializedNotice, .shutdownRequest]
  | initializing => [.initializedNotice, .shutdownRequest]
  | ready => [.shutdownRequest]
  | shuttingDown | exited => []

end SessionState

namespace Session

variable {s : Session} {e : SessionEvent} {es : List SessionEvent} {target : SessionState} {err : SessionError}

/-- The session behind an event. -/
def follow (s : Session) (e : SessionEvent) : Session :=
  match s.apply e with
  | .ok next => next
  | .error _ => s

/-- The session behind several events. -/
def run (s : Session) (es : List SessionEvent) : Session :=
  es.foldl follow s

/-- An event makes no sense where the session stands. -/
def Refuses (s : Session) (e : SessionEvent) : Prop :=
  ∃ err, s.apply e = .error err

/-- What a history with room for `capacity` transitions holds when those so far are `ts`: the latest of them, one behind
the other up to where the session stands. -/
structure Remembers (s : Session) (capacity : Nat) (ts : List Transition) : Prop where
  room : s.history.capacity = capacity
  latest : s.history.transitions <:+ ts
  length : s.history.transitions.length = min capacity ts.length
  chain : s.history.transitions.IsChain fun t u => t.target = u.source
  state : ∀ t ∈ s.history.transitions.getLast?, t.target = s.state

/-! ## One event -/

theorem apply_ok (h : s.state.next e = .ok target) :
    s.apply e = .ok ⟨target, s.history.record ⟨s.state, target, e⟩, s.cleanlyShutDown || s.state == .shuttingDown⟩ := by
  unfold apply
  rw [h]

theorem follow_ok (h : s.state.next e = .ok target) :
    s.follow e =
      ⟨target, s.history.record ⟨s.state, target, e⟩, s.cleanlyShutDown || s.state == .shuttingDown⟩ := by
  unfold follow
  rw [apply_ok h]

theorem Refuses.follow (h : s.Refuses e) : s.follow e = s := by
  obtain ⟨err, herr⟩ := h
  unfold Session.follow
  rw [herr]

theorem refuses_of_next (h : s.state.next e = .error err) : s.Refuses e := by
  refine ⟨err, ?_⟩
  unfold apply
  rw [h]

theorem follow_error (h : s.state.next e = .error err) : s.follow e = s :=
  (refuses_of_next h).follow

theorem run_append (s : Session) (es es' : List SessionEvent) : s.run (es ++ es') = (s.run es).run es' :=
  List.foldl_append

/-! ## The exit code -/

/-- Only the event that is wanted next leads on, and `exit`. -/
theorem wanted_of_next {state : SessionState} (he : e ≠ .exitNotice) (h : state.next e = .ok target) :
    state ≠ .shuttingDown ∧ target ≠ .exited ∧ state.wanted = e :: target.wanted := by
  cases state <;> cases e <;> first | exact absurd rfl he | cases h
  all_goals exact ⟨SessionState.noConfusion, SessionState.noConfusion, rfl⟩

theorem head?_wanted_ne {state : SessionState} (h : state.next e = .error err) : state.wanted.head? ≠ some e := by
  rintro hhead
  cases state <;> cases hhead <;> cases h

theorem sublist_cons_of_head?_ne {α : Type} {a : α} {as bs : List α} (h : as.head? ≠ some a) :
    as.Sublist (a :: bs) ↔ as.Sublist bs := by
  refine ⟨fun hsub => ?_, fun hsub => hsub.cons a⟩
  cases hsub with
  | cons _ hsub => exact hsub
  | cons_cons _ _ => exact absurd rfl h

/-- As long as `exit` has not come, the session is shutting down exactly when all that was wanted has come, and no
shutdown has been clean yet. -/
theorem run_before_exit (hexit : .exitNotice ∉ es) (hclean : s.cleanlyShutDown = false) (hstate : s.state ≠ .exited) :
    ((s.run es).state = .shuttingDown ↔ s.state.wanted.Sublist es) ∧ (s.run es).cleanlyShutDown = false := by
  induction es generalizing s with
  | nil =>
    refine ⟨?_, hclean⟩
    show s.state = .shuttingDown ↔ s.state.wanted.Sublist []
    rw [List.sublist_nil]
    cases hs : s.state with
    | exited => exact absurd hs hstate
    | shuttingDown => exact iff_of_true rfl rfl
    | uninitialized | initializing | ready => exact iff_of_false SessionState.noConfusion (List.cons_ne_nil _ _)
  | cons e es ih =>
    have hne : e ≠ .exitNotice := fun h => hexit (h ▸ List.mem_cons_self)
    have hrest : .exitNotice ∉ es := fun h => hexit (List.mem_cons_of_mem _ h)
    show ((s.follow e |>.run es).state = .shuttingDown ↔ _) ∧ (s.follow e |>.run es).cleanlyShutDown = false
    cases hnext : s.state.next e with
    | error err =>
      rw [follow_error hnext, sublist_cons_of_head?_ne (head?_wanted_ne hnext)]
      exact ih hrest hclean hstate
    | ok target =>
      obtain ⟨hdown, htarget, hwanted⟩ := wanted_of_next hne hnext
      rw [follow_ok hnext, hwanted, List.cons_sublist_cons]
      exact ih hrest (by simp [hclean, hdown]) htarget

/-- Behind `exit` a session stays where it is. -/
theorem run_exited (es : List SessionEvent) (hstate : s.state = .exited) :
    (s.run es).state = .exited ∧ (s.run es).cleanlyShutDown = s.cleanlyShutDown := by
  induction es generalizing s with
  | nil => exact ⟨hstate, rfl⟩
  | cons e es ih =>
    have hfollow : (s.follow e).state = .exited ∧ (s.follow e).cleanlyShutDown = s.cleanlyShutDown := by
      cases hnext : s.state.next e with
      | error err =>
        rw [follow_error hnext]
        exact ⟨hstate, rfl⟩
      | ok target =>
        rw [follow_ok hnext, hstate]
        rw [hstate] at hnext
        cases e <;> cases hnext
        exact ⟨rfl, Bool.or_false _⟩
    obtain ⟨hexited, hclean⟩ := ih hfollow.1
    exact ⟨hexited, hclean.trans hfollow.2⟩

/-- A run up to the first `exit`, if it has one. -/
theorem exists_first_exit (es : List SessionEvent) :
    ∃ behind, es = es.takeWhile (· ≠ .exitNotice) ++ behind ∧ .exitNotice ∉ es.takeWhile (· ≠ .exitNotice) ∧
      (behind = [] ∨ ∃ rest, behind = .exitNotice :: rest) := by
  refine ⟨es.dropWhile (· ≠ .exitNotice), List.takeWhile_append_dropWhile.symm, fun hmem => ?_, ?_⟩
  · have hne := List.mem_takeWhile_imp hmem
    simp at hne
  · cases hbehind : es.dropWhile (· ≠ .exitNotice) with
    | nil => exact Or.inl rfl
    | cons e rest =>
      have hhead := List.head?_dropWhile_not (· ≠ .exitNotice) es
      rw [hbehind] at hhead
      obtain rfl : e = .exitNotice := by simpa using hhead
      exact Or.inr ⟨rest, rfl⟩

/-- The exit code is zero exactly when all that was wanted has come, in order, before the first `exit`. -/
theorem exitCode_eq_zero_iff (hclean : s.cleanlyShutDown = false) (hstate : s.state ≠ .exited) :
    (s.run es).exitCode = 0 ↔
      .exitNotice ∈ es ∧ s.state.wanted.Sublist (es.takeWhile (· ≠ .exitNotice)) := by
  have hzero : ∀ t : Session, t.exitCode = 0 ↔ t.state = .exited ∧ t.cleanlyShutDown = true := by
    intro t
    unfold exitCode
    split
    · next h => exact iff_of_true rfl h
    · next h => exact iff_of_false (Nat.succ_ne_zero 0) h
  obtain ⟨behind, hsplit, hbefore, hbehind⟩ := exists_first_exit es
  generalize es.takeWhile (· ≠ .exitNotice) = before at hsplit hbefore ⊢
  obtain ⟨hdown, hunclean⟩ := run_before_exit hbefore hclean hstate
  rw [hzero, hsplit, run_append]
  rcases hbehind with rfl | ⟨rest, rfl⟩
  · exact iff_of_false (fun h => by cases hunclean.symm.trans h.2) fun h => hbefore (by simpa using h.1)
  · -- Only at the first `exit` can the shutdown become clean.
    have hexit : (s.run before).follow .exitNotice = _ := follow_ok rfl
    obtain ⟨hexited, hlater⟩ := run_exited rest (s := (s.run before).follow .exitNotice) (by rw [hexit])
    rw [hexit] at hlater
    have hclean' : ((s.run before).follow .exitNotice |>.run rest).cleanlyShutDown = true ↔
        (s.run before).state = .shuttingDown := by
      rw [hexit, hlater, hunclean, Bool.false_or, beq_iff_eq]
    show ((s.run before).follow .exitNotice |>.run rest).state = _ ∧ _ ↔ _
    rw [← hdown, ← hclean']
    exact ⟨fun h => ⟨by simp, h.2⟩, fun h => ⟨hexited, h.2⟩⟩

/-! ## The history -/

/-- A transition is noted behind the latest ones that there is room for. -/
theorem record_eq {h : TransitionHistory} (hroom : h.transitions.length ≤ h.capacity) (t : Transition) :
    ∃ kept, kept <:+ h.transitions ∧ kept.length = min h.transitions.length (h.capacity - 1) ∧
      h.record t = ⟨h.capacity, kept ++ [t]⟩ := by
  unfold TransitionHistory.record
  by_cases hfull : h.capacity ≤ h.transitions.length
  · refine ⟨h.transitions.tail, List.tail_suffix _, ?_, by rw [if_pos hfull]⟩
    rw [List.length_tail]
    omega
  · refine ⟨h.transitions, List.suffix_refl _, by omega, by rw [if_neg hfull]⟩

/-- A session that remembers its transitions also remembers the next one. -/
theorem Remembers.concat {capacity : Nat} {ts : List Transition} (h : s.Remembers capacity ts)
    (hcapacity : 1 ≤ capacity) (target : SessionState) (e : SessionEvent) (clean : Bool) :
    (⟨target, s.history.record ⟨s.state, target, e⟩, clean⟩ : Session).Remembers capacity
      (ts ++ [⟨s.state, target, e⟩]) := by
  have hroom := h.room
  have hlength := h.length
  obtain ⟨kept, ⟨front, hfront⟩, hkept, hrecord⟩ := record_eq (h := s.history) (by omega) ⟨s.state, target, e⟩
  rw [hrecord]
  have hchain := h.chain
  rw [← hfront] at hchain
  refine
    { room := hroom
      latest := ?_
      length := ?_
      chain := List.isChain_append.2 ⟨hchain.right_of_append, .singleton _, fun t ht u hu => ?_⟩
      state := fun t ht => ?_ }
  · obtain ⟨older, rfl⟩ := h.latest
    refine ⟨older ++ front, ?_⟩
    rw [← hfront]
    simp
  · simp only [List.length_append, List.length_singleton]
    omega
  · -- The last transition that is kept led to where the session stood.
    obtain rfl : _ = u := Option.some.inj hu
    refine h.state t ?_
    rw [← hfront, List.getLast?_append, Option.mem_def.1 ht]
    rfl
  · rw [List.getLast?_concat] at ht
    obtain rfl := Option.some.inj ht
    rfl

theorem Remembers.run {capacity : Nat} {ts : List Transition} (h : s.Remembers capacity ts) (hcapacity : 1 ≤ capacity) :
    (s.run es).Remembers capacity (ts ++ s.state.transitions es) := by
  induction es generalizing s ts with
  | nil =>
    rw [SessionState.transitions, List.append_nil]
    exact h
  | cons e es ih =>
    show ((s.follow e).run es).Remembers capacity _
    cases hnext : s.state.next e with
    | error err =>
      rw [follow_error hnext]
      simp only [SessionState.transitions, hnext]
      exact ih h
    | ok target =>
      rw [follow_ok hnext]
      simp only [SessionState.transitions, hnext]
      have hrest := ih (h.concat hcapacity target e (s.cleanlyShutDown || s.state == .shuttingDown))
      rwa [List.append_assoc] at hrest

/-! ## Every run -/

/-- **A session as a whole.** In every run from its start, an event that is refused changes nothing; the exit code is zero
exactly when the client has begun and shut down the session before its first `exit`; and the history holds the latest
transitions. -/
theorem lifecycle (capacity : Nat) (es : List SessionEvent) :
    (∀ e, ((start capacity).run es).Refuses e → (start capacity).run (es ++ [e]) = (start capacity).run es) ∧
      (((start capacity).run es).exitCode = 0 ↔
        .exitNotice ∈ es ∧
          [.initializeRequest, .initializedNotice, .shutdownRequest].Sublist (es.takeWhile (· ≠ .exitNotice))) ∧
      (1 ≤ capacity → ((start capacity).run es).Remembers capacity (SessionState.uninitialized.transitions es)) := by
  refine ⟨fun e he => ?_, exitCode_eq_zero_iff rfl SessionState.noConfusion, fun hcapacity => ?_⟩
  · rw [run_append]
    exact he.follow
  · have hstart : (start capacity).Remembers capacity [] :=
      ⟨rfl, List.suffix_refl _, (Nat.min_zero capacity).symm, .nil, fun t ht => by cases ht⟩
    exact hstart.run hcapacity

/-- A client that begins twice, shuts down, and says `exit` twice; the session remembers two transitions. -/
def exitingTwice : List SessionEvent :=
  [.initializeRequest, .initializeRequest, .initializedNotice, .shutdownRequest, .exitNotice, .exitNotice]

theorem lifecycle_exitingTwice :
    ((start 2).run exitingTwice).Refuses .shutdownRequest ∧
      (start 2).run (exitingTwice ++ [.shutdownRequest]) = (start 2).run exitingTwice ∧
      ((start 2).run exitingTwice).exitCode = 0 ∧
      ((start 2).run exitingTwice).history.transitions =
        [⟨.shuttingDown, .exited, .exitNotice⟩, ⟨.exited, .exited, .exitNotice⟩] ∧
      (SessionState.uninitialized.transitions exitingTwice).length = 5 ∧
      ((start 2).run exitingTwice).Remembers 2 (SessionState.uninitialized.transitions exitingTwice) := by
  have hlife := lifecycle 2 exitingTwice
  have hrefuses : ((start 2).run exitingTwice).Refuses .shutdownRequest := ⟨.shuttingDown "shutdown", rfl⟩
  exact ⟨hrefuses, hlife.1 _ hrefuses, hlife.2.1.2 (by decide), rfl, rfl, hlife.2.2 (by decide)⟩

end Session

end LgLang
