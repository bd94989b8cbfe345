import LgLang.Proofs.Import.Observation

/-!
# Walks that could be cancelled

Before each read a walk asks whether it is cancelled, and the first affirmative answer ends it. Up to there every answer
was negative (`run_proceeds`), so that all moves are moves of the walk that nobody cancels (`run_never`). Hence a walk
that comes to its end is that walk (`walkFrom_of_finished`), and one that is cancelled has read what that walk reads
first (`reads_walkFrom`).
-/

namespace LgLang

/-- Questions are asked one after another, from one number up to another, until an answer is affirmative. The last
argument says whether one was. -/
inductive Asked (cancelled : Nat → Bool) : Nat → Nat → Bool → Prop
  | done {n : Nat} : Asked cancelled n n false
  | stop {n : Nat} (h : cancelled n = true) : Asked cancelled n (n + 1) true
  | next {n m : Nat} {stopped : Bool} (h : cancelled n = false) (rest : Asked cancelled (n + 1) m stopped) :
      Asked cancelled n m stopped

namespace Asked

variable {cancelled : Nat → Bool} {n m k : Nat} {stopped : Bool}

theorem trans (h : Asked cancelled n m false) (h' : Asked cancelled m k stopped) : Asked cancelled n k stopped := by
  generalize hfalse : false = answer at h
  induction h with
  | done => exact h'
  | stop _ => cases hfalse
  | next hasked _ ih => exact .next hasked (ih h' hfalse)

/-- One of the answers was affirmative exactly if that ended the questions. -/
theorem stopped_iff (h : Asked cancelled n m stopped) :
    stopped = true ↔ ∃ k, n ≤ k ∧ k < m ∧ cancelled k = true := by
  induction h with
  | done =>
    refine iff_of_false Bool.false_ne_true ?_
    rintro ⟨k, hle, hlt, _⟩
    omega
  | @stop n h => exact iff_of_true rfl ⟨n, Nat.le_refl n, Nat.lt_succ_self n, h⟩
  | @next n m stopped h _ ih =>
    rw [ih]
    constructor
    · rintro ⟨k, hle, hlt, hk⟩
      exact ⟨k, Nat.le_of_succ_le hle, hlt, hk⟩
    · rintro ⟨k, hle, hlt, hk⟩
      have hne : n ≠ k := fun hsame => by rw [hsame, hk] at h; cases h
      exact ⟨k, by omega, hlt, hk⟩

/-- No question follows an affirmative answer. -/
theorem last (h : Asked cancelled n m stopped) : ∀ k, n ≤ k → k < m → cancelled k = true → k + 1 = m := by
  induction h with
  | done => omega
  | stop _ => omega
  | @next n m stopped h _ ih =>
    intro k hle hlt hk
    have hne : n ≠ k := fun hsame => by rw [hsame, hk] at h; cases h
    exact ih k (by omega) hlt hk

end Asked

namespace Import

open Relation (ReflTransGen)

variable {env : Env} {limit : Nat} {s t : State} {log log' log'' : Log}

/-! ## One question for each read -/

/-- From one log to a later one, a question is asked for each read and answered in the negative. -/
structure Proceeds (env : Env) (log log' : Log) : Prop where
  asked : Asked env.cancelled log.questions log'.questions false
  counted : log'.questions + log.reads.length = log.questions + log'.reads.length

namespace Proceeds

theorem silent (hquestions : log'.questions = log.questions) (hreads : log'.reads = log.reads) :
    Proceeds env log log' :=
  ⟨hquestions ▸ .done, by rw [hquestions, hreads]⟩

theorem read {target : Uri} (hasked : env.cancelled log.questions = false)
    (hquestions : log'.questions = log.questions + 1) (hreads : log'.reads = target :: log.reads) :
    Proceeds env log log' where
  asked := hquestions ▸ .next hasked .done
  counted := by
    rw [hquestions, hreads, List.length_cons]
    omega

theorem trans (h : Proceeds env log log') (h' : Proceeds env log' log'') : Proceeds env log log'' where
  asked := h.asked.trans h'.asked
  counted := by
    have hfirst := h.counted
    have hrest := h'.counted
    omega

end Proceeds

variable {stack : List Frame} {visited : Std.TreeSet Uri} {current : ScopeFile} {position : Nat} {i : Syntax.Import}
  {step : Step}

theorem followed_proceeds (h : follow env stack visited current position i log = (step, log'))
    (hstep : step ≠ .cancelled) : Proceeds env log log' := by
  cases followed_of_eq h with
  | unresolvable _ => exact .silent rfl rfl
  | cycle _ _ _ => exact .silent rfl rfl
  | known _ _ _ => exact .silent rfl rfl
  | cancelled _ _ _ => exact absurd rfl hstep
  | failed _ _ _ hasked => exact .read hasked rfl rfl
  | entered _ _ _ hasked => exact .read hasked rfl rfl

theorem Moves.proceeds (h : Moves env s t) : Proceeds env s.log t.log := by
  cases h with
  | leave => exact .silent rfl rfl
  | pass hfollow => exact followed_proceeds hfollow Step.noConfusion
  | enter hfollow => exact followed_proceeds hfollow Step.noConfusion

/-- Along a run every question is followed by a read. -/
theorem run_proceeds (h : ReflTransGen (MovesWithin env limit) s t) : Proceeds env s.log t.log := by
  induction h with
  | refl => exact .silent rfl rfl
  | tail _ hstep ih => exact ih.trans hstep.2.proceeds

/-! ## The same walk when nobody cancels it -/

/-- What a walk works with when nobody cancels it. -/
def Env.never (env : Env) : Env :=
  { env with cancelled := fun _ => false }

theorem follow_never (h : follow env stack visited current position i log = (step, log')) (hstep : step ≠ .cancelled) :
    follow env.never stack visited current position i log = (step, log') := by
  have hnot : (follow env stack visited current position i log).1 ≠ .cancelled := by
    rw [h]
    exact hstep
  rw [← h]
  simp only [follow, Env.never] at hnot ⊢
  cases hresolve : env.sources.resolve current.uri i.target with
  | none => rfl
  | some target =>
    simp only [hresolve] at hnot ⊢
    by_cases hvisited : visited.contains target = true
    · simp only [hvisited, if_true]
      rfl
    · cases hcancelled : env.cancelled log.questions with
      | true =>
        -- This answer would have cancelled the walk.
        simp only [hvisited, hcancelled, Bool.false_eq_true, if_false, if_true] at hnot
        exact absurd rfl hnot
      | false =>
        simp only [hvisited, Bool.false_eq_true, if_false]
        rfl

theorem Moves.never (h : Moves env s t) : Moves env.never s t := by
  cases h with
  | leave => exact .leave
  | pass hfollow => exact .pass (follow_never hfollow Step.noConfusion)
  | enter hfollow => exact .enter (follow_never hfollow Step.noConfusion)

theorem run_never (h : ReflTransGen (MovesWithin env limit) s t) : ReflTransGen (MovesWithin env.never limit) s t :=
  h.lift id fun _ _ h => ⟨h.1, h.2.never⟩

variable {sources : Sources} {cancelled : Nat → Bool} {root : ScopeFile} {questions : Nat}

/-- **A walk that comes to its end is the walk that nobody cancels.** -/
theorem walkFrom_of_finished (h : (walkFrom sources cancelled root questions).finished = true) :
    walkFrom sources (fun _ => false) root questions = walkFrom sources cancelled root questions := by
  obtain ⟨t, hrun, ⟨hstop, hwalk⟩ | ⟨_, _, hwalk⟩⟩ := walkFrom_run sources cancelled root questions
  · obtain ⟨t', hrun', ⟨hstop', hwalk'⟩ | ⟨_, hinterrupts, _⟩⟩ :=
      walkFrom_run sources (fun _ => false) root questions
    · rw [hwalk, hwalk', stop_unique (run_never hrun) hstop hrun' hstop']
    · exact absurd hinterrupts.cancelled Bool.false_ne_true
  · rw [hwalk] at h
    cases h

/-- **Cancelled or not, a walk reads what the walk that nobody cancels reads first.** -/
theorem reads_walkFrom (sources : Sources) (cancelled : Nat → Bool) (root : ScopeFile) (questions : Nat) :
    (walkFrom sources cancelled root questions).log.reads <:+
      (walkFrom sources (fun _ => false) root questions).log.reads := by
  obtain ⟨t, hrun, hwalk⟩ := walkFrom_run sources cancelled root questions
  obtain ⟨t', hrun', ⟨hstop', hwalk'⟩ | ⟨_, hinterrupts, _⟩⟩ := walkFrom_run sources (fun _ => false) root questions
  · -- The walk that nobody cancels comes by where the other one ends.
    have hreads : t.log.reads <:+ t'.log.reads := (run_suffixes (run_to_stop (run_never hrun) hrun' hstop')).2.2
    rw [hwalk']
    rcases hwalk with ⟨_, hwalk⟩ | ⟨log', hinterrupts, hwalk⟩
    · rw [hwalk]
      exact hreads
    · rw [hwalk, hinterrupts.reads]
      exact hreads
  · exact absurd hinterrupts.cancelled Bool.false_ne_true

/-- A walk asks until an answer is affirmative, and that cancels it. -/
theorem asked_walkFrom (sources : Sources) (cancelled : Nat → Bool) (root : ScopeFile) (questions : Nat) :
    Asked cancelled questions (walkFrom sources cancelled root questions).log.questions
      (!(walkFrom sources cancelled root questions).finished) := by
  obtain ⟨t, hrun, ⟨_, hwalk⟩ | ⟨log', hinterrupts, hwalk⟩⟩ := walkFrom_run sources cancelled root questions
  · rw [hwalk]
    exact (run_proceeds hrun).asked
  · rw [hwalk, hinterrupts.questions]
    exact (run_proceeds hrun).asked.trans (.stop hinterrupts.cancelled)

/-- A walk that comes to its end has asked as many questions as it has read documents. -/
theorem questions_walkFrom (h : (walkFrom sources cancelled root questions).finished = true) :
    (walkFrom sources cancelled root questions).log.questions =
      questions + (walkFrom sources cancelled root questions).log.reads.length := by
  obtain ⟨t, hrun, ⟨_, hwalk⟩ | ⟨_, _, hwalk⟩⟩ := walkFrom_run sources cancelled root questions
  · rw [hwalk]
    exact (run_proceeds hrun).counted
  · rw [hwalk] at h
    cases h

end Import

end LgLang
