import LgLang.Analysis
import LgLang.Proofs.Import.Cancellation

/-!
# Analyses that could be cancelled

Cancellation is all or nothing (`analyze_allOrNothing`). An analysis asks after parsing, before each read, after the walk
and before each file whether it is cancelled (`analyze_never`). The first affirmative answer ends it without a result;
without one it is the analysis that nobody cancels. In any case it has read what that one reads first.
-/

namespace LgLang

variable {ctx : AnalysisContext} {uri : Uri} {text : String} {cancelled : Nat → Bool}

/-! ## Questions behind the walk -/

theorem asked_askEach (cancelled : Nat → Bool) (question count : Nat) :
    Asked cancelled question (askEach cancelled question count).1 (!(askEach cancelled question count).2) := by
  induction count generalizing question with
  | zero => exact .done
  | succ count ih =>
    rw [askEach]
    split
    · next h => exact .stop h
    · next h => exact .next (Bool.eq_false_iff.2 h) (ih (question + 1))

/-- Where no answer was affirmative, all of the questions were asked. -/
theorem askEach_of_negative {question count : Nat} (h : (askEach cancelled question count).2 = true) :
    (askEach cancelled question count).1 = question + count := by
  induction count generalizing question with
  | zero => rfl
  | succ count ih =>
    rw [askEach] at h ⊢
    split at h
    · cases h
    · next hasked =>
      rw [if_neg hasked, ih h]
      omega

/-! ## What an analysis comes to -/

/-- How an analysis can end: cancelled when the document is parsed, during the walk, or behind it; or with a result. -/
inductive Ends (ctx : AnalysisContext) (uri : Uri) (text : String) (cancelled : Nat → Bool) : AnalysisRun → Prop
  | parsed (h : cancelled 0 = true) : Ends ctx uri text cancelled ⟨none, [], 1⟩
  | walking (h : cancelled 0 = false) (hwalk : (documentWalk ctx uri text cancelled).finished = false) :
      Ends ctx uri text cancelled ⟨none, (documentWalk ctx uri text cancelled).log.reads.reverse,
        (documentWalk ctx uri text cancelled).log.questions⟩
  | behind {questions : Nat} (h : cancelled 0 = false) (hwalk : (documentWalk ctx uri text cancelled).finished = true)
      (hasked : askEach cancelled (documentWalk ctx uri text cancelled).log.questions
        ((documentWalk ctx uri text cancelled).others.length + 2) = (questions, false)) :
      Ends ctx uri text cancelled ⟨none, (documentWalk ctx uri text cancelled).log.reads.reverse, questions⟩
  | complete {questions : Nat} (h : cancelled 0 = false)
      (hwalk : (documentWalk ctx uri text cancelled).finished = true)
      (hasked : askEach cancelled (documentWalk ctx uri text cancelled).log.questions
        ((documentWalk ctx uri text cancelled).others.length + 2) = (questions, true)) :
      Ends ctx uri text cancelled ⟨some (analyzeWalked ctx uri text (documentWalk ctx uri text cancelled)),
        (documentWalk ctx uri text cancelled).log.reads.reverse, questions⟩

theorem ends_analyze (ctx : AnalysisContext) (uri : Uri) (text : String) (cancelled : Nat → Bool) :
    Ends ctx uri text cancelled (analyze ctx uri text cancelled) := by
  unfold analyze
  split
  · next h => exact .parsed h
  · next h =>
    have hparsed := Bool.eq_false_iff.2 h
    dsimp only
    split
    · next hwalk =>
      split
      · next hasked => exact .behind hparsed hwalk hasked
      · next hasked => exact .complete hparsed hwalk hasked
    · next hwalk => exact .walking hparsed (Bool.eq_false_iff.2 hwalk)

variable {run : AnalysisRun}

/-- An analysis asks until an answer is affirmative, and that leaves it without a result. -/
theorem Ends.asked (h : Ends ctx uri text cancelled run) : Asked cancelled 0 run.questions run.result.isNone := by
  have hparsed : cancelled 0 = false → Asked cancelled 0 1 false := fun h => .next h .done
  have hwalking := Import.asked_walkFrom ctx.sources cancelled (.root uri text (Syntax.parse text).file) 1
  rw [← documentWalk] at hwalking
  have hbehind := asked_askEach cancelled (documentWalk ctx uri text cancelled).log.questions
    ((documentWalk ctx uri text cancelled).others.length + 2)
  cases h with
  | parsed h => exact .stop h
  | walking h hwalk =>
    rw [hwalk] at hwalking
    exact (hparsed h).trans hwalking
  | behind h hwalk hasked =>
    rw [hwalk] at hwalking
    rw [hasked] at hbehind
    exact ((hparsed h).trans hwalking).trans hbehind
  | complete h hwalk hasked =>
    rw [hwalk] at hwalking
    rw [hasked] at hbehind
    exact ((hparsed h).trans hwalking).trans hbehind

/-- With a result, an analysis has read all that it can read, and has asked about each read and each file, and twice
besides. -/
theorem Ends.of_result (h : Ends ctx uri text cancelled run) (hresult : run.result ≠ none) :
    run = ⟨some (analyzeDocument ctx uri text), documentReads ctx uri text,
      (documentReads ctx uri text).length + (analyzeDocument ctx uri text).scope.files.length + 2⟩ := by
  cases h with
  | parsed _ => exact absurd rfl hresult
  | walking _ _ => exact absurd rfl hresult
  | behind _ _ _ => exact absurd rfl hresult
  | @complete questions _ hwalk hasked =>
    have hsame : documentWalk ctx uri text (fun _ => false) = documentWalk ctx uri text cancelled :=
      Import.walkFrom_of_finished hwalk
    have hquestions := askEach_of_negative (congrArg Prod.snd hasked)
    have hreads : (documentWalk ctx uri text cancelled).log.questions = 1 + _ := Import.questions_walkFrom hwalk
    have hfiles : (analyzeWalked ctx uri text (documentWalk ctx uri text cancelled)).scope.files.length =
        (documentWalk ctx uri text cancelled).others.length + 1 := congrArg (· + 1) List.length_reverse
    rw [hasked, hreads] at hquestions
    rw [analyzeDocument, documentReads, hsame, AnalysisRun.mk.injEq, hfiles, List.length_reverse]
    refine ⟨rfl, rfl, ?_⟩
    rw [show questions = _ from hquestions]
    simp only [documentWalk]
    omega

/-- However it ends, an analysis has read what it reads first when nobody cancels it. -/
theorem Ends.reads (h : Ends ctx uri text cancelled run) : run.reads <+: documentReads ctx uri text := by
  have hwalk : (documentWalk ctx uri text cancelled).log.reads.reverse <+: documentReads ctx uri text :=
    List.reverse_prefix.2 (Import.reads_walkFrom ..)
  cases h with
  | parsed _ => exact List.nil_prefix
  | walking _ _ => exact hwalk
  | behind _ _ _ => exact hwalk
  | complete _ _ _ => exact hwalk

/-- **An analysis that nobody cancels** has a result. It asks after parsing, before each read, after the walk and before
each file. -/
theorem analyze_never (ctx : AnalysisContext) (uri : Uri) (text : String) :
    analyze ctx uri text (fun _ => false) = ⟨some (analyzeDocument ctx uri text), documentReads ctx uri text,
      (documentReads ctx uri text).length + (analyzeDocument ctx uri text).scope.files.length + 2⟩ := by
  have hends := ends_analyze ctx uri text fun _ => false
  refine hends.of_result fun hnone => ?_
  obtain ⟨_, _, _, haffirmative⟩ := hends.asked.stopped_iff.1 (by rw [hnone]; rfl)
  cases haffirmative

/-- An analysis that nobody cancels has its result. -/
theorem result_analyze_never : (analyze ctx uri text fun _ => false).result = some (analyzeDocument ctx uri text) :=
  congrArg AnalysisRun.result (analyze_never ctx uri text)

/-- An analysis that has a result has the one it has when nobody cancels it. -/
theorem eq_of_result_analyze {a : Analysis} (h : (analyze ctx uri text cancelled).result = some a) :
    a = analyzeDocument ctx uri text := by
  have hresult : (analyze ctx uri text cancelled).result ≠ none := by
    rw [h]
    exact Option.some_ne_none a
  rw [(ends_analyze ctx uri text cancelled).of_result hresult] at h
  exact (Option.some.inj h).symm

/-! ## All or nothing -/

/-- How an analysis that could be cancelled compares with the one that nobody cancels. -/
structure AllOrNothing (cancelled : Nat → Bool) (run full : AnalysisRun) : Prop where
  /-- There is no result exactly if one of the answers was affirmative. -/
  cancelled_iff : run.result = none ↔ ∃ k < run.questions, cancelled k = true
  /-- That was the last question. -/
  last : ∀ k < run.questions, cancelled k = true → k + 1 = run.questions
  /-- With a result the analysis is the one that nobody cancels. -/
  complete : run.result ≠ none → run = full
  /-- In any case it has read what that one reads first. -/
  reads : run.reads <+: full.reads

/-- **Cancellation is all or nothing**, whatever the answers are. -/
theorem analyze_allOrNothing (ctx : AnalysisContext) (uri : Uri) (text : String) (cancelled : Nat → Bool) :
    AllOrNothing cancelled (analyze ctx uri text cancelled) (analyze ctx uri text fun _ => false) := by
  have hends := ends_analyze ctx uri text cancelled
  refine ⟨?_, fun k hk => hends.asked.last k (Nat.zero_le k) hk, fun hresult => ?_, ?_⟩
  · rw [← Option.isNone_iff_eq_none, hends.asked.stopped_iff]
    simp only [Nat.zero_le, true_and]
  · rw [hends.of_result hresult, analyze_never]
  · rw [analyze_never]
    exact hends.reads

end LgLang
