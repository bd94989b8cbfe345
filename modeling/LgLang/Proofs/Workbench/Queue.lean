import LgLang.Expression.Scan
import LgLang.Function.Builtin
import LgLang.Proofs.Workbench.Steps
import Mathlib.Data.Finset.Card

/-!
# Every entry for its live job

Jobs are asked for, cancelled and finished in any order, and anything may happen to documents in between. At all times
the pending entries are those of the live jobs, each with the greatest number that was ever given for its document, and
the numbers count the jobs (`Ledger`). A job that ends takes no entry away but its own, so that the one that took its
place goes on. Of the jobs that are asked for in a row for one document, only the last one can be live behind them: if
none has committed its result by then, at most one ever does (`accounted_run`).
-/

namespace LgLang

open Workspace (Document Job JobStage Jobs Publisher)

namespace Workspace

/-- Whether a job has a result. -/
def JobStage.isAnalyzed : JobStage → Bool
  | .analyzed _ => true
  | _ => false

namespace Jobs

variable {js js' : Jobs} {i j : Job} {u : Uri} {n : Nat}

/-- The document and the number of every live job. -/
def liveEntries (js : Jobs) : List (Uri × Nat) :=
  (js.unfinished.filter fun j => !j.cancelled).map fun j => (j.uri, j.sequence)

theorem mem_liveEntries {entry : Uri × Nat} :
    entry ∈ js.liveEntries ↔ ∃ j, js.Live j ∧ (j.uri, j.sequence) = entry := by
  simp only [liveEntries, List.mem_map, List.mem_filter, Bool.not_eq_true', Live]

/-- **The pending entries are those of the live jobs.** -/
theorem Sound.liveEntries_perm (h : js.Sound) : js.liveEntries.Perm js.pending.toList := by
  have hlive : js.liveEntries.Nodup := by
    refine List.Nodup.of_map Prod.snd ?_
    unfold liveEntries
    rw [List.map_map]
    exact h.distinct.sublist (List.filter_sublist.map _)
  have hpending : js.pending.toList.Nodup := by
    refine List.Nodup.of_map Prod.fst ?_
    rw [Std.TreeMap.map_fst_toList_eq_keys]
    exact Std.TreeMap.nodup_keys
  refine (List.perm_ext_iff_of_nodup hlive hpending).2 fun entry => ?_
  obtain ⟨u, n⟩ := entry
  rw [mem_liveEntries, Std.TreeMap.mem_toList_iff_getElem?_eq_some, ← Std.TreeMap.get?_eq_getElem?, h.pending]
  simp only [Prod.mk.injEq]

/-- What a step of the job with a number does to the jobs. -/
inductive Stepped (js : Jobs) (n : Nat) : Jobs → Prop where
  | unchanged : Stepped js n js
  | moved (stage : JobStage) : Stepped js n (js.setStage n stage)
  | ended : Stepped js n (js.finish n)

theorem Stepped.sound (hstep : js.Stepped n js') (h : js.Sound) : js'.Sound := by
  cases hstep with
  | unchanged => exact h
  | moved stage => exact h.setStage n stage
  | ended => exact h.finish n

theorem Stepped.count (hstep : js.Stepped n js') : js'.count = js.count := by
  cases hstep with
  | unchanged | moved stage => rfl
  | ended => exact count_finish

theorem Stepped.live (hstep : js.Stepped n js') (h : js.Sound) (hj : js'.Live j) :
    ∃ i, js.Live i ∧ i.uri = j.uri ∧ i.sequence = j.sequence := by
  cases hstep with
  | unchanged => exact ⟨j, hj, rfl, rfl⟩
  | moved stage =>
    obtain ⟨i, hi, rfl⟩ := live_setStage.1 hj
    refine ⟨i, hi, ?_⟩
    split <;> exact ⟨rfl, rfl⟩
  | ended => exact ⟨j, (h.live_finish.1 hj).1, rfl, rfl⟩

/-- A step of a job takes away no entry but its own. -/
theorem Stepped.pending_eq (hstep : js.Stepped n js') (h : js.Sound) (hentry : js.pending.get? u ≠ some n) :
    js'.pending.get? u = js.pending.get? u := by
  cases hstep with
  | unchanged | moved stage => rfl
  | ended =>
    refine h.pending_finish_of_ne fun j hj huri hn => hentry ?_
    exact (h.pending u n).2 ⟨j, hj, huri, hn⟩

end Jobs

end Workspace

namespace Workbench

/-! ## Events -/

/-- What can happen to a workbench, in any order. -/
inductive Event where
  | scheduled (u : Uri) (delay : Nat)
  | cancelled (u : Uri)
  | cancelledAll
  | captured (n : Nat)
  | analyzed (s : Surroundings) (n : Nat)
  | committed (n : Nat)
  /-- A job ends before it has a result. -/
  | finished (n : Nat)
  /-- Something becomes of the documents and of what is published without the jobs. -/
  | elsewhere (workspace : Workspace) (publisher : Publisher Editor.Notice)

/-- The number of the job that takes a step. -/
def Event.number? : Event → Option Nat
  | .captured n | .analyzed _ n | .committed n | .finished n => some n
  | _ => none

def step (b : Workbench) : Event → Workbench
  | .scheduled u delay => (b.schedule u delay).1
  | .cancelled u => b.cancel u
  | .cancelledAll => b.cancelAll
  | .captured n => b.captureStep n
  | .analyzed s n => b.analyzeStep s n
  | .committed n => b.commitStep n
  | .finished n => b.finish n
  | .elsewhere workspace publisher => { b with workspace, publisher }

def run (b : Workbench) (es : List Event) : Workbench :=
  es.foldl step b

/-- What is noted of the events of a run, in order. -/
def noted {α : Type} (note : Workbench → Event → Option α) : Workbench → List Event → List α
  | _, [] => []
  | b, e :: es => (note b e).toList ++ noted note (b.step e) es

theorem noted_append {α : Type} (note : Workbench → Event → Option α) (b : Workbench) (es more : List Event) :
    noted note b (es ++ more) = noted note b es ++ noted note (b.run es) more := by
  induction es generalizing b with
  | nil => rfl
  | cons e es ih =>
    show (note b e).toList ++ noted note (b.step e) (es ++ more) = _
    rw [ih, ← List.append_assoc]
    rfl

/-- The number that is given for a document, if a job is asked for. -/
def given? (b : Workbench) : Event → Option (Uri × Nat)
  | .scheduled u delay => (b.schedule u delay).2.map fun n => (u, n)
  | _ => none

/-- The numbers that are given in a run. -/
def given (b : Workbench) (es : List Event) : List (Uri × Nat) :=
  noted given? b es

/-- The job that is not cancelled and comes to commit its result. -/
def committing? (b : Workbench) : Event → Option Job
  | .committed n => (b.jobs.find? n).filter fun j => !j.cancelled && j.stage.isAnalyzed
  | _ => none

/-- The jobs that come to commit their results in a run. -/
def committing (b : Workbench) (es : List Event) : List Job :=
  noted committing? b es

/-! ## What an event does to the jobs -/

variable {b : Workbench} {e : Event}

theorem captureStep_stepped (h : b.jobs.Sound) (n : Nat) : b.jobs.Stepped n (b.captureStep n).jobs := by
  cases captureStep_captures h n with
  | unchanged hafter _ =>
    rw [hafter]
    exact .unchanged
  | ended _ _ _ _ hafter =>
    rw [hafter]
    exact .ended
  | captured _ d _ _ _ hafter =>
    rw [hafter]
    exact .moved (.captured d.content)

theorem analyzeStep_stepped (h : b.jobs.Sound) (s : Surroundings) (n : Nat) :
    b.jobs.Stepped n (b.analyzeStep s n).jobs := by
  cases analyzeStep_analyzes h s n with
  | unchanged hafter _ =>
    rw [hafter]
    exact .unchanged
  | ended _ _ _ _ hafter =>
    rw [hafter]
    exact .ended
  | analyzed _ _ _ _ _ hafter =>
    rw [hafter]
    exact .moved _

theorem commitStep_stepped (h : b.jobs.Sound) (n : Nat) : b.jobs.Stepped n (b.commitStep n).jobs := by
  cases commitStep_commits h n with
  | unchanged hafter _ =>
    rw [hafter]
    exact .unchanged
  | ended _ _ _ _ _ _ hafter | accepted _ _ _ _ _ _ _ hafter =>
    rw [hafter]
    exact .ended

theorem stepped (h : b.jobs.Sound) {n : Nat} (he : e.number? = some n) : b.jobs.Stepped n (b.step e).jobs := by
  cases e with
  | captured m =>
    obtain rfl := Option.some.inj he
    exact captureStep_stepped h m
  | analyzed s m =>
    obtain rfl := Option.some.inj he
    exact analyzeStep_stepped h s m
  | committed m =>
    obtain rfl := Option.some.inj he
    exact commitStep_stepped h m
  | finished m =>
    obtain rfl := Option.some.inj he
    exact .ended
  | scheduled | cancelled | cancelledAll | elsewhere => cases he

/-- What an event can do to the jobs: one is asked for, or there are no new live ones. -/
inductive Moves (b : Workbench) (e : Event) : Prop where
  | asked (u : Uri) (version : Int) (delay : Nat) (hgiven : b.given? e = some (u, b.jobs.count + 1))
      (hjobs : (b.step e).jobs = b.jobs.schedule u version delay)
  | kept (hgiven : b.given? e = none) (hsound : (b.step e).jobs.Sound) (hcount : (b.step e).jobs.count = b.jobs.count)
      (hlive : ∀ j, (b.step e).jobs.Live j → ∃ i, b.jobs.Live i ∧ i.uri = j.uri ∧ i.sequence = j.sequence)

theorem schedule_of_closed {u : Uri} (hget : b.workspace.documents.get? u = none) (delay : Nat) :
    b.schedule u delay = (b, none) := by
  unfold schedule
  rw [hget]

theorem schedule_of_open {u : Uri} {d : Document} (hget : b.workspace.documents.get? u = some d) (delay : Nat) :
    b.schedule u delay = ({ b with jobs := b.jobs.schedule u d.version delay }, some (b.jobs.count + 1)) := by
  unfold schedule
  rw [hget]

theorem moves_scheduled (h : b.jobs.Sound) (u : Uri) (delay : Nat) : b.Moves (.scheduled u delay) := by
  cases hget : b.workspace.documents.get? u with
  | none =>
    have hschedule := schedule_of_closed hget delay
    have hstep : b.step (.scheduled u delay) = b := congrArg Prod.fst hschedule
    refine .kept (congrArg (fun asked => Option.map _ (Prod.snd asked)) hschedule) ?_ ?_ ?_
    all_goals rw [hstep]
    · exact h
    · exact fun j hj => ⟨j, hj, rfl, rfl⟩
  | some d =>
    have hschedule := schedule_of_open hget delay
    refine .asked u d.version delay ?_ ?_
    · exact congrArg (fun asked => Option.map _ (Prod.snd asked)) hschedule
    · exact congrArg (fun asked => (Prod.fst asked).jobs) hschedule

/-- **An event asks for a job, or the live jobs behind it were live before.** -/
theorem moves (h : b.jobs.Sound) (e : Event) : b.Moves e := by
  have hstepped : ∀ n, e.number? = some n → b.given? e = none → b.Moves e := by
    intro n hn hgiven
    have hstep := stepped h hn
    exact .kept hgiven (hstep.sound h) hstep.count fun j hj => hstep.live h hj
  cases e with
  | scheduled u delay => exact moves_scheduled h u delay
  | cancelled u => exact .kept rfl (h.cancel u) Jobs.count_cancel fun j hj => ⟨j, (h.live_cancel.1 hj).1, rfl, rfl⟩
  | cancelledAll => exact .kept rfl h.cancelAll rfl fun j hj => absurd hj (h.not_live_cancelAll j)
  | captured n | analyzed _ n | committed n | finished n => exact hstepped n rfl rfl
  | elsewhere workspace publisher => exact .kept rfl h rfl fun j hj => ⟨j, hj, rfl, rfl⟩

theorem sound_step (h : b.jobs.Sound) (e : Event) : (b.step e).jobs.Sound := by
  cases moves h e with
  | asked u version delay _ hjobs => exact hjobs ▸ h.schedule u version delay
  | kept _ hsound _ _ => exact hsound

theorem count_le_step (h : b.jobs.Sound) (e : Event) : b.jobs.count ≤ (b.step e).jobs.count := by
  cases moves h e with
  | asked u version delay _ hjobs =>
    rw [hjobs]
    exact Nat.le_succ _
  | kept _ _ hcount _ => exact Nat.le_of_eq hcount.symm

theorem live_step (h : b.jobs.Sound) {j : Job} (hj : (b.step e).jobs.Live j) :
    (∃ i, b.jobs.Live i ∧ i.uri = j.uri ∧ i.sequence = j.sequence) ∨ b.jobs.count < j.sequence := by
  cases moves h e with
  | asked u version delay _ hjobs =>
    rw [hjobs] at hj
    rcases h.live_schedule.1 hj with rfl | ⟨hj, _⟩
    · exact Or.inr (Nat.lt_succ_self _)
    · exact Or.inl ⟨j, hj, rfl, rfl⟩
  | kept _ _ _ hlive => exact Or.inl (hlive j hj)

/-! ## The numbers that are given -/

/-- The numbers that have been given count the jobs, and a live job has the last one of its document. -/
structure Ledger (b : Workbench) (entries : List (Uri × Nat)) : Prop where
  sound : b.jobs.Sound
  numbers : entries.map Prod.snd = List.range' 1 b.jobs.count
  live : ∀ j, b.jobs.Live j → (j.uri, j.sequence) ∈ entries ∧ ∀ n, (j.uri, n) ∈ entries → n ≤ j.sequence

variable {entries : List (Uri × Nat)} {u : Uri} {n : Nat}

theorem ledger_start (config : Config) : (start config).Ledger [] where
  sound := Jobs.sound_empty
  numbers := rfl
  live _ hj := absurd hj.1 List.not_mem_nil

theorem Ledger.le_count (h : b.Ledger entries) (hmem : (u, n) ∈ entries) : n ≤ b.jobs.count := by
  have hn : n ∈ List.range' 1 b.jobs.count := h.numbers ▸ List.mem_map_of_mem hmem
  have hrange := List.mem_range'_1.1 hn
  omega

/-- No number is given twice. -/
theorem Ledger.uri_eq (h : b.Ledger entries) {v : Uri} (hu : (u, n) ∈ entries) (hv : (v, n) ∈ entries) : u = v := by
  have hnodup : (entries.map Prod.snd).Nodup := by
    rw [h.numbers]
    exact List.nodup_range'
  exact congrArg Prod.fst (List.inj_on_of_nodup_map hnodup hu hv rfl)

theorem Ledger.step (h : b.Ledger entries) (e : Event) : (b.step e).Ledger (entries ++ (b.given? e).toList) := by
  cases moves h.sound e with
  | asked u version delay hgiven hjobs =>
    rw [hgiven, Option.toList_some]
    refine ⟨?_, ?_, ?_⟩
    all_goals rw [hjobs]
    · exact h.sound.schedule u version delay
    · show (entries ++ [(u, b.jobs.count + 1)]).map Prod.snd = List.range' 1 (b.jobs.count + 1)
      rw [List.map_append, h.numbers, List.range'_1_concat, Nat.add_comm 1]
      rfl
    · intro j hj
      rcases h.sound.live_schedule.1 hj with rfl | ⟨hj, hne⟩
      · refine ⟨List.mem_append_right _ List.mem_cons_self, fun n hn => ?_⟩
        rcases List.mem_append.1 hn with hold | hnew
        · exact Nat.le_succ_of_le (h.le_count hold)
        · exact Nat.le_of_eq (congrArg Prod.snd (List.mem_singleton.1 hnew))
      · obtain ⟨hmem, hlatest⟩ := h.live j hj
        refine ⟨List.mem_append_left _ hmem, fun n hn => ?_⟩
        rcases List.mem_append.1 hn with hold | hnew
        · exact hlatest n hold
        · exact absurd (congrArg Prod.fst (List.mem_singleton.1 hnew)) hne
  | kept hgiven hsound hcount hlive =>
    rw [hgiven, Option.toList_none, List.append_nil]
    refine ⟨hsound, hcount ▸ h.numbers, fun j hj => ?_⟩
    obtain ⟨i, hi, huri, hsequence⟩ := hlive j hj
    rw [← huri, ← hsequence]
    exact h.live i hi

theorem Ledger.run (h : b.Ledger entries) (es : List Event) : (b.run es).Ledger (entries ++ b.given es) := by
  induction es generalizing b entries with
  | nil =>
    show b.Ledger (entries ++ [])
    rwa [List.append_nil]
  | cons e es ih =>
    show ((b.step e).run es).Ledger (entries ++ ((b.given? e).toList ++ (b.step e).given es))
    rw [← List.append_assoc]
    exact ih (h.step e)

/-! ## Commits -/

theorem committing?_eq_some (h : b.jobs.Sound) {j : Job} (hj : b.committing? e = some j) :
    e = .committed j.sequence ∧ b.jobs.Live j ∧ ∃ a, j.stage = .analyzed a := by
  cases e with
  | committed n =>
    obtain ⟨hfind, hready⟩ := Option.filter_eq_some_iff.1 hj
    obtain ⟨hmem, rfl⟩ := h.find?_eq_some.1 hfind
    rw [Bool.and_eq_true, Bool.not_eq_true'] at hready
    refine ⟨rfl, ⟨hmem, hready.1⟩, ?_⟩
    cases hstage : j.stage with
    | analyzed a => exact ⟨a, rfl⟩
    | waiting | captured _ =>
      rw [hstage] at hready
      cases hready.2
  | scheduled | cancelled | cancelledAll | captured | analyzed | finished | elsewhere => cases hj

/-- Only a job that comes to commit its result changes what is kept or published. -/
theorem commitStep_of_none (h : b.jobs.Sound) (hnone : b.committing? (.committed n) = none) :
    (b.commitStep n).workspace = b.workspace ∧ (b.commitStep n).publisher = b.publisher := by
  cases commitStep_commits h n with
  | unchanged hafter _ | ended _ _ _ _ _ _ hafter =>
    rw [hafter]
    exact ⟨rfl, rfl⟩
  | accepted j a hj hn hstage _ _ _ =>
    have hsome : b.committing? (.committed n) = some j := by
      refine Option.filter_eq_some_iff.2 ⟨h.find?_eq_some.2 ⟨hj.1, hn⟩, ?_⟩
      rw [hj.2, hstage]
      rfl
    cases hnone.symm.trans hsome

/-- A job that comes to commit its result in a run was live before, or it was asked for since. -/
theorem live_of_mem_committing (h : b.jobs.Sound) {es : List Event} {j : Job} (hj : j ∈ b.committing es) :
    (∃ i, b.jobs.Live i ∧ i.uri = j.uri ∧ i.sequence = j.sequence) ∨ b.jobs.count < j.sequence := by
  induction es generalizing b with
  | nil => exact absurd hj List.not_mem_nil
  | cons e es ih =>
    rcases List.mem_append.1 hj with hfirst | hlater
    · obtain ⟨-, hlive, -⟩ := committing?_eq_some h (Option.mem_toList.1 hfirst)
      exact Or.inl ⟨j, hlive, rfl, rfl⟩
    · rcases ih (sound_step h e) hlater with ⟨i, hi, huri, hsequence⟩ | hnew
      · rw [← huri, ← hsequence]
        exact live_step h hi
      · exact Or.inr (Nat.lt_of_le_of_lt (count_le_step h e) hnew)

/-- A job that has come to commit its result is done. -/
theorem jobs_commitStep (h : b.jobs.Sound) {j : Job} (hj : b.committing? (.committed n) = some j) :
    (b.commitStep n).jobs = b.jobs.finish n := by
  obtain ⟨hn, hlive, a, hstage⟩ := committing?_eq_some h hj
  cases commitStep_commits h n with
  | unchanged _ hnone => exact absurd hstage (hnone j hlive.1 (Event.committed.inj hn).symm a)
  | ended _ _ _ _ _ _ hafter | accepted _ _ _ _ _ _ _ hafter =>
    rw [hafter]
    rfl

/-- **No job commits twice.** -/
theorem nodup_committing (h : b.jobs.Sound) (es : List Event) : ((b.committing es).map (·.sequence)).Nodup := by
  induction es generalizing b with
  | nil => exact List.nodup_nil
  | cons e es ih =>
    show (((b.committing? e).toList ++ (b.step e).committing es).map (·.sequence)).Nodup
    cases hfirst : b.committing? e with
    | none => exact ih (sound_step h e)
    | some j =>
      obtain ⟨rfl, hlive, -⟩ := committing?_eq_some h hfirst
      rw [Option.toList_some, List.singleton_append, List.map_cons, List.nodup_cons]
      refine ⟨fun hmem => ?_, ih (sound_step h _)⟩
      -- The job has left the live ones, and later jobs have greater numbers.
      obtain ⟨i, hi, hsequence⟩ := List.mem_map.1 hmem
      have hjobs : (b.step (.committed j.sequence)).jobs = b.jobs.finish j.sequence := jobs_commitStep h hfirst
      rcases live_of_mem_committing (sound_step h _) hi with ⟨k, hk, -, hk'⟩ | hnew
      · rw [hjobs] at hk
        exact (h.live_finish.1 hk).2 (hk'.trans hsequence)
      · rw [hjobs, Jobs.count_finish, hsequence] at hnew
        exact absurd (h.numbers j hlive.1) (Nat.not_le.2 hnew)

/-- The number of a job that was asked for in the first part of a run and commits in the second one is that of the job
which is live in between. -/
theorem Ledger.live_of_mem_committing (h : b.Ledger entries) {es : List Event} {j : Job} (hj : j ∈ b.committing es)
    (hentry : (u, j.sequence) ∈ entries) : ∃ i, b.jobs.Live i ∧ i.uri = u ∧ i.sequence = j.sequence := by
  rcases Workbench.live_of_mem_committing h.sound hj with ⟨i, hi, -, hsequence⟩ | hnew
  · have hown := (h.live i hi).1
    rw [hsequence] at hown
    exact ⟨i, hi, h.uri_eq hown hentry, hsequence⟩
  · exact absurd (h.le_count hentry) (Nat.not_le.2 hnew)

/-- **Of the jobs that are asked for in a row for one document, at most one commits,** if none does so in between. -/
theorem Ledger.committing_le_one (h : b.Ledger entries) (u : Uri) (burst after : List Event)
    (hnone : ∀ j ∈ b.committing burst, (u, j.sequence) ∉ b.given burst) :
    ((b.committing (burst ++ after)).filter fun j => (u, j.sequence) ∈ b.given burst).length ≤ 1 := by
  have hledger := h.run burst
  have hlater : ((b.committing (burst ++ after)).filter fun j => (u, j.sequence) ∈ b.given burst) =
      ((b.run burst).committing after).filter fun j => (u, j.sequence) ∈ b.given burst := by
    have hburst : ((b.committing burst).filter fun j => (u, j.sequence) ∈ b.given burst) = [] :=
      List.filter_eq_nil_iff.2 fun j hj => by simpa using hnone j hj
    unfold committing at hburst ⊢
    rw [noted_append, List.filter_append, hburst, List.nil_append]
  rw [hlater]
  -- All of them have the number of the job that is live behind the first part.
  have hlive : ∀ j ∈ ((b.run burst).committing after).filter fun j => (u, j.sequence) ∈ b.given burst,
      ∃ i, (b.run burst).jobs.Live i ∧ i.uri = u ∧ i.sequence = j.sequence := by
    intro j hj
    obtain ⟨hj, hgiven⟩ := List.mem_filter.1 hj
    exact hledger.live_of_mem_committing hj (List.mem_append_right _ (of_decide_eq_true hgiven))
  have hnodup := (nodup_committing hledger.sound after).sublist
    ((List.filter_sublist (p := fun j : Job => (u, j.sequence) ∈ b.given burst)).map fun j : Job => j.sequence)
  rw [← List.length_map fun j : Job => j.sequence, ← List.toFinset_card_of_nodup hnodup, Finset.card_le_one]
  intro n hn m hm
  obtain ⟨j, hj, rfl⟩ := List.mem_map.1 (List.mem_toFinset.1 hn)
  obtain ⟨j', hj', rfl⟩ := List.mem_map.1 (List.mem_toFinset.1 hm)
  obtain ⟨i, hi, huri, hsequence⟩ := hlive j hj
  obtain ⟨i', hi', huri', hsequence'⟩ := hlive j' hj'
  rw [← hsequence, ← hsequence', hledger.sound.live_unique hi hi' (huri.trans huri'.symm)]

/-! ## What holds at all times -/

/-- What holds of the jobs of a workbench, if these numbers have been given for documents. -/
structure Accounted (b : Workbench) (entries : List (Uri × Nat)) : Prop where
  pending : b.jobs.liveEntries.Perm b.jobs.pending.toList
  unique : ∀ i j, b.jobs.Live i → b.jobs.Live j → i.uri = j.uri → i = j
  latest : ∀ j, b.jobs.Live j → (j.uri, j.sequence) ∈ entries ∧ ∀ n, (j.uri, n) ∈ entries → n ≤ j.sequence
  numbers : entries.map Prod.snd = List.range' 1 b.jobs.count
  /-- A job for an open document gets the next number and takes the place of the one before. -/
  asked : ∀ u d delay, b.workspace.documents.get? u = some d →
    b.given? (.scheduled u delay) = some (u, b.jobs.count + 1) ∧
      ∀ j, (b.step (.scheduled u delay)).jobs.Live j ↔
        j = ⟨u, d.version, b.jobs.count + 1, delay, false, .waiting⟩ ∨ (b.jobs.Live j ∧ j.uri ≠ u)
  cancelled : ∀ u j, (b.step (.cancelled u)).jobs.Live j ↔ b.jobs.Live j ∧ j.uri ≠ u
  cancelledAll : ∀ j, ¬ (b.step .cancelledAll).jobs.Live j
  finished : ∀ n j, (b.step (.finished n)).jobs.Live j ↔ b.jobs.Live j ∧ j.sequence ≠ n
  /-- A step of a job leaves every entry that is not its own. -/
  late : ∀ e n u, e.number? = some n → b.jobs.pending.get? u ≠ some n →
    (b.step e).jobs.pending.get? u = b.jobs.pending.get? u
  /-- Nothing is kept or published without a job that comes to commit its result. -/
  silent : ∀ n, b.committing? (.committed n) = none →
    (b.step (.committed n)).workspace = b.workspace ∧ (b.step (.committed n)).publisher = b.publisher
  /-- Of the jobs that are asked for in a row for a document, at most one commits its result, unless one does so before
  the last one is asked for. -/
  once : ∀ u burst after, (∀ j ∈ b.committing burst, (u, j.sequence) ∉ b.given burst) →
    ((b.committing (burst ++ after)).filter fun j => (u, j.sequence) ∈ b.given burst).length ≤ 1

theorem live_scheduled (h : b.jobs.Sound) {d : Document} (hget : b.workspace.documents.get? u = some d) (delay : Nat) :
    b.given? (.scheduled u delay) = some (u, b.jobs.count + 1) ∧
      ∀ j, (b.step (.scheduled u delay)).jobs.Live j ↔
        j = ⟨u, d.version, b.jobs.count + 1, delay, false, .waiting⟩ ∨ (b.jobs.Live j ∧ j.uri ≠ u) := by
  have hschedule := schedule_of_open hget delay
  have hjobs : (b.step (.scheduled u delay)).jobs = b.jobs.schedule u d.version delay :=
    congrArg (fun asked => (Prod.fst asked).jobs) hschedule
  refine ⟨congrArg (fun asked => Option.map _ (Prod.snd asked)) hschedule, fun j => ?_⟩
  rw [hjobs]
  exact h.live_schedule

theorem Ledger.accounted (h : b.Ledger entries) : b.Accounted entries where
  pending := h.sound.liveEntries_perm
  unique _ _ hi hj huri := h.sound.live_unique hi hj huri
  latest := h.live
  numbers := h.numbers
  asked _ _ delay hget := live_scheduled h.sound hget delay
  cancelled _ _ := h.sound.live_cancel
  cancelledAll := h.sound.not_live_cancelAll
  finished _ _ := h.sound.live_finish
  late _ _ _ hn hentry := (stepped h.sound hn).pending_eq h.sound hentry
  silent _ hnone := commitStep_of_none h.sound hnone
  once := h.committing_le_one

/-- **Whatever happens, every pending entry stands for its one live job, and jobs that are asked for in a row commit at
most once.** -/
theorem accounted_run (config : Config) (es : List Event) :
    ((start config).run es).Accounted ((start config).given es) :=
  ((ledger_start config).run es).accounted

/-- No files, and the functions that the program comes with. -/
def withoutFiles : Surroundings where
  engine := Expression.builtinEngine
  functions := .builtin
  disk := { entry := fun _ => .error .notFound, canonical := fun path => .ok path }

/-- A document is open. -/
def opening : List Event :=
  [.elsewhere ((Workspace.start .default).openDocument ⟨"file:///main.lg"⟩ ⟨1, "# A\n- a", "lg"⟩) .empty]

/-- A second job is asked for when the first one has found its result. -/
def burst : List Event :=
  [.scheduled ⟨"file:///main.lg"⟩ 0, .captured 1, .analyzed withoutFiles 1, .scheduled ⟨"file:///main.lg"⟩ 300]

/-- Only then does the first one come to its end. -/
def outcome : List Event :=
  [.committed 1, .captured 2, .analyzed withoutFiles 2, .committed 2]

theorem accounted_run_burst :
    ((start .default).run opening).given burst = [(⟨"file:///main.lg"⟩, 1), (⟨"file:///main.lg"⟩, 2)] ∧
      (((start .default).run opening).committing (burst ++ outcome)).map (·.sequence) = [2] ∧
      ((((start .default).run opening).committing (burst ++ outcome)).filter fun j =>
        (⟨"file:///main.lg"⟩, j.sequence) ∈ ((start .default).run opening).given burst).length ≤ 1 ∧
      (((start .default).run (opening ++ burst)).step (.committed 1)).jobs.pending.get? ⟨"file:///main.lg"⟩ =
        some 2 := by
  have hnone : (((start .default).run opening).committing burst).isEmpty = true := by decide +kernel
  have hpending : ((start .default).run (opening ++ burst)).jobs.pending.get? ⟨"file:///main.lg"⟩ = some 2 := by
    decide +kernel
  refine ⟨by decide +kernel, by decide +kernel, ?_, ?_⟩
  · refine (accounted_run .default opening).once _ _ _ fun j hj => ?_
    rw [List.isEmpty_iff.1 hnone] at hj
    exact absurd hj List.not_mem_nil
  · refine ((accounted_run .default (opening ++ burst)).late (.committed 1) 1 _ rfl ?_).trans hpending
    rw [hpending]
    decide

end Workbench

end LgLang
