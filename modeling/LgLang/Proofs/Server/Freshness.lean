import LgLang.Expression.Scan
import LgLang.Function.Builtin
import LgLang.Proofs.Server.Steps

/-!
# Are answers fresh?

Features answer from a kept result as long as it is not outdated and of the version of its document. What is asked
here is whether this is always the analysis that would be made now, if every job takes its steps at once. It is not:
nothing is outdated when a document is opened, and a file that could not be read is not among the dependencies of the
result that asked for it. `fresh_iff` says exactly which events do harm (`Keeps` fails for them) and that there are no
others.
-/

namespace LgLang.Scene

open Import (answer)
open Workspace (Document Snapshot Job Jobs)

variable {sc sc' : Scene} {u v w : Uri} {document : Document} {b : Basis} {n : Nat}

/-! ## Results that count -/

/-- The result that is kept for a document counts for this version, and it was made of `b`. -/
def Counts (sc : Scene) (u : Uri) (version : Int) (b : Basis) : Prop :=
  ∃ s, sc.kept? u = some s ∧ s.isCurrent version = true ∧ sc.basis s.tag.sequence = some b

/-- Features answer for an open document from a result that was made of `b`. -/
def Held (sc : Scene) (u : Uri) (document : Document) (b : Basis) : Prop :=
  sc.document? u = some document ∧ sc.Counts u document.version b

/-- Features answer from the analysis that would be made now. -/
def Fresh (sc : Scene) : Prop :=
  ∀ u document, sc.document? u = some document →
    (sc.workspace.currentAnalysis? sc.surroundings u).map (·.analysis) = some (sc.fresh u document.content)

/-- What features are given for an open document is what would be made now, unless a result counts that disagrees. -/
theorem currentAnalysis?_eq_iff (hsc : sc.Sound) (hdocument : sc.document? u = some document) :
    (sc.workspace.currentAnalysis? sc.surroundings u).map (·.analysis) = some (sc.fresh u document.content) ↔
      ∀ b, sc.Counts u document.version b → sc.Agrees b u document.content := by
  have hget : sc.workspace.documents.get? u = some document := hdocument
  unfold Workspace.currentAnalysis?
  simp only [hget]
  cases hs : sc.kept? u with
  | none =>
    have hs' : sc.workspace.snapshots.get? u = none := hs
    simp only [hs', Option.map_some, hsc.analyze_fst, true_iff]
    rintro b ⟨s, hkept, _⟩
    cases hs.symm.trans hkept
  | some s =>
    have hs' : sc.workspace.snapshots.get? u = some s := hs
    by_cases hcurrent : s.isCurrent document.version = true
    · -- The kept result was made of one basis only, so that there is one agreement to show.
      obtain ⟨b, hb, hanalysis⟩ := (hsc.kept u s hs).made
      simp only [hs', hcurrent, if_true, Option.map_some, Option.some.injEq, hanalysis]
      refine analysis_eq_fresh_iff.trans ⟨fun h b' hb' => ?_, fun h => h b ⟨s, hs, hcurrent, hb⟩⟩
      obtain ⟨s', hkept, _, hbasis⟩ := hb'
      obtain rfl := Option.some.inj (hs.symm.trans hkept)
      obtain rfl := Option.some.inj (hb.symm.trans hbasis)
      exact h
    · simp only [hs', if_neg hcurrent, Option.map_some, hsc.analyze_fst, true_iff]
      rintro b ⟨s', hkept, hcurrent', _⟩
      obtain rfl := Option.some.inj (hs.symm.trans hkept)
      exact absurd hcurrent' hcurrent

/-- **Answers are fresh exactly when all results that count agree with the open documents and the disk.** -/
theorem fresh_iff_agrees (hsc : sc.Sound) :
    sc.Fresh ↔ ∀ u document b, sc.Held u document b → sc.Agrees b u document.content := by
  constructor
  · intro h u document b hheld
    exact (currentAnalysis?_eq_iff hsc hheld.1).1 (h u document hheld.1) b hheld.2
  · intro h u document hdocument
    exact (currentAnalysis?_eq_iff hsc hdocument).2 fun b hb => h u document b ⟨hdocument, hb⟩

/-! ## Notices that outdate results -/

variable {workspace : Workspace} {which : Uri → Prop} {marks : Prop}

/-- A result that counts and that the notice has left alone counted before, and what it read is as it was. -/
theorem Follows.held (h : sc.Follows sc' workspace which marks) (hsc : sc.Sound) (hheld : sc'.Held u document b)
    (hnot : ¬ which u) :
    sc.Held u document b ∧ ∀ v ∈ b.reads sc.surroundings u, ∀ text, b.read v = .ok text → sc'.read v = sc.read v := by
  obtain ⟨hdocument, s, hs, hcurrent, hb⟩ := hheld
  obtain ⟨hdocument', hkept, hreads⟩ := h.others hdocument hnot
  rw [hkept] at hs
  rw [h.basis_eq] at hb
  refine ⟨⟨hdocument', s, hs, hcurrent, hb⟩, fun v hv text htext => ?_⟩
  exact hreads s hs v ((hsc.kept u s hs).mem_dependencies_of_read hb hv htext)

/-- A notice that outdates results does so for every document with a new job. -/
theorem Follows.not_of_held (h : sc.Follows sc' workspace which True) (hheld : sc'.Held u document b) : ¬ which u := by
  intro hwhich
  obtain ⟨_, s, hs, hcurrent, _⟩ := hheld
  obtain ⟨_, _, _, _, hstale⟩ := h.kept hs
  unfold Snapshot.isCurrent at hcurrent
  rw [hstale trivial hwhich] at hcurrent
  cases hcurrent

/-- Behind a notice that outdates results, only what could not be read can be wrong. -/
theorem Follows.fresh_iff (h : sc.Follows sc' workspace which True) (hsc : sc.Sound) (hfresh : sc.Fresh) :
    sc'.Fresh ↔ ∀ w document b, sc'.Held w document b → ∀ v ∈ b.reads sc.surroundings w, b.Fails v →
      answer b.read v = answer sc'.read v := by
  rw [fresh_iff_agrees (h.sound hsc)]
  rw [fresh_iff_agrees hsc] at hfresh
  constructor
  · intro hagrees w document b hheld v hv _
    exact (hagrees w document b hheld).2 v ((h.reads_eq b w).symm ▸ hv)
  · intro hfails w document b hheld
    obtain ⟨hbefore, hreads⟩ := h.held hsc hheld (h.not_of_held hheld)
    obtain ⟨htext, hagree⟩ := hfresh w document b hbefore
    refine ⟨htext, fun v hv => ?_⟩
    rw [h.reads_eq] at hv
    by_cases hread : ∃ text, b.read v = .ok text
    · obtain ⟨text, hread⟩ := hread
      have hsame : answer sc'.read v = answer sc.read v := by
        unfold answer
        rw [hreads v hv text hread]
      exact (hagree v hv).trans hsame.symm
    · exact hfails w document b hheld v hv fun text htext => hread ⟨text, htext⟩

/-- No harm is done if what changes could be read before. -/
theorem Follows.fresh (h : sc.Follows sc' workspace which True) (hsc : sc.Sound) (hfresh : sc.Fresh)
    (hreads : ∀ v, (∃ text, sc.read v = .ok text) ∨ sc'.read v = sc.read v) : sc'.Fresh := by
  refine (h.fresh_iff hsc hfresh).2 fun w document b hheld v hv hfails => ?_
  obtain ⟨hbefore, _⟩ := h.held hsc hheld (h.not_of_held hheld)
  have hagree := ((fresh_iff_agrees hsc).1 hfresh w document b hbefore).2 v hv
  rcases hreads v with ⟨text, htext⟩ | hsame
  · -- The result would have been told the text as well.
    rw [Import.answer_ok.2 htext] at hagree
    exact absurd (Import.answer_ok.1 hagree) (hfails text)
  · rw [hagree]
    unfold answer
    rw [hsame]

theorem changed_fresh (hsc : sc.Sound) (hfresh : sc.Fresh) (u : Uri) (version : Int) (changes : List Workspace.Change) :
    (sc.step (.changed u version changes)).Fresh := by
  cases h : sc.workspace.changeDocument u version changes with
  | error _ =>
    rw [step_changed_error hsc h]
    exact hfresh
  | ok workspace =>
    have hfollows := follows_changed hsc h
    obtain ⟨old, new, hchanged⟩ := Workspace.changeDocument_followed h
    refine hfollows.fresh hsc hfresh fun v => ?_
    by_cases hv : u = v
    · subst hv
      exact Or.inl ⟨_, Workspace.present_of_get? hchanged.document⟩
    · refine Or.inr ?_
      unfold read
      rw [hfollows.workspace_eq]
      exact Workspace.present_congr ((hchanged.documents v).trans (if_neg hv))

theorem closed_fresh (hsc : sc.Sound) (hfresh : sc.Fresh) (u : Uri) : (sc.step (.closed u)).Fresh := by
  have hfollows := follows_closed hsc u
  refine hfollows.fresh hsc hfresh fun v => ?_
  have hget := Workspace.Documents.get?_close sc.workspace.documents u v
  by_cases hopen : u = v ∧ sc.document? u ≠ none
  · obtain ⟨rfl, hopen⟩ := hopen
    obtain ⟨document, hdocument⟩ := Option.ne_none_iff_exists'.1 hopen
    exact Or.inl ⟨_, Workspace.present_of_get? hdocument⟩
  · refine Or.inr ?_
    unfold read
    rw [hfollows.workspace_eq]
    refine Workspace.present_congr (hget.trans ?_)
    split
    · rename_i hv
      subst hv
      exact (not_not.1 fun hsome => hopen ⟨rfl, hsome⟩).symm
    · rfl

/-! ## Jobs that take all of their steps -/

/-- What documents say depends on the open documents and the disk only. -/
theorem read_congr (hdocuments : sc'.workspace.documents = sc.workspace.documents)
    (hdisk : sc'.surroundings.disk = sc.surroundings.disk) : sc'.read = sc.read := by
  unfold read
  rw [hdisk]
  funext v
  exact Workspace.present_congr (by rw [hdocuments])

theorem documents_ran (hsc : sc.Sound) (n : Nat) : (sc.step (.ran n)).workspace.documents = sc.workspace.documents := by
  have hcapture := hsc.capture n
  have hanalyze := hcapture.analyze n
  refine (Workbench.documents_commitStep hanalyze.jobs n).trans ?_
  refine (Workbench.documents_analyzeStep hcapture.jobs _ n).trans ?_
  exact congrArg Workspace.documents (Workbench.workspace_captureStep hsc.jobs n)

theorem read_ran (hsc : sc.Sound) (n : Nat) : (sc.step (.ran n)).read = sc.read :=
  read_congr (documents_ran hsc n) rfl

/-- What an analysis is made of does not concern the results that are kept by then. -/
theorem basis_analyze_of_kept (hsc : sc.Sound) {s : Snapshot Workspace.Result} (hs : sc.kept? u = some s) (n : Nat) :
    (sc.analyze n).basis s.tag.sequence = sc.basis s.tag.sequence := by
  by_cases hn : s.tag.sequence = n
  · have hnone : sc.capturedText? n = none := by
      rw [Option.eq_none_iff_forall_ne_some]
      intro text hsome
      obtain ⟨j, hj, hjn, _⟩ := (capturedText?_eq_some hsc.jobs).1 hsome
      exact (hsc.kept u s hs).finished j hj.1 (hjn.trans hn.symm)
    rw [basis_analyze, hnone, hn, if_pos rfl]
    rfl
  · exact basis_analyze_of_ne hn

/-- A job that has captured a text analyzes the text of its document. -/
theorem basis_analyze_of_live (hsc : sc.Sound)
    (hresting : sc.bench.RestingBut n fun stage => ∃ text, stage = .captured text) {j : Job}
    (hj : (sc.analyze n).bench.jobs.Live j) (hn : j.sequence = n) (hdocument : sc.document? j.uri = some document) :
    (sc.analyze n).basis n = some ⟨document.content, sc.read⟩ := by
  have hj' : (sc.bench.analyzeStep sc.surroundings n).jobs.Live j := hj
  cases Workbench.analyzeStep_analyzes hsc.jobs sc.surroundings n with
  | unchanged hafter hstage =>
    rw [hafter] at hj'
    obtain ⟨_, text, htext⟩ := (hresting j hj'.1).resolve_right fun hother => hother.1 hn
    exact absurd htext (hstage j hj'.1 hn text)
  | ended _ _ _ _ hafter =>
    rw [hafter] at hj'
    exact absurd hn (hsc.jobs.live_finish.1 hj').2
  | analyzed i text hi hin hstage hafter =>
    rw [hafter] at hj'
    obtain ⟨k, hk, rfl⟩ := Jobs.live_setStage.1 hj'
    have hkn : k.sequence = n := by
      by_cases hkn : k.sequence = n
      · exact hkn
      · rw [if_neg hkn] at hn
        exact absurd hn hkn
    obtain rfl := hsc.jobs.eq_of_sequence hk.1 hi.1 (hkn.trans hin.symm)
    rw [if_pos hkn] at hdocument
    obtain ⟨d, hd, _, hsound⟩ := hsc.live k hi
    obtain rfl := Option.some.inj (hdocument.symm.trans hd)
    unfold StageSound at hsound
    rw [hstage] at hsound
    rw [basis_analyze, if_pos rfl, (capturedText?_eq_some hsc.jobs).2 ⟨k, hi, hin, hstage⟩, ← hsound]
    rfl

/-- A result that counts behind the steps of a job counted before, or it is that of the document as it is now. -/
theorem held_ran (hsc : sc.Sound) (hresting : sc.bench.Resting) (hheld : (sc.step (.ran n)).Held u document b) :
    sc.Held u document b ∨ b = ⟨document.content, sc.read⟩ := by
  obtain ⟨hdocument, s, hs, hcurrent, hb⟩ := hheld
  have hcapture := hsc.capture n
  have hanalyze := hcapture.analyze n
  have hdocument' : sc.document? u = some document := by
    rw [← hdocument]
    unfold document?
    rw [documents_ran hsc n]
  have hworkspace : (sc.capture n).workspace = sc.workspace := Workbench.workspace_captureStep hsc.jobs n
  rcases Workbench.get?_commitStep hanalyze.jobs hs with hs' | ⟨j, a, hj, hn, rfl, _, hsequence⟩
  · -- The result was kept before the job ended, and no later analysis has taken its number.
    have hkept : (sc.capture n).kept? u = some s := by
      rw [← hs']
      exact congrArg (·.get? u) (Workbench.snapshots_analyzeStep hcapture.jobs sc.surroundings n).symm
    have hbasis : (sc.capture n).basis s.tag.sequence = some b :=
      (basis_analyze_of_kept hcapture hkept n).symm.trans hb
    unfold kept? at hkept
    rw [hworkspace] at hkept
    exact Or.inl ⟨hdocument', s, hkept, hcurrent, hbasis⟩
  · -- The job was resting before, so that it captured the text of its document in this very run.
    have hdocument'' : (sc.capture n).document? j.uri = some document := by
      unfold document?
      rw [hworkspace]
      exact hdocument'
    have hbasis := basis_analyze_of_live hcapture (hresting.captureStep hsc.jobs n) hj hn hdocument''
    have hb' : ((sc.capture n).analyze n).basis n = some b := hsequence ▸ hb
    have hread : (sc.capture n).read = sc.read := read_congr (congrArg Workspace.documents hworkspace) rfl
    rw [hread] at hbasis
    exact Or.inr (Option.some.inj (hb'.symm.trans hbasis))

theorem ran_fresh (hsc : sc.Sound) (hresting : sc.bench.Resting) (hfresh : sc.Fresh) (n : Nat) :
    (sc.step (.ran n)).Fresh := by
  have hafter : (sc.step (.ran n)).Sound := ((hsc.capture n).analyze n).commit n
  rw [fresh_iff_agrees hsc] at hfresh
  rw [fresh_iff_agrees hafter]
  intro u document b hheld
  rcases held_ran hsc hresting hheld with hbefore | rfl
  · obtain ⟨htext, hagree⟩ := hfresh u document b hbefore
    refine ⟨htext, fun v hv => ?_⟩
    rw [read_ran hsc]
    exact hagree v hv
  · refine ⟨rfl, fun v _ => ?_⟩
    rw [read_ran hsc]

/-! ## Events that do harm -/

/-- An event leaves no result that counts behind the documents. A document that is opened has to say what other results
have been told of it, and a result that is kept for it must agree if it counts again. A change on disk must leave alone
what results have asked for in vain. -/
def Keeps (sc : Scene) : Event → Prop
  | .opened u document =>
    (∀ w d b, sc.Held w d b → w ≠ u → u ∈ b.reads sc.surroundings w → b.read u = .ok document.content) ∧
      ∀ b, sc.Counts u document.version b → (sc.step (.opened u document)).Agrees b u document.content
  | .filesChanged disk us =>
    ∀ w d b, (sc.step (.filesChanged disk us)).Held w d b → ∀ v ∈ b.reads sc.surroundings w, b.Fails v →
      answer b.read v = answer (sc.step (.filesChanged disk us)).read v
  | _ => True

theorem opened_fresh_iff (hsc : sc.Sound) (hfresh : sc.Fresh) (u : Uri) (document : Document) :
    (sc.step (.opened u document)).Fresh ↔ sc.Keeps (.opened u document) := by
  have hfollows := follows_opened hsc u document
  have hdocument : ∀ v,
      (sc.step (.opened u document)).document? v = if u = v then some document else sc.document? v := by
    intro v
    unfold document?
    rw [hfollows.workspace_eq]
    exact Workspace.Documents.get?_opened _ u document v
  have hcounts : ∀ w version b, (sc.step (.opened u document)).Counts w version b ↔ sc.Counts w version b := by
    intro w version b
    unfold Counts kept?
    rw [hfollows.workspace_eq, hfollows.basis_eq]
    rfl
  have hself : (sc.step (.opened u document)).read u = .ok document.content :=
    Workspace.present_of_get? ((hdocument u).trans (if_pos rfl))
  have hother : ∀ v, u ≠ v → (sc.step (.opened u document)).read v = sc.read v := by
    intro v hv
    exact Workspace.present_congr ((hdocument v).trans (if_neg hv))
  rw [fresh_iff_agrees (hfollows.sound hsc)]
  rw [fresh_iff_agrees hsc] at hfresh
  constructor
  · intro hagrees
    refine ⟨fun w d b hheld hw hu => ?_, fun b hb => ?_⟩
    · have hheld' : (sc.step (.opened u document)).Held w d b :=
        ⟨(hdocument w).trans ((if_neg hw.symm).trans hheld.1), (hcounts _ _ _).2 hheld.2⟩
      have hagree := (hagrees w d b hheld').2 u hu
      rw [Import.answer_ok.2 hself] at hagree
      exact Import.answer_ok.1 hagree
    · exact hagrees u document b ⟨(hdocument u).trans (if_pos rfl), (hcounts _ _ _).2 hb⟩
  · rintro ⟨hothers, hown⟩ w d b ⟨hd, hb⟩
    rw [hcounts] at hb
    by_cases hw : u = w
    · subst hw
      obtain rfl := Option.some.inj (((hdocument u).trans (if_pos rfl)).symm.trans hd)
      exact hown b hb
    · have hheld : sc.Held w d b := ⟨((hdocument w).trans (if_neg hw)).symm.trans hd, hb⟩
      obtain ⟨htext, hagree⟩ := hfresh w d b hheld
      refine ⟨htext, fun v hv => ?_⟩
      by_cases hv' : u = v
      · subst hv'
        rw [Import.answer_ok.2 (hothers w d b hheld (Ne.symm hw) hv), Import.answer_ok.2 hself]
      · rw [hagree v hv]
        unfold answer
        rw [hother v hv']

/-! ## Runs -/

/-- A job does not take single steps. -/
def Event.Atomic : Event → Prop
  | .captured _ | .analyzed _ | .committed _ => False
  | _ => True

theorem Follows.resting (h : sc.Follows sc' workspace which marks) (hresting : sc.bench.Resting) :
    sc'.bench.Resting := by
  intro j hj
  rcases h.unfinished hj with ⟨i, hi, hstage⟩ | hstage
  · rw [← hstage]
    exact hresting i hi
  · exact hstage

theorem resting_step (hsc : sc.Sound) (hresting : sc.bench.Resting) {e : Event} (hatomic : e.Atomic)
    (hannounced : sc.Announced e) : (sc.step e).bench.Resting := by
  cases e with
  | opened u document => exact (follows_opened hsc u document).resting hresting
  | changed u version changes =>
    cases h : sc.workspace.changeDocument u version changes with
    | error _ =>
      rw [step_changed_error hsc h]
      exact hresting
    | ok workspace => exact (follows_changed hsc h).resting hresting
  | closed u => exact (follows_closed hsc u).resting hresting
  | filesChanged disk us => exact (follows_filesChanged hsc hannounced).resting hresting
  | captured n | analyzed n | committed n => exact hatomic.elim
  | ran n =>
    have hcapture := hsc.capture n
    have hcaptured : (sc.capture n).bench.RestingBut n _ := hresting.captureStep hsc.jobs n
    have hanalyzed : ((sc.capture n).analyze n).bench.RestingBut n _ := hcaptured.analyzeStep hcapture.jobs _
    exact hanalyzed.commitStep (hcapture.analyze n).jobs

/-- **Answers stay fresh behind an event exactly when it does no harm.** -/
theorem step_fresh_iff (hsc : sc.Sound) (hresting : sc.bench.Resting) (hfresh : sc.Fresh) {e : Event}
    (hatomic : e.Atomic) (hannounced : sc.Announced e) : (sc.step e).Fresh ↔ sc.Keeps e := by
  cases e with
  | opened u document => exact opened_fresh_iff hsc hfresh u document
  | changed u version changes => exact iff_of_true (changed_fresh hsc hfresh u version changes) trivial
  | closed u => exact iff_of_true (closed_fresh hsc hfresh u) trivial
  | filesChanged disk us => exact (follows_filesChanged hsc hannounced).fresh_iff hsc hfresh
  | captured n | analyzed n | committed n => exact hatomic.elim
  | ran n => exact iff_of_true (ran_fresh hsc hresting hfresh n) trivial

theorem sound_resting_run (hsc : sc.Sound) (hresting : sc.bench.Resting) (es : List Event)
    (hatomic : ∀ e ∈ es, e.Atomic) (hannounced : ∀ before e, Moment sc es before e → before.Announced e) :
    (sc.run es).Sound ∧ (sc.run es).bench.Resting := by
  induction es using List.reverseRecOn with
  | nil => exact ⟨hsc, hresting⟩
  | append_singleton es e ih =>
    obtain ⟨hsound, hrests⟩ := ih (fun e' he' => hatomic e' (List.mem_append_left _ he')) fun before e' hmoment =>
      hannounced before e' hmoment.of_append
    have he : (sc.run es).Announced e := hannounced _ e ⟨es, [], rfl, rfl⟩
    rw [run_append]
    exact ⟨hsound.step he, resting_step hsound hrests (hatomic e (List.mem_append_right _ List.mem_cons_self)) he⟩

theorem run_fresh_iff (hsc : sc.Sound) (hresting : sc.bench.Resting) (hfresh : sc.Fresh) (es : List Event)
    (hatomic : ∀ e ∈ es, e.Atomic) (hannounced : ∀ before e, Moment sc es before e → before.Announced e) :
    (∀ done, done <+: es → (sc.run done).Fresh) ↔ ∀ before e, Moment sc es before e → before.Keeps e := by
  have hprefix : ∀ done rest, es = done ++ rest → (sc.run done).Sound ∧ (sc.run done).bench.Resting := by
    rintro done rest rfl
    exact sound_resting_run hsc hresting done (fun e he => hatomic e (List.mem_append_left _ he))
      fun before e hmoment => hannounced before e hmoment.of_append
  have hstep : ∀ done e rest, es = done ++ e :: rest → (sc.run done).Fresh →
      ((sc.run (done ++ [e])).Fresh ↔ (sc.run done).Keeps e) := by
    intro done e rest heq hdone
    obtain ⟨hsound, hrests⟩ := hprefix done (e :: rest) heq
    rw [run_append]
    refine step_fresh_iff hsound hrests hdone (hatomic e ?_) (hannounced _ e ⟨done, rest, heq, rfl⟩)
    rw [heq]
    exact List.mem_append_right _ List.mem_cons_self
  constructor
  · rintro h before e ⟨done, rest, heq, rfl⟩
    refine (hstep done e rest heq (h done ⟨e :: rest, heq.symm⟩)).1 (h (done ++ [e]) ⟨rest, ?_⟩)
    rw [List.append_assoc]
    exact heq.symm
  · intro h done
    induction done using List.reverseRecOn with
    | nil => exact fun _ => hfresh
    | append_singleton done e ih =>
      rintro ⟨rest, heq⟩
      rw [List.append_assoc] at heq
      exact (hstep done e rest heq.symm (ih ⟨e :: rest, heq⟩)).2 (h _ e ⟨done, rest, heq.symm, rfl⟩)

/-- **Features always answer from the analysis that would be made now exactly when no event does harm.** -/
theorem fresh_iff_keeps (base : Config) (surroundings : Surroundings) (id : Server.RequestId)
    (client : Server.ClientInfo) (es : List Event) (hatomic : ∀ e ∈ es, e.Atomic)
    (hannounced : ∀ before e, Moment (start base surroundings id client) es before e → before.Announced e) :
    (∀ done, done <+: es → ((start base surroundings id client).run done).Fresh) ↔
      ∀ before e, Moment (start base surroundings id client) es before e → before.Keeps e := by
  have hresting : (start base surroundings id client).bench.Resting := fun j hj => absurd hj List.not_mem_nil
  refine run_fresh_iff (sound_start base surroundings id client) hresting ?_ es hatomic hannounced
  -- No document is open at the start.
  intro u document hdocument
  cases (Maps.get?_empty u).symm.trans hdocument

/-- A server beside a disk with a library. -/
def besideLibrary : Scene :=
  start .default
    { engine := Expression.builtinEngine
      functions := .builtin
      disk :=
        { entry := fun path =>
            if path = "/project/lib.lg" then .ok (.file (some "# Greet\n- hi") none) else .error .notFound
          canonical := fun path => .ok path } }
    (.number 1) ⟨none, none, none⟩

/-- A document that imports the library is opened and analyzed, and then the client tells of the library. -/
def toldOfLibrary : List Event :=
  [.opened ⟨"file:///project/main.lg"⟩ ⟨1, "[lib](lib.lg)\n# Main\n- hi", "lg"⟩, .ran 1,
    .filesChanged besideLibrary.surroundings.disk [⟨"file:///project/lib.lg"⟩]]

theorem fresh_iff_keeps_toldOfLibrary :
    (∀ e ∈ toldOfLibrary, e.Atomic) ∧
      (∀ before e, Moment besideLibrary toldOfLibrary before e → before.Announced e) ∧
      ((∀ done, done <+: toldOfLibrary → (besideLibrary.run done).Fresh) ↔
        ∀ before e, Moment besideLibrary toldOfLibrary before e → before.Keeps e) := by
  have hatomic : ∀ e ∈ toldOfLibrary, e.Atomic := by
    intro e he
    simp only [toldOfLibrary, List.mem_cons, List.not_mem_nil, or_false] at he
    rcases he with rfl | rfl | rfl <;> trivial
  have hannounced : ∀ before e, Moment besideLibrary toldOfLibrary before e → before.Announced e := by
    refine fun before e => announced_of_disk fun disk us hmem => ?_
    simp only [toldOfLibrary, List.mem_cons, List.not_mem_nil, or_false, reduceCtorEq, false_or] at hmem
    exact (Event.filesChanged.inj hmem).1
  exact ⟨hatomic, hannounced, fresh_iff_keeps _ _ _ _ _ hatomic hannounced⟩

/-- When the library is opened with another text, answers for the document that imports it still come from the old
one. -/
theorem not_fresh_openedLibrary :
    ¬ (besideLibrary.run
      [.opened ⟨"file:///project/main.lg"⟩ ⟨1, "[lib](lib.lg)\n# Main\n- hi", "lg"⟩, .ran 1,
        .opened ⟨"file:///project/lib.lg"⟩ ⟨1, "# Welcome\n- hi", "lg"⟩]).Fresh := by
  intro h
  have hmain := h ⟨"file:///project/main.lg"⟩ ⟨1, "[lib](lib.lg)\n# Main\n- hi", "lg"⟩ (by decide +kernel)
  have htexts := congrArg (Option.map fun a => a.scope.others.map (·.text)) hmain
  revert htexts
  decide +kernel

end LgLang.Scene
