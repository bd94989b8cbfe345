import LgLang.Proofs.Import.Reach

/-!
# What a walk observes

A walk sees the texts that it reads, and of a read that fails the message of the failure. Nothing else of the sources
bears on it (`walkFrom_congr`), and all that it sees shows in what it finds: two walks from one root that find the same
files and report the same were given the same answers (`answers_eq_of_same_result`). The second is proved by following
both runs until an answer differs. Each way to differ leaves a trace that no later move can remove.
-/

namespace LgLang.Import

open Relation (ReflTransGen)

/-- What is seen of a read: the text, or the failure in words. -/
def answer (read : Uri → Except SourceError String) (u : Uri) : Except String String :=
  (read u).mapError SourceError.message

/-- The same with other texts. -/
def Env.withRead (env : Env) (read : Uri → Except SourceError String) : Env :=
  { env with sources := { env.sources with read } }

variable {env : Env} {read' : Uri → Except SourceError String} {limit : Nat} {s s' t t' : State}

theorem answer_ok {read : Uri → Except SourceError String} {u : Uri} {text : String} :
    answer read u = .ok text ↔ read u = .ok text := by
  unfold answer
  cases read u <;> simp [Except.mapError]

theorem answer_of_error {read : Uri → Except SourceError String} {u : Uri} {e : SourceError} (h : read u = .error e) :
    answer read u = .error e.message := by
  rw [answer, h]
  rfl

/-! ## Nothing else is seen -/

/-- The finding about an import that failed depends on the message of the failure only. -/
theorem failureDiagnostic_congr {via : Nat} {current : ScopeFile} {i : Syntax.Import} {e e' : SourceError}
    (h : e'.message = e.message) :
    failureDiagnostic (env.withRead read') via current i (.source e') =
      failureDiagnostic env via current i (.source e) := by
  have hspan : (env.withRead read').rootSpan via = env.rootSpan via := rfl
  have hmessage : (Failure.source e').message = (Failure.source e).message := h
  have hcode : (Failure.source e').code = (Failure.source e).code := rfl
  unfold failureDiagnostic
  rw [hspan, hmessage, hcode]

/-- Following an import reads at most its target, and only when that has not been visited. -/
theorem follow_congr {stack : List Frame} {visited : Std.TreeSet Uri} {current : ScopeFile} {position : Nat}
    {i : Syntax.Import} {log log' : Log} {step : Step}
    (h : follow env stack visited current position i log = (step, log'))
    (hagree : ∀ v, env.sources.resolve current.uri i.target = some v → v ∉ visited →
      answer read' v = answer env.sources.read v) :
    follow (env.withRead read') stack visited current position i log = (step, log') := by
  rw [← h]
  simp only [follow, Env.withRead]
  cases hresolve : env.sources.resolve current.uri i.target with
  | none => rfl
  | some target =>
    by_cases hvisited : target ∈ visited
    · simp only [Std.TreeSet.contains_iff_mem, hvisited, if_true]
      rfl
    · have hanswer := hagree target hresolve hvisited
      simp only [Std.TreeSet.contains_iff_mem, hvisited, if_false]
      cases hread : env.sources.read target with
      | ok text =>
        have hread' : read' target = .ok text := answer_ok.1 (hanswer.trans (answer_ok.2 hread))
        simp only [hread']
      | error e =>
        rw [answer_of_error hread] at hanswer
        cases hread' : read' target with
        | ok text => rw [answer_ok.2 hread'] at hanswer; cases hanswer
        | error e' =>
          rw [answer_of_error hread'] at hanswer
          have hmessage : e'.message = e.message := Except.error.inj hanswer
          have hfailure := @failureDiagnostic_congr env read' (current.via.getD position) current i e e' hmessage
          unfold Env.withRead at hfailure
          simp only [hfailure]

/-- The next move of a walk reads a file. -/
def State.Asks (env : Env) (s : State) (v : Uri) : Prop :=
  match s.stack with
  | ⟨current, _, i :: _⟩ :: _ => env.sources.resolve current.uri i.target = some v ∧ v ∉ s.visited
  | _ => False

theorem Moves.congr (h : Moves env s t) (hagree : ∀ v, s.Asks env v → answer read' v = answer env.sources.read v) :
    Moves (env.withRead read') s t := by
  cases h with
  | leave => exact .leave
  | pass hfollow => exact .pass (follow_congr hfollow fun v hv hnew => hagree v ⟨hv, hnew⟩)
  | enter hfollow => exact .enter (follow_congr hfollow fun v hv hnew => hagree v ⟨hv, hnew⟩)

/-- The reads of a walk are what its moves ask for. -/
theorem Moves.mem_reads (h : Moves env s t) (v : Uri) : v ∈ t.log.reads ↔ v ∈ s.log.reads ∨ s.Asks env v := by
  have hnot : ∀ {current : ScopeFile} {i : Syntax.Import} {target : Uri} {visited : Std.TreeSet Uri},
      env.sources.resolve current.uri i.target = some target → target ∈ visited →
      ¬ (env.sources.resolve current.uri i.target = some v ∧ v ∉ visited) := by
    rintro current i target visited hresolve hvisited ⟨hv, hnew⟩
    exact hnew (Option.some.inj (hresolve.symm.trans hv) ▸ hvisited)
  have hread : ∀ {current : ScopeFile} {i : Syntax.Import} {target : Uri} {visited : Std.TreeSet Uri}
      {reads : List Uri},
      env.sources.resolve current.uri i.target = some target → target ∉ visited →
      (v ∈ target :: reads ↔ v ∈ reads ∨ (env.sources.resolve current.uri i.target = some v ∧ v ∉ visited)) := by
    intro current i target visited reads hresolve hnew
    rw [List.mem_cons, or_comm, hresolve, Option.some.injEq]
    refine or_congr_right ⟨?_, fun h => h.1.symm⟩
    rintro rfl
    exact ⟨rfl, hnew⟩
  cases h with
  | leave => exact ⟨Or.inl, fun h => h.elim id False.elim⟩
  | pass hfollow =>
    cases followed_of_eq hfollow with
    | unresolvable hresolve =>
      refine ⟨Or.inl, fun h => h.elim id fun hasks => ?_⟩
      exact absurd (hresolve.symm.trans hasks.1) (by simp)
    | cycle hresolve hvisited _ => exact ⟨Or.inl, fun h => h.elim id fun hasks => absurd hasks (hnot hresolve hvisited)⟩
    | known hresolve hvisited _ => exact ⟨Or.inl, fun h => h.elim id fun hasks => absurd hasks (hnot hresolve hvisited)⟩
    | failed hresolve hnew _ => exact hread hresolve hnew
  | enter hfollow =>
    obtain ⟨target, _, hresolve, hnew, _, _, rfl⟩ := followed_enter hfollow
    exact hread hresolve hnew

/-- A run stays a run over other texts that give the same answers to its reads. -/
theorem run_congr (h : ReflTransGen (MovesWithin env limit) s t)
    (hagree : ∀ v ∈ t.log.reads, answer read' v = answer env.sources.read v) :
    ReflTransGen (MovesWithin (env.withRead read') limit) s t := by
  induction h with
  | refl => exact .refl
  | @tail u w _ hstep ih =>
    have hreads := hstep.2.mem_reads
    refine .tail (ih fun v hv => hagree v ((hreads v).2 (Or.inl hv))) ⟨hstep.1, hstep.2.congr fun v hv => ?_⟩
    exact hagree v ((hreads v).2 (Or.inr hv))

theorem movesWithin_unique : Relator.RightUnique (MovesWithin env limit) :=
  fun _ _ _ h h' => h.2.deterministic h'.2

/-- A run leads on to where another run from the same state stops. -/
theorem run_to_stop (h : ReflTransGen (MovesWithin env limit) s t) (h' : ReflTransGen (MovesWithin env limit) s t')
    (hstop' : Stopped limit t') : ReflTransGen (MovesWithin env limit) t t' :=
  run_to_stuck movesWithin_unique h h' fun _ => hstop'.not_moves

/-- From a state a run can stop in one way only. -/
theorem stop_unique (h : ReflTransGen (MovesWithin env limit) s t) (hstop : Stopped limit t)
    (h' : ReflTransGen (MovesWithin env limit) s t') (hstop' : Stopped limit t') : t = t' :=
  stuck_unique movesWithin_unique h (fun _ => hstop.not_moves) h' fun _ => hstop'.not_moves

/-- **A walk depends on the answers to its reads only.** -/
theorem walkFrom_congr {sources : Sources} {root : ScopeFile} (hroot : root.via = none) (questions : Nat)
    (hagree : ∀ v ∈ (walkFrom sources (fun _ => false) root questions).log.reads,
      answer read' v = answer sources.read v) :
    walkFrom { sources with read := read' } (fun _ => false) root questions =
      walkFrom sources (fun _ => false) root questions := by
  obtain ⟨t, hrun, hstop, _, hwalk⟩ := walkFrom_runs sources root hroot questions
  obtain ⟨t', hrun', hstop', _, hwalk'⟩ := walkFrom_runs { sources with read := read' } root hroot questions
  rw [hwalk] at hagree
  rw [hwalk, hwalk', stop_unique (run_congr hrun hagree) hstop hrun' hstop']

/-! ## Reads are noted in the graph -/

/-- Whatever was read is the target of an edge. -/
def Log.ReadsTargets (log : Log) : Prop :=
  ∀ v ∈ log.reads, ∃ u, v ∈ log.graph.importsOf u

theorem Log.ReadsTargets.withEdge {log : Log} (h : log.ReadsTargets) (source target : Uri) :
    (log.withEdge source target).ReadsTargets := by
  intro v hv
  obtain ⟨u, hu⟩ := h v hv
  exact ⟨u, mem_importsOf_addEdge.2 (Or.inl hu)⟩

/-- The edge is noted before the read. -/
theorem Log.ReadsTargets.withRead {log : Log} (h : log.ReadsTargets) (source target : Uri) :
    ((log.withEdge source target).withRead target).ReadsTargets := by
  intro v hv
  rcases List.mem_cons.1 hv with rfl | hold
  · exact ⟨source, mem_importsOf_addEdge.2 (Or.inr ⟨rfl, rfl⟩)⟩
  · exact h.withEdge source target v hold

theorem followed_readsTargets {stack : List Frame} {visited : Std.TreeSet Uri} {current : ScopeFile} {position : Nat}
    {i : Syntax.Import} {log log' : Log} {step : Step}
    (h : follow env stack visited current position i log = (step, log')) (hlog : log.ReadsTargets) :
    log'.ReadsTargets := by
  cases followed_of_eq h with
  | unresolvable _ => exact hlog
  | cycle _ _ _ => exact hlog.withEdge _ _
  | known _ _ _ => exact hlog.withEdge _ _
  | cancelled _ _ _ => exact hlog.withEdge _ _
  | failed _ _ _ => exact hlog.withRead _ _
  | entered _ _ _ => exact hlog.withRead _ _

theorem Moves.readsTargets (h : Moves env s t) (hs : s.log.ReadsTargets) : t.log.ReadsTargets := by
  cases h with
  | leave => exact hs
  | pass hfollow => exact followed_readsTargets hfollow hs
  | enter hfollow => exact followed_readsTargets hfollow hs

/-- All that a walk reads is the target of an edge that it notes. -/
theorem run_readsTargets {root : ScopeFile} {questions : Nat} {t : State}
    (h : ReflTransGen (Moves env) (.start root questions) t) : t.log.ReadsTargets := by
  induction h with
  | refl => exact fun v hv => absurd hv List.not_mem_nil
  | tail _ hstep ih => exact hstep.readsTargets ih

/-! ## What moves leave behind -/

/-- A move adds at most one file, one finding and one read, in front of the ones before. -/
theorem Moves.suffixes (h : Moves env s t) :
    s.others <:+ t.others ∧ s.log.diagnostics <:+ t.log.diagnostics ∧ s.log.reads <:+ t.log.reads := by
  cases h with
  | leave => exact ⟨List.suffix_refl _, List.suffix_refl _, List.suffix_refl _⟩
  | pass hfollow =>
    refine ⟨List.suffix_refl _, ?_⟩
    cases followed_of_eq hfollow with
    | unresolvable _ => exact ⟨List.suffix_cons _ _, List.suffix_refl _⟩
    | cycle _ _ _ => exact ⟨List.suffix_cons _ _, List.suffix_refl _⟩
    | known _ _ _ => exact ⟨List.suffix_refl _, List.suffix_refl _⟩
    | failed _ _ _ => exact ⟨List.suffix_cons _ _, List.suffix_cons _ _⟩
  | enter hfollow =>
    obtain ⟨_, _, _, _, _, _, rfl⟩ := followed_enter hfollow
    exact ⟨List.suffix_cons _ _, List.suffix_refl _, List.suffix_cons _ _⟩

theorem run_suffixes (h : ReflTransGen (MovesWithin env limit) s t) :
    s.others <:+ t.others ∧ s.log.diagnostics <:+ t.log.diagnostics ∧ s.log.reads <:+ t.log.reads := by
  induction h with
  | refl => exact ⟨List.suffix_refl _, List.suffix_refl _, List.suffix_refl _⟩
  | tail _ hstep ih =>
    have hmove := hstep.2.suffixes
    exact ⟨ih.1.trans hmove.1, ih.2.1.trans hmove.2.1, ih.2.2.trans hmove.2.2⟩

/-- Files that a run adds are read from the sources. -/
theorem run_others_read (h : ReflTransGen (MovesWithin env limit) s t) :
    ∀ f ∈ t.others, f ∈ s.others ∨ ∃ text, env.sources.read f.uri = .ok text := by
  induction h with
  | refl => exact fun f hf => Or.inl hf
  | tail _ hstep ih =>
    obtain ⟨_, hmove⟩ := hstep
    cases hmove with
    | leave => exact ih
    | pass _ => exact ih
    | enter hfollow =>
      obtain ⟨target, text, _, _, hread, hf, _⟩ := followed_enter hfollow
      intro f hmem
      rcases List.mem_cons.1 hmem with rfl | hold
      · exact Or.inr ⟨text, by rw [hf]; exact hread⟩
      · exact ih f hold

/-- Where a move reads, the answer decides what it leaves: a file on top of the others, or a finding. -/
theorem Moves.read {current : ScopeFile} {position : Nat} {i : Syntax.Import} {rest : List Syntax.Import}
    {below : List Frame} {visited : Std.TreeSet Uri} {others : List ScopeFile} {log : Log} {target : Uri}
    (h : Moves env ⟨⟨current, position, i :: rest⟩ :: below, visited, others, log⟩ t)
    (hresolve : env.sources.resolve current.uri i.target = some target) (hnew : target ∉ visited) :
    match env.sources.read target with
    | .ok text => t.others = newFile current position i target text :: others
    | .error e => t.others = others ∧
        t.log.diagnostics =
          failureDiagnostic env (current.via.getD position) current i (.source e) :: log.diagnostics := by
  cases h with
  | pass hfollow =>
    cases followed_of_eq hfollow with
    | unresolvable hnone => rw [hresolve] at hnone; cases hnone
    | cycle hresolve' hvisited _ => exact absurd (Option.some.inj (hresolve'.symm.trans hresolve) ▸ hvisited) hnew
    | known hresolve' hvisited _ => exact absurd (Option.some.inj (hresolve'.symm.trans hresolve) ▸ hvisited) hnew
    | failed hresolve' _ hread =>
      rw [← Option.some.inj (hresolve'.symm.trans hresolve), hread]
      exact ⟨rfl, rfl⟩
  | enter hfollow =>
    obtain ⟨target', text, hresolve', _, hread, rfl, _⟩ := followed_enter hfollow
    rw [← Option.some.inj (hresolve'.symm.trans hresolve), hread]

/-- The finding about an import that failed tells the message of the failure. -/
theorem message_eq_of_failureDiagnostic {env' : Env} {via : Nat} {current : ScopeFile} {i : Syntax.Import}
    {e e' : SourceError}
    (h : failureDiagnostic env via current i (.source e) = failureDiagnostic env' via current i (.source e')) :
    e.message = e'.message := by
  have hmessage := congrArg Diagnostic.message h
  unfold failureDiagnostic at hmessage
  by_cases hroot : current.isRoot = true
  · rw [if_pos hroot, if_pos hroot] at hmessage
    exact hmessage
  · rw [if_neg hroot, if_neg hroot] at hmessage
    have htext := congrArg String.toList hmessage
    have hcancel : (Failure.source e).message.toList = (Failure.source e').message.toList := by
      simpa [toString] using htext
    exact String.toList_inj.1 hcancel

/-! ## All that is seen shows -/

theorem eq_of_suffixes {α : Type} {xs ys zs : List α} (hx : xs <:+ zs) (hy : ys <:+ zs)
    (hlength : xs.length = ys.length) : xs = ys :=
  (List.suffix_of_suffix_length_le hx hy (Nat.le_of_eq hlength)).eq_of_length hlength

/-- Where two runs over different texts take up one import of one state and read its target, and then find the same,
they were given the same answer. -/
theorem answer_eq_of_read {current : ScopeFile} {position : Nat} {i : Syntax.Import} {rest : List Syntax.Import}
    {below : List Frame} {visited : Std.TreeSet Uri} {others : List ScopeFile} {log : Log} {target : Uri}
    (hvisited : ∀ f ∈ others, f.uri ∈ visited)
    (hresolve : env.sources.resolve current.uri i.target = some target) (hnew : target ∉ visited)
    (h : Moves env ⟨⟨current, position, i :: rest⟩ :: below, visited, others, log⟩ s)
    (h' : Moves (env.withRead read') ⟨⟨current, position, i :: rest⟩ :: below, visited, others, log⟩ s')
    (hrun : ReflTransGen (MovesWithin env limit) s t)
    (hrun' : ReflTransGen (MovesWithin (env.withRead read') limit) s' t')
    (hothers : t.others = t'.others) (hdiagnostics : t.log.diagnostics = t'.log.diagnostics) :
    answer read' target = answer env.sources.read target := by
  have hleft := h.read hresolve hnew
  have hright := @Moves.read (env.withRead read') _ _ _ _ _ _ _ _ _ _ h' hresolve hnew
  -- A file that only one of the runs could read would be missing from what the other one finds.
  have hfound : ∀ {run : Env} {u w : State} {text : String},
      ReflTransGen (MovesWithin run limit) u w → u.others = others → w.others = t.others →
      (newFile current position i target text) ∈ t.others → ∃ text, run.sources.read target = .ok text := by
    intro run u w text hrun hu hw hmem
    rcases run_others_read hrun _ (hw ▸ hmem) with hold | hread
    · exact absurd (hvisited _ (hu ▸ hold)) hnew
    · exact hread
  have hsuffixes := run_suffixes hrun
  have hsuffixes' := run_suffixes hrun'
  rw [← hothers, ← hdiagnostics] at hsuffixes'
  cases hread : env.sources.read target with
  | ok text =>
    simp only [hread] at hleft
    have hmem := hsuffixes.1.subset (hleft ▸ List.mem_cons_self)
    cases hread' : read' target with
    | ok text' =>
      simp only [Env.withRead, hread'] at hright
      -- Both files stand at the same place among those that are found in the end.
      have hlength : s.others.length = s'.others.length := by rw [hleft, hright]; rfl
      have hsame := eq_of_suffixes hsuffixes.1 hsuffixes'.1 hlength
      rw [hleft, hright] at hsame
      have htext : text = text' := congrArg ScopeFile.text (List.cons.inj hsame).1
      rw [answer_ok.2 hread, answer_ok.2 hread', htext]
    | error e' =>
      simp only [Env.withRead, hread'] at hright
      obtain ⟨_, hok⟩ := hfound hrun' hright.1 hothers.symm hmem
      exact absurd (hread'.symm.trans hok) (by simp)
  | error e =>
    simp only [hread] at hleft
    cases hread' : read' target with
    | ok text' =>
      simp only [Env.withRead, hread'] at hright
      have hmem := hsuffixes'.1.subset (hright ▸ List.mem_cons_self)
      obtain ⟨_, hok⟩ := hfound hrun hleft.1 rfl hmem
      exact absurd (hread.symm.trans hok) (by simp)
    | error e' =>
      simp only [Env.withRead, hread'] at hright
      -- Both failures are reported at the same place, and the reports tell them.
      have hlength : s.log.diagnostics.length = s'.log.diagnostics.length := by rw [hleft.2, hright.2]; rfl
      have hsame := eq_of_suffixes hsuffixes.2.1 hsuffixes'.2.1 hlength
      rw [hleft.2, hright.2] at hsame
      have hmessage := message_eq_of_failureDiagnostic (List.cons.inj hsame).1
      rw [answer_of_error hread, answer_of_error hread', hmessage]

theorem Moves.visited (h : Moves env s t) (hs : ∀ f ∈ s.others, f.uri ∈ s.visited) :
    ∀ f ∈ t.others, f.uri ∈ t.visited := by
  cases h with
  | leave => exact hs
  | pass _ => exact hs
  | enter _ =>
    intro f hf
    rcases List.mem_cons.1 hf with rfl | hold
    · exact Std.TreeSet.mem_insert_self
    · exact Std.TreeSet.mem_insert.2 (Or.inr (hs f hold))

/-- Two runs that move on from one state, and find the same, were given the same answer to what they ask there. -/
theorem Moves.answer_eq {s₁ s₂ : State} (h : Moves env s s₁) (h' : Moves (env.withRead read') s s₂)
    (hrun : ReflTransGen (MovesWithin env limit) s₁ t)
    (hrun' : ReflTransGen (MovesWithin (env.withRead read') limit) s₂ t')
    (hothers : t.others = t'.others) (hdiagnostics : t.log.diagnostics = t'.log.diagnostics)
    (hvisited : ∀ f ∈ s.others, f.uri ∈ s.visited) :
    ∀ v, s.Asks env v → answer read' v = answer env.sources.read v := by
  intro v hv
  cases h with
  | leave => exact hv.elim
  | pass hfollow => exact answer_eq_of_read hvisited hv.1 hv.2 (.pass hfollow) h' hrun hrun' hothers hdiagnostics
  | enter hfollow => exact answer_eq_of_read hvisited hv.1 hv.2 (.enter hfollow) h' hrun hrun' hothers hdiagnostics

/-- Two runs from one state over different texts that stop, and find the same, were given the same answers. -/
theorem answers_eq_of_runs (hrun : ReflTransGen (MovesWithin env limit) s t)
    (hrun' : ReflTransGen (MovesWithin (env.withRead read') limit) s t') (hstop' : Stopped limit t')
    (hothers : t.others = t'.others) (hdiagnostics : t.log.diagnostics = t'.log.diagnostics)
    (hvisited : ∀ f ∈ s.others, f.uri ∈ s.visited) :
    ∀ v ∈ t.log.reads, v ∈ s.log.reads ∨ answer read' v = answer env.sources.read v := by
  induction hrun using ReflTransGen.head_induction_on with
  | refl => exact fun v hv => Or.inl hv
  | @head s s₁ hstep hrest ih =>
    rcases ReflTransGen.cases_head hrun' with rfl | ⟨s₂, hstep', hrest'⟩
    · exact absurd hstep hstop'.not_moves
    · have hagree := hstep.2.answer_eq hstep'.2 hrest hrest' hothers hdiagnostics hvisited
      -- With the same answer both runs make the same move.
      obtain rfl : s₁ = s₂ := (hstep.2.congr hagree).deterministic hstep'.2
      intro v hv
      rcases ih hrest' (hstep.2.visited hvisited) v hv with hearlier | hsame
      · rcases (hstep.2.mem_reads v).1 hearlier with hold | hasks
        · exact Or.inl hold
        · exact Or.inr (hagree v hasks)
      · exact Or.inr hsame

/-- **The answers to its reads show in what a walk finds.** -/
theorem answers_eq_of_same_result {sources : Sources} {root : ScopeFile} (hroot : root.via = none) (questions : Nat)
    (hothers : (walkFrom sources (fun _ => false) root questions).others =
      (walkFrom { sources with read := read' } (fun _ => false) root questions).others)
    (hdiagnostics : (walkFrom sources (fun _ => false) root questions).log.diagnostics =
      (walkFrom { sources with read := read' } (fun _ => false) root questions).log.diagnostics) :
    ∀ v ∈ (walkFrom sources (fun _ => false) root questions).log.reads,
      answer read' v = answer sources.read v := by
  obtain ⟨t, hrun, _, _, hwalk⟩ := walkFrom_runs sources root hroot questions
  obtain ⟨t', hrun', hstop', _, hwalk'⟩ := walkFrom_runs { sources with read := read' } root hroot questions
  rw [hwalk, hwalk'] at hothers hdiagnostics
  rw [hwalk]
  intro v hv
  have hnone : ∀ f ∈ (State.start root questions).others, f.uri ∈ (State.start root questions).visited :=
    fun _ hf => absurd hf List.not_mem_nil
  rcases answers_eq_of_runs hrun hrun' hstop' hothers hdiagnostics hnone v hv with hearlier | hsame
  · cases hearlier
  · exact hsame

end LgLang.Import
