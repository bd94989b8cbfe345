import LgLang.Import.Walk
import Mathlib.Logic.Relation

/-!
# The moves of a walk

`walk` takes its files from a stack within a given room. This module says the same without the room: where a walk
stands is a `State`, and `Moves` holds all that a walk can do next, one constructor for each kind of step. `Followed`
lists what following a single import can come to. Everything else that is proved about walks is proved of these two
relations, by cases on a step and by induction on a run; `walk_runs` carries it over to `walk`. A walk that is cancelled
has come by moves to the question that cancels it (`Interrupts`).
-/

namespace LgLang.Import

open Relation (ReflTransGen)

variable {env : Env}

/-! ## Following one import -/

/-- The log with one more edge. -/
def Log.withEdge (log : Log) (source target : Uri) : Log :=
  { log with graph := log.graph.addEdge source target }

/-- The log behind a read, and the question before it. -/
def Log.withRead (log : Log) (target : Uri) : Log :=
  { log with questions := log.questions + 1, reads := target :: log.reads }

/-- The file that an import of `current` has brought. -/
def newFile (current : ScopeFile) (position : Nat) (i : Syntax.Import) (target : Uri) (text : String) : ScopeFile where
  uri := target
  text := text
  file := (Syntax.parse text).file
  via := some (current.via.getD position)
  qualifier := if current.isRoot then i.qualifier else none

/-- What following an import comes to, with the log behind it. -/
inductive Followed (env : Env) (stack : List Frame) (visited : Std.TreeSet Uri) (current : ScopeFile) (position : Nat)
    (i : Syntax.Import) (log : Log) : Step → Log → Prop
  | unresolvable (hresolve : env.sources.resolve current.uri i.target = none) :
      Followed env stack visited current position i log .pass
        (log.report (failureDiagnostic env (current.via.getD position) current i (.unresolvable i.target)))
  | cycle {target : Uri} (hresolve : env.sources.resolve current.uri i.target = some target)
      (hvisited : target ∈ visited) (hpath : target ∈ (stack.map (·.file.uri)).reverse) :
      Followed env stack visited current position i log .pass
        ((log.withEdge current.uri target).report
          (cycleDiagnostic env (current.via.getD position) current i (stack.map (·.file.uri)).reverse target))
  | known {target : Uri} (hresolve : env.sources.resolve current.uri i.target = some target)
      (hvisited : target ∈ visited) (hpath : target ∉ (stack.map (·.file.uri)).reverse) :
      Followed env stack visited current position i log .pass (log.withEdge current.uri target)
  | cancelled {target : Uri} (hresolve : env.sources.resolve current.uri i.target = some target)
      (hvisited : target ∉ visited) (hcancelled : env.cancelled log.questions = true) :
      Followed env stack visited current position i log .cancelled
        { log.withEdge current.uri target with questions := log.questions + 1 }
  | failed {target : Uri} {e : SourceError} (hresolve : env.sources.resolve current.uri i.target = some target)
      (hvisited : target ∉ visited) (hread : env.sources.read target = .error e)
      (hasked : env.cancelled log.questions = false) :
      Followed env stack visited current position i log .pass
        (((log.withEdge current.uri target).withRead target).report
          (failureDiagnostic env (current.via.getD position) current i (.source e)))
  | entered {target : Uri} {text : String} (hresolve : env.sources.resolve current.uri i.target = some target)
      (hvisited : target ∉ visited) (hread : env.sources.read target = .ok text)
      (hasked : env.cancelled log.questions = false) :
      Followed env stack visited current position i log (.enter (newFile current position i target text))
        ((log.withEdge current.uri target).withRead target)

theorem followed (env : Env) (stack : List Frame) (visited : Std.TreeSet Uri) (current : ScopeFile) (position : Nat)
    (i : Syntax.Import) (log : Log) :
    Followed env stack visited current position i log (follow env stack visited current position i log).1
      (follow env stack visited current position i log).2 := by
  simp only [follow]
  cases hresolve : env.sources.resolve current.uri i.target with
  | none => exact .unresolvable hresolve
  | some target =>
    by_cases hvisited : target ∈ visited
    · by_cases hpath : target ∈ (stack.map (·.file.uri)).reverse
      · simpa [hvisited, hpath, Log.withEdge] using Followed.cycle hresolve hvisited hpath
      · simpa [hvisited, hpath, Log.withEdge] using Followed.known hresolve hvisited hpath
    · cases hcancelled : env.cancelled log.questions with
      | true => simpa [hvisited, hcancelled, Log.withEdge] using Followed.cancelled hresolve hvisited hcancelled
      | false =>
        cases hread : env.sources.read target with
        | error e => simpa [hvisited, hcancelled, hread, Log.withEdge, Log.withRead] using
            Followed.failed hresolve hvisited hread hcancelled
        | ok text => simpa [hvisited, hcancelled, hread, Log.withEdge, Log.withRead, newFile] using
            Followed.entered hresolve hvisited hread hcancelled

theorem followed_of_eq {stack : List Frame} {visited : Std.TreeSet Uri} {current : ScopeFile} {position : Nat}
    {i : Syntax.Import} {log log' : Log} {step : Step}
    (h : follow env stack visited current position i log = (step, log')) :
    Followed env stack visited current position i log step log' := by
  have hfollowed := followed env stack visited current position i log
  rw [h] at hfollowed
  exact hfollowed

/-- The edges behind one more edge. -/
theorem mem_importsOf_addEdge {g : ImportGraph} {source target u v : Uri} :
    v ∈ (g.addEdge source target).importsOf u ↔ v ∈ g.importsOf u ∨ (u = source ∧ v = target) := by
  simp only [ImportGraph.importsOf, ImportGraph.addEdge, Std.TreeMap.getD_insert, Std.TreeSet.mem_toList]
  by_cases hu : u = source
  · subst hu
    simp only [Std.TreeSet.mem_insert, Std.LawfulEqCmp.compare_eq_iff_eq, Std.ReflCmp.compare_self, if_true, true_and]
    rw [or_comm, eq_comm (a := v)]
  · have hcmp : compare source u ≠ .eq := fun h => hu (Std.LawfulEqOrd.eq_of_compare h).symm
    simp [hcmp, hu]

/-- An import that leads nowhere new adds its edge. Its target, if it has one, was visited or cannot be read, and no
file that can be read has been read. -/
theorem followed_pass {stack : List Frame} {visited : Std.TreeSet Uri} {current : ScopeFile} {position : Nat}
    {i : Syntax.Import} {log log' : Log}
    (h : follow env stack visited current position i log = (.pass, log')) :
    (∀ u v, v ∈ log'.graph.importsOf u ↔
      v ∈ log.graph.importsOf u ∨ (u = current.uri ∧ env.sources.resolve current.uri i.target = some v)) ∧
    (∀ v text, env.sources.read v = .ok text → log'.reads.count v = log.reads.count v) ∧
    (∀ v text, env.sources.resolve current.uri i.target = some v → env.sources.read v = .ok text → v ∈ visited) := by
  have hedge : ∀ {target u v : Uri}, env.sources.resolve current.uri i.target = some target →
      (v ∈ (log.graph.addEdge current.uri target).importsOf u ↔
        v ∈ log.graph.importsOf u ∨ (u = current.uri ∧ env.sources.resolve current.uri i.target = some v)) := by
    intro target u v hresolve
    rw [mem_importsOf_addEdge, hresolve, Option.some.injEq, eq_comm (a := v)]
  cases followed_of_eq h with
  | unresolvable hresolve =>
    refine ⟨fun u v => ?_, fun _ _ _ => rfl, fun v _ hv => ?_⟩
    · show v ∈ log.graph.importsOf u ↔ _
      simp [hresolve]
    · rw [hresolve] at hv; cases hv
  | cycle hresolve hvisited _ =>
    refine ⟨fun _ _ => hedge hresolve, fun _ _ _ => rfl, fun v _ hv _ => ?_⟩
    exact Option.some.inj (hresolve.symm.trans hv) ▸ hvisited
  | known hresolve hvisited _ =>
    refine ⟨fun _ _ => hedge hresolve, fun _ _ _ => rfl, fun v _ hv _ => ?_⟩
    exact Option.some.inj (hresolve.symm.trans hv) ▸ hvisited
  | @failed target e hresolve _ hread =>
    refine ⟨fun _ _ => hedge hresolve, fun v text hv => ?_, fun v text hv htext => ?_⟩
    · have hne : target ≠ v := fun h => by rw [h, hv] at hread; cases hread
      exact List.count_cons_of_ne hne
    · rw [← Option.some.inj (hresolve.symm.trans hv), hread] at htext
      cases htext

/-- An import that leads to a new file adds its edge and reads the file. -/
theorem followed_enter {stack : List Frame} {visited : Std.TreeSet Uri} {current f : ScopeFile} {position : Nat}
    {i : Syntax.Import} {log log' : Log}
    (h : follow env stack visited current position i log = (.enter f, log')) :
    ∃ target text, env.sources.resolve current.uri i.target = some target ∧ target ∉ visited ∧
      env.sources.read target = .ok text ∧ f = newFile current position i target text ∧
      log' = (log.withEdge current.uri target).withRead target := by
  cases followed_of_eq h with
  | entered hresolve hvisited hread => exact ⟨_, _, hresolve, hvisited, hread, rfl, rfl⟩

/-! ## Runs -/

/-- Where a walk stands: the files on the way from the root, latest first; the files that it does not enter again; the
files besides the root, latest first; and the log. -/
structure State where
  stack : List Frame
  visited : Std.TreeSet Uri
  others : List ScopeFile
  log : Log

/-- Where a walk from a root begins, after `questions` questions. -/
def State.start (root : ScopeFile) (questions : Nat) : State :=
  ⟨[.enter root], ({} : Std.TreeSet Uri).insert root.uri, [], .start questions⟩

/-- What a walk does next as long as nobody cancels it. -/
inductive Moves (env : Env) : State → State → Prop
  /-- A file without further imports is left. -/
  | leave {current : ScopeFile} {position : Nat} {below : List Frame} {visited : Std.TreeSet Uri}
      {others : List ScopeFile} {log : Log} :
      Moves env ⟨⟨current, position, []⟩ :: below, visited, others, log⟩ ⟨below, visited, others, log⟩
  /-- An import leads nowhere new. -/
  | pass {current : ScopeFile} {position : Nat} {i : Syntax.Import} {rest : List Syntax.Import} {below : List Frame}
      {visited : Std.TreeSet Uri} {others : List ScopeFile} {log log' : Log}
      (h : follow env (⟨current, position + 1, rest⟩ :: below) visited current position i log = (.pass, log')) :
      Moves env ⟨⟨current, position, i :: rest⟩ :: below, visited, others, log⟩
        ⟨⟨current, position + 1, rest⟩ :: below, visited, others, log'⟩
  /-- An import leads to a new file. -/
  | enter {current f : ScopeFile} {position : Nat} {i : Syntax.Import} {rest : List Syntax.Import} {below : List Frame}
      {visited : Std.TreeSet Uri} {others : List ScopeFile} {log log' : Log}
      (h : follow env (⟨current, position + 1, rest⟩ :: below) visited current position i log = (.enter f, log')) :
      Moves env ⟨⟨current, position, i :: rest⟩ :: below, visited, others, log⟩
        ⟨.enter f :: ⟨current, position + 1, rest⟩ :: below, visited.insert f.uri, f :: others, log'⟩

/-- A walk has no choice. -/
theorem Moves.deterministic {s t t' : State} (h : Moves env s t) (h' : Moves env s t') : t = t' := by
  cases h with
  | leave => cases h' with
    | leave => rfl
  | pass h => cases h' with
    | pass h' => cases h.symm.trans h'; rfl
    | enter h' => cases h.symm.trans h'
  | enter h => cases h' with
    | pass h' => cases h.symm.trans h'
    | enter h' => cases h.symm.trans h'; rfl

/-- A move of a walk that has not yet loaded `limit` files besides the root. -/
def MovesWithin (env : Env) (limit : Nat) (s t : State) : Prop :=
  s.others.length < limit ∧ Moves env s t

/-- Where a walk stops that loads at most `limit` files besides the root. -/
def Stopped (limit : Nat) (s : State) : Prop :=
  s.stack = [] ∨ s.others.length = limit

theorem Stopped.not_moves {limit : Nat} {s t : State} (h : Stopped limit s) : ¬ MovesWithin env limit s t := by
  rintro ⟨hlength, hmove⟩
  rcases h with hstack | hlimit
  · cases hmove <;> cases hstack
  · omega

theorem run_moves {limit : Nat} {s t : State} (h : ReflTransGen (MovesWithin env limit) s t) :
    ReflTransGen (Moves env) s t :=
  h.lift id fun _ _ h => h.2

/-- Where there is no choice, a run leads on to where another run from the same state is stuck. -/
theorem run_to_stuck {r : State → State → Prop} {s t t' : State} (hunique : Relator.RightUnique r)
    (h : ReflTransGen r s t) (h' : ReflTransGen r s t') (hstuck' : ∀ u, ¬r t' u) : ReflTransGen r t t' := by
  rcases ReflTransGen.total_of_right_unique hunique h h' with hrest | hback
  · exact hrest
  · rcases ReflTransGen.cases_head hback with rfl | ⟨u, hstep, _⟩
    · exact .refl
    · exact absurd hstep (hstuck' u)

/-- So runs from the same state that are stuck have come to the same state. -/
theorem stuck_unique {r : State → State → Prop} {s t t' : State} (hunique : Relator.RightUnique r)
    (h : ReflTransGen r s t) (hstuck : ∀ u, ¬r t u) (h' : ReflTransGen r s t') (hstuck' : ∀ u, ¬r t' u) : t = t' := by
  rcases ReflTransGen.cases_head (run_to_stuck hunique h h' hstuck') with hsame | ⟨u, hstep, _⟩
  · exact hsame
  · exact absurd hstep (hstuck u)

/-- From a state only one end can be reached: ends have an empty stack. -/
theorem end_unique {s t t' : State} (h : ReflTransGen (Moves env) s t) (h' : ReflTransGen (Moves env) s t')
    (ht : t.stack = []) (ht' : t'.stack = []) : t = t' := by
  have hunique : Relator.RightUnique (Moves env) := fun _ _ _ => Moves.deterministic
  have hstuck : ∀ t : State, t.stack = [] → ∀ u, ¬Moves env t u := by
    intro t ht u hmove
    cases hmove <;> cases ht
  exact stuck_unique hunique h (hstuck t ht) h' (hstuck t' ht')

/-! ## Walks as runs -/

/-- The answer to the next question cancels the walk. The question counts, but nothing more is read. -/
structure Interrupts (env : Env) (log log' : Log) : Prop where
  cancelled : env.cancelled log.questions = true
  questions : log'.questions = log.questions + 1
  reads : log'.reads = log.reads

/-- Where a run stands when following imports comes to something: before the question that cancels the walk; at the
frames below, when no import leads anywhere new; or in a new file. -/
inductive Found (env : Env) (visited : Std.TreeSet Uri) (others : List ScopeFile) (below : List Frame) :
    Step × List Frame × Log → State → Prop
  | cancelled {t : State} {stack : List Frame} {log' : Log} (hothers : t.others = others)
      (h : Interrupts env t.log log') : Found env visited others below (.cancelled, stack, log') t
  | pass {stack : List Frame} {log' : Log} :
      Found env visited others below (.pass, stack, log') ⟨below, visited, others, log'⟩
  | enter {f : ScopeFile} {stack : List Frame} {log' : Log} :
      Found env visited others below (.enter f, stack, log')
        ⟨.enter f :: stack, visited.insert f.uri, f :: others, log'⟩

/-- Following the imports of one file is a run of moves: one for each import, up to the first that leads to something. -/
theorem followEach_runs (env : Env) (visited : Std.TreeSet Uri) (others : List ScopeFile) {limit : Nat}
    (hlimit : others.length < limit) (current : ScopeFile) (below : List Frame) (position : Nat)
    (rest : List Syntax.Import) (log : Log) :
    ∃ t, ReflTransGen (MovesWithin env limit) ⟨⟨current, position, rest⟩ :: below, visited, others, log⟩ t ∧
      Found env visited others below (followEach env visited current below position rest log) t := by
  induction rest generalizing position log with
  | nil => exact ⟨_, .single ⟨hlimit, .leave⟩, .pass⟩
  | cons i rest ih =>
    rw [followEach]
    cases hfollow : follow env (⟨current, position + 1, rest⟩ :: below) visited current position i log with
    | mk next log₁ =>
      cases next with
      | cancelled =>
        cases followed_of_eq hfollow with
        | cancelled _ _ hcancelled => exact ⟨_, .refl, .cancelled rfl ⟨hcancelled, rfl, rfl⟩⟩
      | pass =>
        obtain ⟨t, hrun, hfound⟩ := ih (position + 1) log₁
        exact ⟨t, .head ⟨hlimit, .pass hfollow⟩ hrun, hfound⟩
      | enter f => exact ⟨_, .single ⟨hlimit, .enter hfollow⟩, .enter⟩

/-- Advancing is a run of moves. When no import leads anywhere new, it ends at the empty stack. -/
theorem advance_runs (env : Env) (visited : Std.TreeSet Uri) (others : List ScopeFile) {limit : Nat}
    (hlimit : others.length < limit) (stack : List Frame) (log : Log) :
    ∃ t, ReflTransGen (MovesWithin env limit) ⟨stack, visited, others, log⟩ t ∧
      Found env visited others [] (advance env visited stack log) t := by
  induction stack generalizing log with
  | nil => exact ⟨_, .refl, .pass⟩
  | cons top below ih =>
    obtain ⟨t, hrun, hfound⟩ :=
      followEach_runs env visited others hlimit top.file below top.position top.rest log
    rw [advance]
    generalize followEach env visited top.file below top.position top.rest log = found at hfound ⊢
    cases hfound with
    | cancelled hothers hinterrupts => exact ⟨t, hrun, .cancelled hothers hinterrupts⟩
    | pass =>
      obtain ⟨t', hrest, hfound'⟩ := ih _
      exact ⟨t', hrun.trans hrest, hfound'⟩
    | enter => exact ⟨_, hrun, .enter⟩

/-- **What `walk` finds is what a run of moves finds.** The run comes to its end, or it stops because the walk has
used all of its room and loaded one more file, or the walk is cancelled there. -/
theorem walk_runs (env : Env) (room : Nat) (stack : List Frame) (visited : Std.TreeSet Uri)
    (others : List ScopeFile) (log : Log) :
    ∃ t, ReflTransGen (MovesWithin env (others.length + room + 1)) ⟨stack, visited, others, log⟩ t ∧
      (Stopped (others.length + room + 1) t ∧ walk env room stack visited others log = ⟨true, t.others, t.log⟩ ∨
        ∃ log', Interrupts env t.log log' ∧ walk env room stack visited others log = ⟨false, t.others, log'⟩) := by
  induction room generalizing stack visited others log with
  | zero =>
    obtain ⟨t, hrun, hfound⟩ := advance_runs env visited others (Nat.lt_succ_self _) stack log
    refine ⟨t, hrun, ?_⟩
    rw [walk]
    generalize advance env visited stack log = found at hfound ⊢
    cases hfound with
    | cancelled hothers hinterrupts => exact Or.inr ⟨_, hinterrupts, by rw [hothers]⟩
    | pass => exact Or.inl ⟨Or.inl rfl, rfl⟩
    | enter => exact Or.inl ⟨Or.inr rfl, rfl⟩
  | succ room ih =>
    have hlimit : others.length < others.length + (room + 1) + 1 := by omega
    obtain ⟨t, hrun, hfound⟩ := advance_runs env visited others hlimit stack log
    rw [walk]
    generalize advance env visited stack log = found at hfound ⊢
    cases hfound with
    | cancelled hothers hinterrupts => exact ⟨t, hrun, Or.inr ⟨_, hinterrupts, by rw [hothers]⟩⟩
    | pass => exact ⟨_, hrun, Or.inl ⟨Or.inl rfl, rfl⟩⟩
    | @enter f stack' log' =>
      have hrest := ih (.enter f :: stack') (visited.insert f.uri) (f :: others) log'
      rw [List.length_cons, Nat.add_right_comm others.length 1 room] at hrest
      obtain ⟨t, hrest, hwalk⟩ := hrest
      exact ⟨t, hrun.trans hrest, hwalk⟩

/-- The same of the walk from a root. -/
theorem walkFrom_run (sources : Sources) (cancelled : Nat → Bool) (root : ScopeFile) (questions : Nat) :
    ∃ t, ReflTransGen (MovesWithin ⟨sources, cancelled, root⟩ (sources.capacity + 1)) (.start root questions) t ∧
      (Stopped (sources.capacity + 1) t ∧ walkFrom sources cancelled root questions = ⟨true, t.others, t.log⟩ ∨
        ∃ log', Interrupts ⟨sources, cancelled, root⟩ t.log log' ∧
          walkFrom sources cancelled root questions = ⟨false, t.others, log'⟩) := by
  have hruns := walk_runs ⟨sources, cancelled, root⟩ sources.capacity [.enter root]
    (({} : Std.TreeSet Uri).insert root.uri) [] (.start questions)
  rwa [List.length_nil, Nat.zero_add] at hruns

/-! ## What a walk reports -/

/-- The rules about imports that a walk applies. -/
def OfWalking (c : DiagnosticCode) : Prop :=
  c = .invalidImport ∨ c = .unreadableImport ∨ c = .importCycle

theorem failureDiagnostic_ofWalking (env : Env) (via : Nat) (current : ScopeFile) (i : Syntax.Import) (f : Failure) :
    OfWalking (failureDiagnostic env via current i f).code := by
  have hcode : (failureDiagnostic env via current i f).code = f.code := by
    unfold failureDiagnostic
    split <;> rfl
  rw [hcode]
  cases f with
  | unresolvable _ => exact Or.inl rfl
  | source _ => exact Or.inr (Or.inl rfl)

theorem followed_reports {stack : List Frame} {visited : Std.TreeSet Uri} {current : ScopeFile} {position : Nat}
    {i : Syntax.Import} {log log' : Log} {step : Step}
    (h : follow env stack visited current position i log = (step, log'))
    (hlog : ∀ d ∈ log.diagnostics, OfWalking d.code) :
    ∀ d ∈ log'.diagnostics, OfWalking d.code := by
  have hreport : ∀ {e : Diagnostic}, OfWalking e.code → ∀ d ∈ e :: log.diagnostics, OfWalking d.code := by
    intro e he d hd
    rcases List.mem_cons.1 hd with rfl | hold
    · exact he
    · exact hlog d hold
  cases followed_of_eq h with
  | unresolvable _ => exact hreport (failureDiagnostic_ofWalking ..)
  | cycle _ _ _ => exact hreport (Or.inr (Or.inr rfl))
  | known _ _ _ => exact hlog
  | cancelled _ _ _ => exact hlog
  | failed _ _ _ => exact hreport (failureDiagnostic_ofWalking ..)
  | entered _ _ _ => exact hlog

theorem Moves.reports {s t : State} (h : Moves env s t) (hs : ∀ d ∈ s.log.diagnostics, OfWalking d.code) :
    ∀ d ∈ t.log.diagnostics, OfWalking d.code := by
  cases h with
  | leave => exact hs
  | pass hfollow => exact followed_reports hfollow hs
  | enter hfollow => exact followed_reports hfollow hs

/-- All that a walk reports is about imports. -/
theorem run_reports {root : ScopeFile} {questions : Nat} {t : State}
    (h : ReflTransGen (Moves env) (.start root questions) t) : ∀ d ∈ t.log.diagnostics, OfWalking d.code := by
  induction h with
  | refl => exact fun d hd => absurd hd List.not_mem_nil
  | tail _ hstep ih => exact hstep.reports ih

end LgLang.Import
