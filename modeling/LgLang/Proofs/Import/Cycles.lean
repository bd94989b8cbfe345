import LgLang.Proofs.Import.Reach
import Mathlib.Data.List.Chain

/-!
# Cycles of imports

A walk reports a cycle when an import leads back to a file on the way from the root to where the walk is. That this
finds a cycle whenever there is one is the back edge theorem of depth first search, here of a walk whose stack, visited
files and edges are kept apart: as long as nothing has been reported, an edge leads to a file on the stack only from a
file below it, and so no edge that is added closes a path (`Unclosed`). That every report tells of a real cycle is part
of the invariant `OnWay`, which holds next to `Walking` at every state of a run.
-/

namespace LgLang.Import

open Relation (ReflTransGen TransGen)

variable {env : Env} {sources : Sources} {root : ScopeFile} {s t : State}

/-! ## Cycles -/

/-- A file has an import of another one, which need not be readable. -/
def Imports (sources : Sources) (root : ScopeFile) (u v : Uri) : Prop :=
  ∃ i ∈ importsAt sources root u, sources.resolve u i.target = some v

/-- The imports of the files that the root leads to come back to one of them. -/
def HasCycle (sources : Sources) (root : ScopeFile) : Prop :=
  ∃ v, Reachable sources root v ∧ TransGen (Imports sources root) v v

def Edge (g : ImportGraph) (u v : Uri) : Prop :=
  v ∈ g.importsOf u

/-- The import of the root through which a walk first comes to where the import `q` of `f` stands: this one itself in
the root, and otherwise the first one that leads to `f`. -/
def FirstImport (sources : Sources) (root f : ScopeFile) (q k : Nat) : Prop :=
  (f = root ∧ k = q) ∨ (ReachableBy sources root k f.uri ∧ ∀ j, ReachableBy sources root j f.uri → k ≤ j)

/-- A finding tells of a cycle of the scope: the import `q` of the file `f` closes it, and `path` holds the files from
the target of this import to `f`. -/
structure TellsOf (sources : Sources) (scope : Scope) (d : Diagnostic) (f : ScopeFile) (q : Nat) (i : Syntax.Import)
    (target : Uri) (path : List Uri) : Prop where
  closing : f.file.imports[q]? = some i
  resolve : sources.resolve f.uri i.target = some target
  first : path.head? = some target
  last : path.getLast? = some f.uri
  edges : (path ++ [target]).IsChain (Edge scope.graph)
  severity : d.severity = .information
  message : d.message = "import cycle: " ++ " -> ".intercalate ((path ++ [target]).map Uri.displayName)
  related : d.related = [⟨f.uri, i.span, "cycle closes here"⟩]
  span : ∃ k j, FirstImport sources scope.root f q k ∧ scope.root.file.imports[k]? = some j ∧ d.span = j.span

def TellsCycle (sources : Sources) (scope : Scope) (d : Diagnostic) : Prop :=
  ∃ f ∈ scope.files, ∃ q i target path, TellsOf sources scope d f q i target path

/-- What a finished walk tells about cycles: whether there is one, and nothing but real ones. -/
structure CyclesTold (sources : Sources) (root : ScopeFile) (w : Walked) : Prop where
  finished : w.finished = true
  told : (∃ d ∈ (w.scope root).diagnostics, d.code = .importCycle) ↔ HasCycle sources root
  real : ∀ d ∈ (w.scope root).diagnostics, d.code = .importCycle → TellsCycle sources (w.scope root) d

/-- A path that may use one more edge does without it, or it leads to the source of the edge and on from its target. -/
theorem transGen_with {R R' : Uri → Uri → Prop} {a b u v : Uri} (hR : ∀ x y, R' x y → R x y ∨ (x = a ∧ y = b))
    (h : TransGen R' u v) : TransGen R u v ∨ (ReflTransGen R u a ∧ ReflTransGen R b v) := by
  induction h with
  | single hedge =>
    rcases hR _ _ hedge with hold | ⟨rfl, rfl⟩
    · exact Or.inl (.single hold)
    · exact Or.inr ⟨.refl, .refl⟩
  | tail _ hedge ih =>
    rcases hR _ _ hedge with hold | ⟨rfl, rfl⟩
    · rcases ih with hpath | ⟨hto, hfrom⟩
      · exact Or.inl (hpath.tail hold)
      · exact Or.inr ⟨hto, hfrom.tail hold⟩
    · rcases ih with hpath | ⟨hto, _⟩
      · exact Or.inr ⟨hpath.to_reflTransGen, .refl⟩
      · exact Or.inr ⟨hto, .refl⟩

/-! ## What an import reports -/

theorem failureDiagnostic_code_ne {via : Nat} {current : ScopeFile} {i : Syntax.Import} {f : Failure} :
    (failureDiagnostic env via current i f).code ≠ .importCycle := by
  unfold failureDiagnostic
  cases f <;> split <;> exact DiagnosticCode.noConfusion

section Follow

variable {stack : List Frame} {visited : Std.TreeSet Uri} {current : ScopeFile} {position : Nat} {i : Syntax.Import}
  {log log' : Log} {step : Step}

theorem followed_keeps (h : follow env stack visited current position i log = (step, log')) :
    ∀ d ∈ log.diagnostics, d ∈ log'.diagnostics := by
  intro d hd
  cases followed_of_eq h with
  | unresolvable _ => exact List.mem_cons_of_mem _ hd
  | cycle _ _ _ => exact List.mem_cons_of_mem _ hd
  | known _ _ _ => exact hd
  | cancelled _ _ _ => exact hd
  | failed _ _ _ => exact List.mem_cons_of_mem _ hd
  | entered _ _ _ => exact hd

/-- A cycle is reported only for an import of a file on the way from the root. -/
theorem followed_cycle (h : follow env stack visited current position i log = (step, log')) {d : Diagnostic}
    (hd : d ∈ log'.diagnostics) (hcode : d.code = .importCycle) :
    d ∈ log.diagnostics ∨ ∃ target, env.sources.resolve current.uri i.target = some target ∧
      target ∈ log'.graph.importsOf current.uri ∧ target ∈ (stack.map (·.file.uri)).reverse ∧
      d = cycleDiagnostic env (current.via.getD position) current i (stack.map (·.file.uri)).reverse target := by
  have hreport : ∀ {f : Failure}, d ∈ failureDiagnostic env (current.via.getD position) current i f :: log.diagnostics →
      d ∈ log.diagnostics := by
    intro f hd
    rcases List.mem_cons.1 hd with rfl | hold
    · exact absurd hcode failureDiagnostic_code_ne
    · exact hold
  cases followed_of_eq h with
  | unresolvable _ => exact Or.inl (hreport hd)
  | @cycle target hresolve _ hpath =>
    rcases List.mem_cons.1 hd with rfl | hold
    · exact Or.inr ⟨target, hresolve, mem_importsOf_addEdge.2 (Or.inr ⟨rfl, rfl⟩), hpath, rfl⟩
    · exact Or.inl hold
  | known _ _ _ => exact Or.inl hd
  | cancelled _ _ _ => exact Or.inl hd
  | failed _ _ _ => exact Or.inl (hreport hd)
  | entered _ _ _ => exact Or.inl hd

/-- An import of a file on the way from the root is reported. -/
theorem followed_closes (h : follow env stack visited current position i log = (step, log')) {target : Uri}
    (hresolve : env.sources.resolve current.uri i.target = some target) (hvisited : target ∈ visited)
    (hstack : target ∈ stack.map (·.file.uri)) : ∃ d ∈ log'.diagnostics, d.code = .importCycle := by
  have hsame : ∀ {target' : Uri}, env.sources.resolve current.uri i.target = some target' → target' = target :=
    fun hresolve' => Option.some.inj (hresolve'.symm.trans hresolve)
  cases followed_of_eq h with
  | unresolvable hnone => cases hnone.symm.trans hresolve
  | cycle _ _ _ => exact ⟨_, List.mem_cons_self, rfl⟩
  | known hresolve' _ hpath => exact absurd (List.mem_reverse.2 hstack) (hsame hresolve' ▸ hpath)
  | cancelled hresolve' hnew _ => exact absurd hvisited (hsame hresolve' ▸ hnew)
  | failed hresolve' hnew _ => exact absurd hvisited (hsame hresolve' ▸ hnew)
  | entered hresolve' hnew _ => exact absurd hvisited (hsame hresolve' ▸ hnew)

end Follow

/-! ## The invariant -/

/-- The files from where the walk is back to the root. -/
def State.way (s : State) : List Uri :=
  s.stack.map (·.file.uri)

/-- What holds of the edges as long as no cycle has been closed. An edge to a file on the stack comes from a file
below. -/
structure Unclosed (s : State) : Prop where
  acyclic : ∀ v, ¬ TransGen (Edge s.log.graph) v v
  below : ∀ u v, Edge s.log.graph u v → v ∈ s.way → [v, u].Sublist s.way

/-- Where a reported cycle has come from: an import of a file that has been found, with the way to this file at that
time. -/
def Closed (env : Env) (s : State) (d : Diagnostic) : Prop :=
  ∃ f ∈ env.root :: s.others, ∃ (q : Nat) (i : Syntax.Import) (target : Uri) (path : List Uri),
    f.file.imports[q]? = some i ∧ env.sources.resolve f.uri i.target = some target ∧
    Edge s.log.graph f.uri target ∧ target ∈ path ∧ path.getLast? = some f.uri ∧ path.IsChain (Edge s.log.graph) ∧
    d = cycleDiagnostic env (f.via.getD q) f i path target

/-- What holds of the way and the reports at every state of a walk. -/
structure OnWay (env : Env) (s : State) : Prop where
  nodup : s.way.Nodup
  chain : s.way.IsChain fun upper lower => Edge s.log.graph lower upper
  known : ∀ u v text, Edge s.log.graph u v → env.sources.read v = .ok text → v ∈ s.visited
  closed : ∀ d ∈ s.log.diagnostics, d.code = .importCycle → Closed env s d
  unclosed : (∀ d ∈ s.log.diagnostics, d.code ≠ .importCycle) → Unclosed s

/-- The files on the stack have been visited. -/
theorem Walking.visited_of_way (h : Walking env s) {v : Uri} (hv : v ∈ s.way) : v ∈ s.visited := by
  obtain ⟨fr, hfr, rfl⟩ := List.mem_map.1 hv
  exact (h.visited _).2 (List.mem_map_of_mem (h.frames fr hfr).1)

theorem Closed.mono {d : Diagnostic} (h : Closed env s d) (hothers : ∀ g ∈ s.others, g ∈ t.others)
    (hedges : ∀ u v, Edge s.log.graph u v → Edge t.log.graph u v) : Closed env t d := by
  obtain ⟨f, hf, q, i, target, path, himport, hresolve, hedge, hmem, hlast, hchain, hd⟩ := h
  refine ⟨f, ?_, q, i, target, path, himport, hresolve, hedges _ _ hedge, hmem, hlast, hchain.imp hedges, hd⟩
  rcases List.mem_cons.1 hf with rfl | hothers'
  · exact List.mem_cons_self
  · exact List.mem_cons_of_mem _ (hothers f hothers')

/-- As long as no cycle has been closed, all that leads to the stack is on the stack. -/
theorem Unclosed.mem_way (h : Unclosed s) {u v : Uri} (hpath : ReflTransGen (Edge s.log.graph) u v) (hv : v ∈ s.way) :
    u ∈ s.way := by
  induction hpath using ReflTransGen.head_induction_on with
  | refl => exact hv
  | head hedge _ ih => exact (h.below _ _ hedge ih).subset (List.mem_cons_of_mem _ List.mem_cons_self)

/-- An edge from the stack to a file that is not on the stack closes no cycle. -/
theorem Unclosed.acyclic_with (h : Unclosed s) {g : ImportGraph} {a b : Uri}
    (hg : ∀ x y, Edge g x y → Edge s.log.graph x y ∨ (x = a ∧ y = b)) (ha : a ∈ s.way) (hb : b ∉ s.way) :
    ∀ v, ¬ TransGen (Edge g) v v := by
  intro v hcycle
  rcases transGen_with hg hcycle with hold | ⟨hto, hfrom⟩
  · exact h.acyclic v hold
  · exact hb (h.mem_way (hfrom.trans hto) ha)

theorem OnWay.start (root : ScopeFile) (questions : Nat) : OnWay env (.start root questions) := by
  have hempty : ∀ u v, ¬ Edge ImportGraph.empty u v := by
    intro u v
    simp [Edge, ImportGraph.importsOf, ImportGraph.empty]
  refine
    { nodup := List.pairwise_singleton _ _
      chain := List.isChain_singleton _
      known := fun u v _ h _ => absurd h (hempty u v)
      closed := fun _ hd => absurd hd List.not_mem_nil
      unclosed := fun _ => ⟨fun v hcycle => ?_, fun u v h => absurd h (hempty u v)⟩ }
  obtain ⟨_, hedge, _⟩ := TransGen.head'_iff.1 hcycle
  exact hempty _ _ hedge

section Steps

variable {current f : ScopeFile} {position : Nat} {i : Syntax.Import} {rest : List Syntax.Import} {below : List Frame}
  {visited : Std.TreeSet Uri} {others : List ScopeFile} {log log' : Log}

theorem OnWay.leave (h : OnWay env ⟨⟨current, position, []⟩ :: below, visited, others, log⟩) :
    OnWay env ⟨below, visited, others, log⟩ := by
  have hnodup := List.nodup_cons.1 h.nodup
  refine
    { nodup := hnodup.2
      chain := h.chain.tail
      known := h.known
      closed := h.closed
      unclosed := fun hquiet => ⟨(h.unclosed hquiet).acyclic, fun u v hedge hv => ?_⟩ }
  -- The file that is left is the topmost, so it is not what an edge to the stack comes from.
  have hbelow := (h.unclosed hquiet).below u v hedge (List.mem_cons_of_mem _ hv)
  rcases List.sublist_cons_iff.1 hbelow with hsub | ⟨_, htop, _⟩
  · exact hsub
  · rw [(List.cons.inj htop).1] at hv
    exact absurd hv hnodup.1

theorem OnWay.pass (hwalking : Walking env ⟨⟨current, position, i :: rest⟩ :: below, visited, others, log⟩)
    (h : OnWay env ⟨⟨current, position, i :: rest⟩ :: below, visited, others, log⟩)
    (hfollow : follow env (⟨current, position + 1, rest⟩ :: below) visited current position i log = (.pass, log')) :
    OnWay env ⟨⟨current, position + 1, rest⟩ :: below, visited, others, log'⟩ := by
  obtain ⟨hedges, _, hvisited⟩ := followed_pass hfollow
  have hmore : ∀ u v, Edge log.graph u v → Edge log'.graph u v := fun u v hv => (hedges u v).2 (Or.inl hv)
  refine
    { nodup := h.nodup
      chain := List.IsChain.imp (fun u v huv => hmore v u huv) h.chain
      known := fun u v text hedge hread => ?_
      closed := fun d hd hcode => ?_
      unclosed := fun hquiet => ?_ }
  · rcases (hedges u v).1 hedge with hold | ⟨rfl, hresolve⟩
    · exact h.known u v text hold hread
    · exact hvisited v text hresolve hread
  · rcases followed_cycle hfollow hd hcode with hold | ⟨target, hresolve, hedge, hpath, hd⟩
    · exact (h.closed d hold hcode).mono (fun _ hg => hg) hmore
    · refine ⟨current, (hwalking.frames _ List.mem_cons_self).1, position, i, target, _, (hwalking.next_import rfl).1,
        hresolve, hedge, hpath, ?_, ?_, hd⟩
      · rw [List.getLast?_reverse]
        rfl
      · rw [List.isChain_reverse]
        exact List.IsChain.imp (fun u v huv => hmore v u huv) h.chain
  · -- The target of the import is not on the stack, or a cycle would have been reported.
    have hold := h.unclosed fun d hd => hquiet d (followed_keeps hfollow d hd)
    have hoff : ∀ v, env.sources.resolve current.uri i.target = some v →
        v ∉ (⟨current, position + 1, rest⟩ :: below).map (·.file.uri) := by
      intro v hresolve hv
      obtain ⟨d, hd, hcode⟩ := followed_closes hfollow hresolve (hwalking.visited_of_way hv) hv
      exact hquiet d hd hcode
    constructor
    · intro v hcycle
      cases hresolve : env.sources.resolve current.uri i.target with
      | none =>
        refine hold.acyclic v (hcycle.lift id fun x y hxy => ?_)
        rcases (hedges x y).1 hxy with hxy | ⟨_, hnone⟩
        · exact hxy
        · cases hresolve.symm.trans hnone
      | some target =>
        refine hold.acyclic_with (b := target) (fun x y hxy => ?_) List.mem_cons_self (hoff target hresolve) v hcycle
        rcases (hedges x y).1 hxy with hxy | ⟨hx, hy⟩
        · exact Or.inl hxy
        · exact Or.inr ⟨hx, Option.some.inj (hy.symm.trans hresolve)⟩
    · intro u v hedge hv
      rcases (hedges u v).1 hedge with hedge | ⟨rfl, hresolve⟩
      · exact hold.below u v hedge hv
      · exact absurd hv (hoff v hresolve)

theorem OnWay.enter (hwalking : Walking env ⟨⟨current, position, i :: rest⟩ :: below, visited, others, log⟩)
    (h : OnWay env ⟨⟨current, position, i :: rest⟩ :: below, visited, others, log⟩)
    (hfollow : follow env (⟨current, position + 1, rest⟩ :: below) visited current position i log = (.enter f, log')) :
    OnWay env ⟨.enter f :: ⟨current, position + 1, rest⟩ :: below, visited.insert f.uri, f :: others, log'⟩ := by
  obtain ⟨target, text, hresolve, hnew, hread, hf, rfl⟩ := followed_enter hfollow
  obtain rfl : f.uri = target := congrArg ScopeFile.uri hf
  have hedges : ∀ u v, Edge (log.graph.addEdge current.uri f.uri) u v ↔
      Edge log.graph u v ∨ (u = current.uri ∧ v = f.uri) := fun _ _ => mem_importsOf_addEdge
  have hmore : ∀ u v, Edge log.graph u v → Edge (log.graph.addEdge current.uri f.uri) u v :=
    fun u v hv => (hedges u v).2 (Or.inl hv)
  have hoff : f.uri ∉ (⟨current, position + 1, rest⟩ :: below).map (·.file.uri) :=
    fun hmem => hnew (hwalking.visited_of_way hmem)
  refine
    { nodup := List.nodup_cons.2 ⟨hoff, h.nodup⟩
      chain := List.IsChain.cons_cons ((hedges _ _).2 (Or.inr ⟨rfl, rfl⟩))
        (List.IsChain.imp (fun u v huv => hmore v u huv) h.chain)
      known := fun u v text' hedge hread' => ?_
      closed := fun d hd hcode => (h.closed d hd hcode).mono (fun _ hg => List.mem_cons_of_mem _ hg) hmore
      unclosed := fun hquiet => ⟨?_, fun u v hedge hv => ?_⟩ }
  · rw [Std.TreeSet.mem_insert]
    rcases (hedges u v).1 hedge with hold | ⟨_, rfl⟩
    · exact Or.inr (h.known u v text' hold hread')
    · exact Or.inl Std.ReflCmp.compare_self
  · exact (h.unclosed hquiet).acyclic_with (fun x y => (hedges x y).1) List.mem_cons_self hoff
  · show [v, u].Sublist (f.uri :: current.uri :: below.map (·.file.uri))
    rcases (hedges u v).1 hedge with hold | ⟨rfl, rfl⟩
    · rcases List.mem_cons.1 hv with rfl | hv
      · -- No edge has led to the new file yet: it can be read, so it would have been visited.
        exact absurd (h.known u _ text hold hread) hnew
      · exact ((h.unclosed hquiet).below u v hold hv).cons _
    · exact ((List.nil_sublist _).cons_cons _).cons_cons _

end Steps

theorem OnWay.step (hwalking : Walking env s) (h : OnWay env s) (hstep : Moves env s t) : OnWay env t := by
  cases hstep with
  | leave => exact h.leave
  | pass hfollow => exact h.pass hwalking hfollow
  | enter hfollow => exact h.enter hwalking hfollow

theorem OnWay.run {questions : Nat} (hroot : env.root.via = none)
    (hrun : ReflTransGen (Moves env) (.start env.root questions) t) : OnWay env t := by
  induction hrun with
  | refl => exact .start _ _
  | tail hrun hstep ih => exact ih.step ((Walking.start _ _ rfl).run hroot hrun) hstep

/-! ## The end of a walk -/

/-- The edges that a complete walk has noted are the imports of the files that can be reached. -/
theorem Complete.edge_iff {w : Walked} (hcomplete : Complete sources root w)
    (himports : ∀ f ∈ (w.scope root).files, importsAt sources root f.uri = f.file.imports) {u v : Uri} :
    Edge w.log.graph u v ↔ Reachable sources root u ∧ Imports sources root u v := by
  rw [← hcomplete.files u]
  constructor
  · intro hedge
    obtain ⟨f, hf, rfl, i, hi, hresolve⟩ := (hcomplete.edges u v).1 hedge
    exact ⟨⟨f, hf, rfl⟩, i, himports f hf ▸ hi, hresolve⟩
  · rintro ⟨⟨f, hf, rfl⟩, i, hi, hresolve⟩
    exact (hcomplete.edges _ v).2 ⟨f, hf, rfl, i, himports f hf ▸ hi, hresolve⟩

/-- What imports something can be read, or it is the root. -/
theorem Imports.readable {u v : Uri} (h : Imports sources root u v) :
    u = root.uri ∨ ∃ text, sources.read u = .ok text := by
  obtain ⟨i, hi, _⟩ := h
  unfold importsAt at hi
  split at hi
  · next hu => exact Or.inl hu
  · cases hread : sources.read u with
    | ok text => exact Or.inr ⟨text, rfl⟩
    | error e =>
      rw [hread] at hi
      exact absurd hi List.not_mem_nil

/-- A cycle of imports of files that can be reached is a cycle of edges. -/
theorem hasCycle_iff {g : ImportGraph} (hg : ∀ u v, Edge g u v ↔ Reachable sources root u ∧ Imports sources root u v) :
    HasCycle sources root ↔ ∃ v, TransGen (Edge g) v v := by
  constructor
  · rintro ⟨v, hv, hcycle⟩
    refine ⟨v, ?_⟩
    have hpath : ∀ {u : Uri}, TransGen (Imports sources root) u v → Reachable sources root u →
        TransGen (Edge g) u v := by
      intro u hpath
      induction hpath using TransGen.head_induction_on with
      | single himports => exact fun hu => .single ((hg _ _).2 ⟨hu, himports⟩)
      | @head u w himports hrest ih =>
        intro hu
        refine .head ((hg _ _).2 ⟨hu, himports⟩) (ih ?_)
        -- The next file of the cycle has imports as well, so it can be read.
        obtain ⟨x, hnext, _⟩ := TransGen.head'_iff.1 hrest
        rcases hnext.readable with rfl | hread
        · exact .refl
        · exact hu.tail ⟨himports, hread⟩
    exact hpath hcycle hv
  · rintro ⟨v, hcycle⟩
    obtain ⟨_, hedge, _⟩ := TransGen.head'_iff.1 hcycle
    exact ⟨v, ((hg _ _).1 hedge).1, hcycle.lift id fun x y hxy => ((hg x y).1 hxy).2⟩

/-- The path of a finding leads around a cycle. -/
theorem TellsCycle.cycle {scope : Scope} {d : Diagnostic} (h : TellsCycle sources scope d) :
    ∃ v, TransGen (Edge scope.graph) v v := by
  obtain ⟨_, _, _, _, target, path, h⟩ := h
  have hchain := h.edges
  obtain ⟨rest, rfl⟩ := List.head?_eq_some_iff.1 h.first
  cases hrest : rest ++ [target] with
  | nil => simp at hrest
  | cons next more =>
    rw [List.cons_append, hrest, List.isChain_cons_cons] at hchain
    have hback := List.relationReflTransGen_of_exists_isChain_cons more hchain.2 rfl
    have hlast : (next :: more).getLast (List.cons_ne_nil _ _) = target := by
      simp [← hrest]
    rw [hlast] at hback
    exact ⟨target, TransGen.head' hchain.1 hback⟩

/-- The root import noted for a file is the one through which it was first reached. -/
theorem Complete.firstImport {w : Walked} (hroot : root.via = none) (hcomplete : Complete sources root w)
    {f : ScopeFile} (hf : f ∈ (w.scope root).files) {q : Nat} {i : Syntax.Import}
    (himport : f.file.imports[q]? = some i) :
    FirstImport sources root f q (f.via.getD q) ∧ ∃ j, root.file.imports[f.via.getD q]? = some j := by
  rcases List.mem_cons.1 hf with hfile | hothers
  · obtain rfl : f = root := hfile
    rw [hroot]
    exact ⟨Or.inl ⟨rfl, rfl⟩, i, himport⟩
  · obtain ⟨k, hk, hreach, hleast⟩ := hcomplete.via f hothers
    rw [hk]
    exact ⟨Or.inr ⟨hreach, hleast⟩, _, List.getElem?_eq_getElem hreach.lt_length⟩

/-- At the end of a walk every report tells of a cycle. -/
theorem Closed.tells (hroot : env.root.via = none) {d : Diagnostic} (h : Closed env s d)
    (hcomplete : Complete env.sources env.root ⟨true, s.others, s.log⟩) :
    TellsCycle env.sources ((⟨true, s.others, s.log⟩ : Walked).scope env.root) d := by
  obtain ⟨f, hf, q, i, target, path, himport, hresolve, hedge, hmem, hlast, hchain, rfl⟩ := h
  have hf := Walked.mem_files (w := ⟨true, s.others, s.log⟩).2 hf
  -- The path from the root is cut where the cycle begins.
  obtain ⟨before, behind, hpath, hbefore⟩ := List.eq_append_cons_of_mem hmem
  have hdrop : path.dropWhile (· != target) = target :: behind := by
    rw [hpath, List.dropWhile_append_of_pos]
    · simp
    · intro u hu
      exact bne_iff_ne.2 fun h => hbefore (h ▸ hu)
  have hlast' : (target :: behind).getLast? = some f.uri := by
    rw [hpath, List.getLast?_append] at hlast
    simpa using hlast
  have hchain' : (target :: behind ++ [target]).IsChain (Edge s.log.graph) := by
    refine (List.IsChain.right_of_append (hpath ▸ hchain)).append (List.isChain_singleton _) ?_
    intro u hu v hv
    rw [Option.some.inj ((Option.mem_def.1 hu).symm.trans hlast')]
    rw [← Option.some.inj (Option.mem_def.1 hv)]
    exact hedge
  obtain ⟨hfirst, j, hj⟩ := hcomplete.firstImport hroot hf himport
  have hspan : env.rootSpan (f.via.getD q) = j.span := by
    rw [Env.rootSpan, hj]
    rfl
  refine ⟨f, hf, q, i, target, target :: behind,
    { closing := himport
      resolve := hresolve
      first := rfl
      last := hlast'
      edges := hchain'
      severity := rfl
      message := ?_
      related := rfl
      span := ⟨f.via.getD q, j, hfirst, hj, hspan⟩ }⟩
  show _ = "import cycle: " ++ _
  rw [← hdrop]
  rfl

/-- At the end of a walk everything about cycles has been told. -/
theorem OnWay.told (hroot : env.root.via = none) (hwalking : Walking env s) (h : OnWay env s) (hend : s.stack = []) :
    CyclesTold env.sources env.root ⟨true, s.others, s.log⟩ := by
  have hcomplete := hwalking.complete hroot hend
  have hedges : ∀ u v, Edge s.log.graph u v ↔
      Reachable env.sources env.root u ∧ Imports env.sources env.root u v := fun u v =>
    hcomplete.edge_iff fun f hf => hwalking.importsAt_eq (Walked.mem_files.1 hf)
  have hreal : ∀ d ∈ s.log.diagnostics.reverse, d.code = .importCycle →
      TellsCycle env.sources ((⟨true, s.others, s.log⟩ : Walked).scope env.root) d :=
    fun d hd hcode => (h.closed d (List.mem_reverse.1 hd) hcode).tells hroot hcomplete
  refine ⟨rfl, ?_, hreal⟩
  rw [hasCycle_iff hedges]
  constructor
  · rintro ⟨d, hd, hcode⟩
    exact (hreal d hd hcode).cycle
  · rintro ⟨v, hcycle⟩
    by_contra hnone
    refine (h.unclosed fun d hd hcode => hnone ⟨d, List.mem_reverse.2 hd, hcode⟩).acyclic v hcycle

/-- With room for all files that are served a walk comes to its end. -/
theorem walkFrom_ends (sources : Sources) (served : List Uri)
    (hserved : ∀ u text, sources.read u = .ok text → u ∈ served) (hcapacity : served.length ≤ sources.capacity)
    (root : ScopeFile) (hroot : root.via = none) (questions : Nat) :
    ∃ t, ReflTransGen (Moves ⟨sources, fun _ => false, root⟩) (.start root questions) t ∧ t.stack = [] ∧
      walkFrom sources (fun _ => false) root questions = ⟨true, t.others, t.log⟩ := by
  obtain ⟨t, hrun, hstop, hwalking, hwalk⟩ := walkFrom_runs sources root hroot questions
  refine ⟨t, run_moves hrun, ?_, hwalk⟩
  rcases hstop with hend | hlength
  · exact hend
  · have hbound := hwalking.length_others_le hserved
    omega

/-- **A walk reports a cycle if and only if there is one, and each report tells of a real one.** A cycle is one of
imports of files that the root leads to, however it is hidden behind files that have been walked before. -/
theorem walkFrom_tells_cycles (sources : Sources) (served : List Uri)
    (hserved : ∀ u text, sources.read u = .ok text → u ∈ served) (hcapacity : served.length ≤ sources.capacity)
    (uri : Uri) (text : String) (file : Syntax.File) (questions : Nat) :
    CyclesTold sources (.root uri text file)
      (walkFrom sources (fun _ => false) (.root uri text file) questions) := by
  obtain ⟨t, hrun, hend, hwalk⟩ :=
    walkFrom_ends sources served hserved hcapacity (.root uri text file) rfl questions
  rw [hwalk]
  have hwalking : Walking ⟨sources, fun _ => false, .root uri text file⟩ t := (Walking.start _ _ rfl).run rfl hrun
  exact (OnWay.run rfl hrun).told rfl hwalking hend

/-- Of the two cycles here one is beside the root and the other leads through it. -/
theorem walkFrom_tells_cycles_selfImporting :
    (∀ u text, selfImporting.read u = .ok text → u ∈ [(⟨"file:///lib.lg"⟩ : Uri)]) ∧
    [(⟨"file:///lib.lg"⟩ : Uri)].length ≤ selfImporting.capacity ∧
    CyclesTold selfImporting
      (.root ⟨"file:///main.lg"⟩ "" (Syntax.parse "[missing](missing.lg)\n[lib](lib.lg)\n# A\n- a").file)
      (walkFrom selfImporting (fun _ => false)
        (.root ⟨"file:///main.lg"⟩ "" (Syntax.parse "[missing](missing.lg)\n[lib](lib.lg)\n# A\n- a").file) 0) := by
  have hserved : ∀ u text, selfImporting.read u = .ok text → u ∈ [(⟨"file:///lib.lg"⟩ : Uri)] := by
    intro u text hread
    by_cases hu : u = ⟨"file:///lib.lg"⟩
    · exact List.mem_singleton.2 hu
    · simp [selfImporting, hu] at hread
  exact ⟨hserved, by decide, walkFrom_tells_cycles selfImporting _ hserved (by decide) _ _ _ 0⟩

end LgLang.Import
