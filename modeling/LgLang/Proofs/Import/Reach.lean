import LgLang.Proofs.Import.Moves
import Mathlib.Data.List.Nodup
import Mathlib.Data.List.Perm.Subperm

/-!
# What a walk finds

A walk that is not cancelled finds every file that can be reached from the root through readable files, and nothing
else. The reachability is stated over the texts that the sources serve (`Reachable`, `ReachableBy`), with no
reference to the walk. The invariant `Walking` holds of every state of a run: it holds at the start
(`Walking.start`), every move keeps it (`Walking.step`), and at an end it says that the files are complete
(`Walking.complete`). The root import noted for a file is the first one that leads to it, because imports of the
root are exhausted one after another.
-/

namespace LgLang.Import

open Relation (ReflTransGen)

variable {env : Env} {sources : Sources} {root : ScopeFile} {s t : State}

/-! ## Reachability -/

/-- The imports of a file. The root is taken as it is given and any other file as it is read. -/
def importsAt (sources : Sources) (root : ScopeFile) (u : Uri) : List Syntax.Import :=
  if u = root.uri then root.file.imports
  else match sources.read u with
    | .ok text => (Syntax.parse text).file.imports
    | .error _ => []

/-- A file has an import of a file that can be read. -/
def Brings (sources : Sources) (root : ScopeFile) (u v : Uri) : Prop :=
  (∃ i ∈ importsAt sources root u, sources.resolve u i.target = some v) ∧ ∃ text, sources.read v = .ok text

/-- The imports lead from the root to a file. -/
def Reachable (sources : Sources) (root : ScopeFile) : Uri → Prop :=
  ReflTransGen (Brings sources root) root.uri

/-- The import `k` of the root leads to a file, and not by way of the root. -/
inductive ReachableBy (sources : Sources) (root : ScopeFile) (k : Nat) : Uri → Prop
  | first {i : Syntax.Import} {v : Uri} {text : String} (himport : root.file.imports[k]? = some i)
      (hresolve : sources.resolve root.uri i.target = some v) (hread : sources.read v = .ok text)
      (hroot : v ≠ root.uri) : ReachableBy sources root k v
  | next {u v : Uri} (hu : ReachableBy sources root k u) (hbrings : Brings sources root u v) (hroot : v ≠ root.uri) :
      ReachableBy sources root k v

theorem importsAt_root : importsAt sources root root.uri = root.file.imports :=
  if_pos rfl

theorem importsAt_of_read {u : Uri} {text : String} (hu : u ≠ root.uri) (hread : sources.read u = .ok text) :
    importsAt sources root u = (Syntax.parse text).file.imports := by
  simp [importsAt, hu, hread]

theorem ReachableBy.ne_root {k : Nat} {v : Uri} (h : ReachableBy sources root k v) : v ≠ root.uri := by
  cases h with
  | first _ _ _ hroot => exact hroot
  | next _ _ hroot => exact hroot

theorem ReachableBy.reachable {k : Nat} {v : Uri} (h : ReachableBy sources root k v) : Reachable sources root v := by
  induction h with
  | first himport hresolve hread _ =>
    refine .single ⟨⟨_, ?_, hresolve⟩, _, hread⟩
    rw [importsAt_root]
    exact List.mem_of_getElem? himport
  | next _ hbrings _ ih => exact .tail ih hbrings

/-- Only an import that the root has leads anywhere. -/
theorem ReachableBy.lt_length {k : Nat} {v : Uri} (h : ReachableBy sources root k v) :
    k < root.file.imports.length := by
  induction h with
  | first himport => exact (List.getElem?_eq_some_iff.1 himport).1
  | next _ _ _ ih => exact ih

/-! ## The invariant -/

/-- The import `i` at position `q` of `f` has been followed: its target has an edge, and if it can be read it is the
root or a file that the same import of the root has led to, or an earlier one. -/
def Settled (env : Env) (s : State) (f : ScopeFile) (q : Nat) (i : Syntax.Import) : Prop :=
  ∀ v, env.sources.resolve f.uri i.target = some v →
    v ∈ s.log.graph.importsOf f.uri ∧
    ∀ text, env.sources.read v = .ok text →
      v = env.root.uri ∨ ∃ g ∈ s.others, g.uri = v ∧ ∃ j, g.via = some j ∧ j ≤ f.via.getD q

/-- What holds of every state of a walk. -/
structure Walking (env : Env) (s : State) : Prop where
  visited : ∀ v, v ∈ s.visited ↔ v ∈ (env.root :: s.others).map (·.uri)
  nodup : ((env.root :: s.others).map (·.uri)).Nodup
  loaded : ∀ f ∈ s.others, env.sources.read f.uri = .ok f.text ∧ f.file = (Syntax.parse f.text).file
  via : ∀ f ∈ s.others, ∃ k, f.via = some k ∧ ReachableBy env.sources env.root k f.uri
  frames : ∀ fr ∈ s.stack, fr.file ∈ env.root :: s.others ∧ fr.rest = fr.file.file.imports.drop fr.position
  /-- The root can only be the last frame of the stack. -/
  above : s.stack.Pairwise fun upper _ => upper.file ∈ s.others
  /-- No frame stands at an import of the root before one that has led somewhere. -/
  bound : ∀ fr ∈ s.stack, ∀ g ∈ s.others, ∀ j, g.via = some j → j ≤ fr.file.via.getD fr.position
  /-- An import that has not been followed is still to come on the stack. -/
  settled : ∀ f ∈ env.root :: s.others, ∀ q i, f.file.imports[q]? = some i →
    Settled env s f q i ∨ ∃ fr ∈ s.stack, fr.file = f ∧ fr.position ≤ q
  edges : ∀ u v, v ∈ s.log.graph.importsOf u →
    ∃ f ∈ env.root :: s.others, f.uri = u ∧ ∃ i ∈ f.file.imports, env.sources.resolve u i.target = some v
  reads : ∀ v text, env.sources.read v = .ok text → s.log.reads.count v = (s.others.map (·.uri)).count v

/-- Following goes on: what has been followed stays so while files and edges are added. -/
theorem Settled.mono {f : ScopeFile} {q : Nat} {i : Syntax.Import} (h : Settled env s f q i)
    (hedges : ∀ u v, v ∈ s.log.graph.importsOf u → v ∈ t.log.graph.importsOf u)
    (hothers : ∀ g ∈ s.others, g ∈ t.others) : Settled env t f q i := by
  intro v hv
  obtain ⟨hedge, hfile⟩ := h v hv
  refine ⟨hedges _ _ hedge, fun text hread => ?_⟩
  rcases hfile text hread with hroot | ⟨g, hg, hrest⟩
  · exact Or.inl hroot
  · exact Or.inr ⟨g, hothers g hg, hrest⟩

theorem Walking.start (root : ScopeFile) (questions : Nat) (henv : env.root = root) :
    Walking env (.start root questions) := by
  subst henv
  have hempty : ∀ u v, v ∉ (ImportGraph.empty).importsOf u := by
    intro u v
    simp [ImportGraph.importsOf, ImportGraph.empty]
  refine
    { visited := fun v => ?_
      nodup := List.pairwise_singleton _ _
      loaded := fun _ h => absurd h List.not_mem_nil
      via := fun _ h => absurd h List.not_mem_nil
      frames := fun fr h => ?_
      above := List.pairwise_singleton _ _
      bound := fun _ _ _ h => by cases h
      settled := fun f hf q i _ => ?_
      edges := fun u v h => absurd h (hempty u v)
      reads := fun _ _ _ => rfl }
  · simp only [State.start, Std.TreeSet.mem_insert, Std.TreeSet.not_mem_emptyc, or_false, List.map_cons, List.map_nil,
      List.mem_singleton, Std.LawfulEqCmp.compare_eq_iff_eq]
    exact eq_comm
  · rw [List.mem_singleton.1 h]
    exact ⟨List.mem_cons_self, rfl⟩
  · rw [List.mem_singleton.1 hf]
    exact Or.inr ⟨_, List.mem_cons_self, rfl, Nat.zero_le q⟩

/-- The imports still to come in a frame: the first one stands at the frame's position. -/
theorem Walking.next_import (h : Walking env s) {current : ScopeFile} {position : Nat} {i : Syntax.Import}
    {rest : List Syntax.Import} {below : List Frame} (hstack : s.stack = ⟨current, position, i :: rest⟩ :: below) :
    current.file.imports[position]? = some i ∧ rest = current.file.imports.drop (position + 1) := by
  have hrest := (h.frames ⟨current, position, i :: rest⟩ (hstack ▸ List.mem_cons_self)).2
  simp only at hrest
  constructor
  · have hhead := congrArg (·[0]?) hrest
    simpa using hhead.symm
  · have htail := congrArg (·.drop 1) hrest
    simpa using htail

theorem getD_le_getD_succ (via : Option Nat) (position : Nat) : via.getD position ≤ via.getD (position + 1) := by
  cases via with
  | none => exact Nat.le_succ position
  | some k => exact Nat.le_refl k

/-- A move keeps the invariant if it only takes frames away that have no import left. -/
theorem Walking.leave {current : ScopeFile} {position : Nat} {below : List Frame} {visited : Std.TreeSet Uri}
    {others : List ScopeFile} {log : Log}
    (h : Walking env ⟨⟨current, position, []⟩ :: below, visited, others, log⟩) :
    Walking env ⟨below, visited, others, log⟩ := by
  have hframe := h.frames _ List.mem_cons_self
  have hend : current.file.imports.length ≤ position := List.drop_eq_nil_iff.1 hframe.2.symm
  refine
    { visited := h.visited
      nodup := h.nodup
      loaded := h.loaded
      via := h.via
      frames := fun fr hfr => h.frames fr (List.mem_cons_of_mem _ hfr)
      above := (List.pairwise_cons.1 h.above).2
      bound := fun fr hfr => h.bound fr (List.mem_cons_of_mem _ hfr)
      settled := fun f hf q i hi => ?_
      edges := h.edges
      reads := h.reads }
  rcases h.settled f hf q i hi with hsettled | ⟨fr, hfr, hfile, hposition⟩
  · exact Or.inl hsettled
  · rcases List.mem_cons.1 hfr with rfl | hbelow
    · -- The frame that is left has no import at or behind its position.
      have hlength := (List.getElem?_eq_some_iff.1 hi).1
      subst hfile
      exact absurd (Nat.lt_of_lt_of_le hlength hend) (Nat.not_lt.2 hposition)
    · exact Or.inr ⟨fr, hbelow, hfile, hposition⟩

/-- Once the import on top has been followed, what the walk had followed or had still to follow stays so. -/
theorem Walking.settled_next (h : Walking env s) {current : ScopeFile} {position : Nat} {i : Syntax.Import}
    {rest : List Syntax.Import} {below : List Frame} (hstack : s.stack = ⟨current, position, i :: rest⟩ :: below)
    (hedges : ∀ u v, v ∈ s.log.graph.importsOf u → v ∈ t.log.graph.importsOf u)
    (hothers : ∀ g ∈ s.others, g ∈ t.others) (hframes : ∀ fr ∈ ⟨current, position + 1, rest⟩ :: below, fr ∈ t.stack)
    (hnow : Settled env t current position i) :
    ∀ f ∈ env.root :: s.others, ∀ q i', f.file.imports[q]? = some i' →
      Settled env t f q i' ∨ ∃ fr ∈ t.stack, fr.file = f ∧ fr.position ≤ q := by
  intro f hf q i' hi'
  rcases h.settled f hf q i' hi' with hsettled | ⟨fr, hfr, hfile, hposition⟩
  · exact Or.inl (hsettled.mono hedges hothers)
  · rw [hstack] at hfr
    rcases List.mem_cons.1 hfr with rfl | hbelow
    · subst hfile
      rcases Nat.eq_or_lt_of_le hposition with rfl | hlater
      · obtain rfl : i' = i := Option.some.inj (hi'.symm.trans (h.next_import hstack).1)
        exact Or.inl hnow
      · exact Or.inr ⟨_, hframes _ List.mem_cons_self, rfl, hlater⟩
    · exact Or.inr ⟨fr, hframes fr (List.mem_cons_of_mem _ hbelow), hfile, hposition⟩

theorem Walking.pass {current : ScopeFile} {position : Nat} {i : Syntax.Import} {rest : List Syntax.Import}
    {below : List Frame} {visited : Std.TreeSet Uri} {others : List ScopeFile} {log log' : Log}
    (h : Walking env ⟨⟨current, position, i :: rest⟩ :: below, visited, others, log⟩)
    (hfollow : follow env (⟨current, position + 1, rest⟩ :: below) visited current position i log = (.pass, log')) :
    Walking env ⟨⟨current, position + 1, rest⟩ :: below, visited, others, log'⟩ := by
  obtain ⟨hedges, hreads, hvisited⟩ := followed_pass hfollow
  obtain ⟨himport, hrest⟩ := h.next_import rfl
  have hcurrent : current ∈ env.root :: others := (h.frames _ List.mem_cons_self).1
  have hbound := h.bound _ List.mem_cons_self
  have hmore : ∀ u v, v ∈ log.graph.importsOf u → v ∈ log'.graph.importsOf u :=
    fun u v hv => (hedges u v).2 (Or.inl hv)
  refine
    { visited := h.visited
      nodup := h.nodup
      loaded := h.loaded
      via := h.via
      frames := fun fr hfr => ?_
      above := ?_
      bound := fun fr hfr g hg j hj => ?_
      settled := fun f hf q i' hi' => ?_
      edges := fun u v hv => ?_
      reads := fun v text hread => (hreads v text hread).trans (h.reads v text hread) }
  · rcases List.mem_cons.1 hfr with rfl | hbelow
    · exact ⟨hcurrent, hrest⟩
    · exact h.frames fr (List.mem_cons_of_mem _ hbelow)
  · rw [List.pairwise_cons]
    exact List.pairwise_cons.1 h.above
  · rcases List.mem_cons.1 hfr with rfl | hbelow
    · exact Nat.le_trans (hbound g hg j hj) (getD_le_getD_succ current.via position)
    · exact h.bound fr (List.mem_cons_of_mem _ hbelow) g hg j hj
  · -- A target that can be read is passed only if it is known, and then no later import has led to it.
    have hnow : Settled env ⟨⟨current, position + 1, rest⟩ :: below, visited, others, log'⟩ current position i := by
      refine fun v hv => ⟨(hedges _ _).2 (Or.inr ⟨rfl, hv⟩), fun text hread => ?_⟩
      have hknown := (h.visited v).1 (hvisited v text hv hread)
      rcases List.mem_cons.1 hknown with hroot | hothers
      · exact Or.inl hroot
      · obtain ⟨g, hg, rfl⟩ := List.mem_map.1 hothers
        obtain ⟨j, hj, _⟩ := h.via g hg
        exact Or.inr ⟨g, hg, rfl, j, hj, hbound g hg j hj⟩
    exact Walking.settled_next (t := ⟨_, visited, others, log'⟩) h rfl hmore (fun _ hg => hg) (fun _ hfr => hfr) hnow
      f hf q i' hi'
  · rcases (hedges u v).1 hv with hold | ⟨rfl, hresolve⟩
    · exact h.edges u v hold
    · exact ⟨current, hcurrent, rfl, i, List.mem_of_getElem? himport, hresolve⟩

/-- A file that can be read and is imported where the walk stands is reached by the import of the root that led the walk
there. -/
theorem Walking.reachableBy (hroot : env.root.via = none) (h : Walking env s) {current : ScopeFile} {position : Nat}
    {i : Syntax.Import} {target : Uri} {text : String} (hcurrent : current ∈ env.root :: s.others)
    (himport : current.file.imports[position]? = some i)
    (hresolve : env.sources.resolve current.uri i.target = some target) (hread : env.sources.read target = .ok text)
    (hne : target ≠ env.root.uri) : ReachableBy env.sources env.root (current.via.getD position) target := by
  rcases List.mem_cons.1 hcurrent with rfl | hothers
  · rw [hroot]
    exact .first himport hresolve hread hne
  · obtain ⟨k, hk, hreach⟩ := h.via current hothers
    obtain ⟨hloaded, hparse⟩ := h.loaded current hothers
    have hbrings : Brings env.sources env.root current.uri target := by
      refine ⟨⟨i, ?_, hresolve⟩, text, hread⟩
      rw [importsAt_of_read hreach.ne_root hloaded, ← hparse]
      exact List.mem_of_getElem? himport
    rw [hk]
    exact .next hreach hbrings hne

/-- No frame below the top stands at an earlier import of the root than the top does. -/
theorem Walking.via_le_below (h : Walking env s) {top : Frame} {below : List Frame} (hstack : s.stack = top :: below)
    (position : Nat) : ∀ fr ∈ below, top.file.via.getD position ≤ fr.file.via.getD fr.position := by
  intro fr hfr
  have habove := h.above
  rw [hstack, List.pairwise_cons] at habove
  have hothers : top.file ∈ s.others := habove.1 fr hfr
  obtain ⟨k, hk, _⟩ := h.via top.file hothers
  have hmem : fr ∈ s.stack := hstack ▸ List.mem_cons_of_mem _ hfr
  rw [hk]
  exact h.bound fr hmem top.file hothers k hk

theorem Walking.enter {current f : ScopeFile} {position : Nat} {i : Syntax.Import} {rest : List Syntax.Import}
    {below : List Frame} {visited : Std.TreeSet Uri} {others : List ScopeFile} {log log' : Log}
    (hroot : env.root.via = none) (h : Walking env ⟨⟨current, position, i :: rest⟩ :: below, visited, others, log⟩)
    (hfollow : follow env (⟨current, position + 1, rest⟩ :: below) visited current position i log = (.enter f, log')) :
    Walking env ⟨.enter f :: ⟨current, position + 1, rest⟩ :: below, visited.insert f.uri, f :: others, log'⟩ := by
  obtain ⟨target, text, hresolve, hnew, hread, hf, rfl⟩ := followed_enter hfollow
  have huri : f.uri = target := congrArg ScopeFile.uri hf
  have hvia : f.via = some (current.via.getD position) := congrArg ScopeFile.via hf
  subst huri
  obtain ⟨himport, hrest⟩ := h.next_import rfl
  have hcurrent : current ∈ env.root :: others := (h.frames _ List.mem_cons_self).1
  have hbound := h.bound _ List.mem_cons_self
  have hfresh : f.uri ∉ (env.root :: others).map (·.uri) := fun hmem => hnew ((h.visited f.uri).2 hmem)
  have hne : f.uri ≠ env.root.uri := fun heq => hfresh (heq ▸ List.mem_cons_self)
  have hwiden : ∀ g, g ∈ env.root :: others → g ∈ env.root :: f :: others := by
    intro g hg
    rcases List.mem_cons.1 hg with rfl | hothers
    · exact List.mem_cons_self
    · exact List.mem_cons_of_mem _ (List.mem_cons_of_mem _ hothers)
  have hmore : ∀ u v, v ∈ log.graph.importsOf u → v ∈ (log.graph.addEdge current.uri f.uri).importsOf u :=
    fun u v hv => mem_importsOf_addEdge.2 (Or.inl hv)
  refine
    { visited := fun v => ?_
      nodup := ?_
      loaded := fun g hg => ?_
      via := fun g hg => ?_
      frames := fun fr hfr => ?_
      above := ?_
      bound := fun fr hfr g hg j hj => ?_
      settled := fun g hg q i' hi' => ?_
      edges := fun u v hv => ?_
      reads := fun v text' hv => ?_ }
  · have hv := h.visited v
    simp only [List.map_cons, List.mem_cons] at hv
    simp only [Std.TreeSet.mem_insert, Std.LawfulEqCmp.compare_eq_iff_eq, List.map_cons, List.mem_cons, hv]
    rw [eq_comm (a := f.uri), or_left_comm]
  · show (env.root.uri :: f.uri :: others.map (·.uri)).Nodup
    rw [(List.Perm.swap f.uri env.root.uri _).nodup_iff, List.nodup_cons]
    exact ⟨hfresh, h.nodup⟩
  · rcases List.mem_cons.1 hg with rfl | hothers
    · rw [hf]
      exact ⟨hread, rfl⟩
    · exact h.loaded g hothers
  · rcases List.mem_cons.1 hg with rfl | hothers
    · exact ⟨_, hvia, h.reachableBy hroot hcurrent himport hresolve hread hne⟩
    · exact h.via g hothers
  · rcases List.mem_cons.1 hfr with rfl | hfr
    · exact ⟨List.mem_cons_of_mem _ List.mem_cons_self, rfl⟩
    · rcases List.mem_cons.1 hfr with rfl | hfr
      · exact ⟨hwiden _ hcurrent, hrest⟩
      · obtain ⟨hfile, hdrop⟩ := h.frames fr (List.mem_cons_of_mem _ hfr)
        exact ⟨hwiden _ hfile, hdrop⟩
  · have hold := List.pairwise_cons.1 h.above
    rw [List.pairwise_cons, List.pairwise_cons]
    exact ⟨fun _ _ => List.mem_cons_self, fun fr hfr => List.mem_cons_of_mem _ (hold.1 fr hfr),
      hold.2.imp fun hmem => List.mem_cons_of_mem _ hmem⟩
  · -- Every file found so far comes from the root import where the walk stands, or from an earlier one.
    have hsofar : j ≤ current.via.getD position := by
      rcases List.mem_cons.1 hg with rfl | hothers
      · exact Nat.le_of_eq (Option.some.inj (hj.symm.trans hvia))
      · exact hbound g hothers j hj
    rcases List.mem_cons.1 hfr with rfl | hfr
    · show j ≤ f.via.getD 0
      rw [hvia]
      exact hsofar
    · rcases List.mem_cons.1 hfr with rfl | hfr
      · exact Nat.le_trans hsofar (getD_le_getD_succ current.via position)
      · exact Nat.le_trans hsofar (h.via_le_below rfl position fr hfr)
  · -- The import that led here is followed now, and all imports of the new file are still to come.
    have hnow : Settled env ⟨.enter f :: ⟨current, position + 1, rest⟩ :: below, visited.insert f.uri, f :: others,
        (log.withEdge current.uri f.uri).withRead f.uri⟩ current position i := by
      intro v hv
      obtain rfl : f.uri = v := Option.some.inj (hresolve.symm.trans hv)
      exact ⟨mem_importsOf_addEdge.2 (Or.inr ⟨rfl, rfl⟩),
        fun _ _ => Or.inr ⟨f, List.mem_cons_self, rfl, _, hvia, Nat.le_refl _⟩⟩
    have hold := h.settled_next rfl hmore (fun _ hg => List.mem_cons_of_mem _ hg)
      (fun _ hfr => List.mem_cons_of_mem _ hfr) hnow
    rcases List.mem_cons.1 hg with rfl | hg
    · exact hold _ List.mem_cons_self q i' hi'
    · rcases List.mem_cons.1 hg with rfl | hg
      · exact Or.inr ⟨_, List.mem_cons_self, rfl, Nat.zero_le q⟩
      · exact hold g (List.mem_cons_of_mem _ hg) q i' hi'
  · rcases mem_importsOf_addEdge.1 hv with hold | ⟨rfl, rfl⟩
    · obtain ⟨g, hg, hrest⟩ := h.edges u v hold
      exact ⟨g, hwiden g hg, hrest⟩
    · exact ⟨current, hwiden _ hcurrent, rfl, i, List.mem_of_getElem? himport, hresolve⟩
  · show List.count v (f.uri :: log.reads) = List.count v (f.uri :: others.map (·.uri))
    rw [List.count_cons, List.count_cons]
    exact congrArg (· + _) (h.reads v text' hv)

theorem Walking.step (hroot : env.root.via = none) (h : Walking env s) (hstep : Moves env s t) : Walking env t := by
  cases hstep with
  | leave => exact h.leave
  | pass hfollow => exact h.pass hfollow
  | enter hfollow => exact h.enter hroot hfollow

theorem Walking.run (hroot : env.root.via = none) (h : Walking env s) (hrun : ReflTransGen (Moves env) s t) :
    Walking env t := by
  induction hrun with
  | refl => exact h
  | tail _ hstep ih => exact ih.step hroot hstep

/-! ## What a walk has passed -/

/-- What the stack has passed has been followed. -/
theorem Walking.settled_past (h : Walking env s) {f : ScopeFile} {q : Nat} {i : Syntax.Import}
    (hf : f ∈ env.root :: s.others) (hi : f.file.imports[q]? = some i)
    (hpast : ∀ fr ∈ s.stack, fr.file = f → q < fr.position) : Settled env s f q i := by
  rcases h.settled f hf q i hi with hsettled | ⟨fr, hfr, hfile, hposition⟩
  · exact hsettled
  · exact absurd (hpast fr hfr hfile) (Nat.not_lt.2 hposition)

/-- The imports of a file that the walk has found. -/
theorem Walking.importsAt_eq (h : Walking env s) {f : ScopeFile} (hf : f ∈ env.root :: s.others) :
    importsAt env.sources env.root f.uri = f.file.imports := by
  rcases List.mem_cons.1 hf with rfl | hothers
  · exact importsAt_root
  · obtain ⟨_, _, hreach⟩ := h.via f hothers
    obtain ⟨hread, hparse⟩ := h.loaded f hothers
    rw [importsAt_of_read hreach.ne_root hread, ← hparse]

/-- What a file brings that is not on the stack has been found too, from the same import of the root or from an earlier
one. -/
theorem Walking.closed (h : Walking env s) {f : ScopeFile} {v : Uri} (hf : f ∈ env.root :: s.others)
    (hleft : ∀ fr ∈ s.stack, fr.file ≠ f) (hv : Brings env.sources env.root f.uri v) (hne : v ≠ env.root.uri) :
    ∃ g ∈ s.others, g.uri = v ∧ ∀ k, f.via = some k → ∃ j, g.via = some j ∧ j ≤ k := by
  obtain ⟨⟨i, hi, hresolve⟩, text, hread⟩ := hv
  rw [h.importsAt_eq hf] at hi
  obtain ⟨q, hq⟩ := List.getElem?_of_mem hi
  have hsettled := h.settled_past hf hq fun fr hfr hfile => absurd hfile (hleft fr hfr)
  rcases (hsettled v hresolve).2 text hread with hroot | ⟨g, hg, huri, j, hj, hle⟩
  · exact absurd hroot hne
  · refine ⟨g, hg, huri, fun k hk => ⟨j, hj, ?_⟩⟩
    rw [hk] at hle
    exact hle

/-- Every file that an import of the root leads to has been found from there or from an earlier import, once the walk is
back at the root behind this import. -/
theorem Walking.found (hroot : env.root.via = none) (h : Walking env s) {k : Nat} {v : Uri}
    (hpast : ∀ fr ∈ s.stack, fr.file = env.root ∧ k < fr.position) (hv : ReachableBy env.sources env.root k v) :
    ∃ g ∈ s.others, g.uri = v ∧ ∃ j, g.via = some j ∧ j ≤ k := by
  induction hv with
  | first himport hresolve hread hne =>
    have hsettled := h.settled_past List.mem_cons_self himport fun fr hfr _ => (hpast fr hfr).2
    rcases (hsettled _ hresolve).2 _ hread with heq | hfound
    · exact absurd heq hne
    · rw [hroot] at hfound
      exact hfound
  | next _ hbrings hne ih =>
    obtain ⟨f, hf, rfl, i, hi, hle⟩ := ih
    have hleft : ∀ fr ∈ s.stack, fr.file ≠ f := by
      rintro fr hfr rfl
      rw [(hpast fr hfr).1, hroot] at hi
      cases hi
    obtain ⟨g, hg, huri, hvia⟩ := h.closed (List.mem_cons_of_mem _ hf) hleft hbrings hne
    obtain ⟨j, hj, hji⟩ := hvia i hi
    exact ⟨g, hg, huri, j, hj, Nat.le_trans hji hle⟩

/-! ## Ends -/

/-- At an end no file is on the stack. -/
theorem no_frame (hend : s.stack = []) {P : Frame → Prop} : ∀ fr ∈ s.stack, P fr := by
  rw [hend]
  exact fun _ hfr => absurd hfr List.not_mem_nil

/-- At an end the files are those that can be reached. -/
theorem Walking.mem_files (h : Walking env s) (hend : s.stack = []) (v : Uri) :
    (∃ f ∈ env.root :: s.others, f.uri = v) ↔ Reachable env.sources env.root v := by
  constructor
  · rintro ⟨f, hf, rfl⟩
    rcases List.mem_cons.1 hf with rfl | hothers
    · exact .refl
    · obtain ⟨_, _, hreach⟩ := h.via f hothers
      exact hreach.reachable
  · intro hv
    induction hv with
    | refl => exact ⟨env.root, List.mem_cons_self, rfl⟩
    | @tail u w _ hbrings ih =>
      obtain ⟨f, hf, rfl⟩ := ih
      by_cases hne : w = env.root.uri
      · exact ⟨env.root, List.mem_cons_self, hne.symm⟩
      · obtain ⟨g, hg, huri, _⟩ := h.closed hf (no_frame hend) hbrings hne
        exact ⟨g, List.mem_cons_of_mem _ hg, huri⟩

/-! ## Complete walks -/

/-- What a walk yields when it has followed all imports: the files that can be reached, each once and each read once and
with the first import of the root that leads to it, and the edges from these files to the targets of their imports. -/
structure Complete (sources : Sources) (root : ScopeFile) (w : Walked) : Prop where
  finished : w.finished = true
  files : ∀ v, (∃ f ∈ (w.scope root).files, f.uri = v) ↔ Reachable sources root v
  nodup : ((w.scope root).files.map (·.uri)).Nodup
  loaded : ∀ f ∈ (w.scope root).others, sources.read f.uri = .ok f.text ∧ f.file = (Syntax.parse f.text).file
  readOnce : ∀ f ∈ (w.scope root).others, w.log.reads.count f.uri = 1
  via : ∀ f ∈ (w.scope root).others, ∃ k, f.via = some k ∧
    ReachableBy sources root k f.uri ∧ ∀ j, ReachableBy sources root j f.uri → k ≤ j
  edges : ∀ u v, v ∈ (w.scope root).graph.importsOf u ↔
    ∃ f ∈ (w.scope root).files, f.uri = u ∧ ∃ i ∈ f.file.imports, sources.resolve u i.target = some v

theorem Walked.mem_others {w : Walked} {f : ScopeFile} : f ∈ (w.scope root).others ↔ f ∈ w.others :=
  List.mem_reverse

theorem Walked.mem_files {w : Walked} {f : ScopeFile} : f ∈ (w.scope root).files ↔ f ∈ root :: w.others := by
  rw [Scope.files, List.mem_cons, List.mem_cons, Walked.mem_others]
  exact Iff.rfl

theorem Walking.complete (hroot : env.root.via = none) (h : Walking env s) (hend : s.stack = []) :
    Complete env.sources env.root ⟨true, s.others, s.log⟩ := by
  have hnodup : (s.others.map (·.uri)).Nodup := (List.nodup_cons.1 h.nodup).2
  refine
    { finished := rfl
      files := fun v => ?_
      nodup := ?_
      loaded := fun f hf => h.loaded f (Walked.mem_others.1 hf)
      readOnce := fun f hf => ?_
      via := fun f hf => ?_
      edges := fun u v => ?_ }
  · simp only [Walked.mem_files]
    exact h.mem_files hend v
  · show (env.root.uri :: s.others.reverse.map (·.uri)).Nodup
    rw [List.map_reverse, ((List.reverse_perm _).cons _).nodup_iff]
    exact h.nodup
  · have hothers := Walked.mem_others.1 hf
    exact (h.reads f.uri f.text (h.loaded f hothers).1).trans
      (hnodup.count.trans (if_pos (List.mem_map_of_mem hothers)))
  · have hothers := Walked.mem_others.1 hf
    obtain ⟨k, hk, hreach⟩ := h.via f hothers
    refine ⟨k, hk, hreach, fun j hj => ?_⟩
    obtain ⟨g, hg, huri, i, hi, hle⟩ := h.found hroot (no_frame hend) hj
    obtain rfl : g = f := List.inj_on_of_nodup_map hnodup hg hothers huri
    rw [Option.some.inj (hk.symm.trans hi)]
    exact hle
  · simp only [Walked.mem_files]
    constructor
    · exact h.edges u v
    · rintro ⟨f, hf, rfl, i, hi, hresolve⟩
      obtain ⟨q, hq⟩ := List.getElem?_of_mem hi
      exact (h.settled_past hf hq (no_frame hend) v hresolve).1

/-- The capacity of the sources does not matter to a single move. -/
theorem Moves.of_capacity {cancelled : Nat → Bool} {capacity : Nat}
    (h : Moves ⟨{ sources with capacity }, cancelled, root⟩ s t) : Moves ⟨sources, cancelled, root⟩ s t := by
  cases h with
  | leave => exact .leave
  | pass hfollow => exact .pass hfollow
  | enter hfollow => exact .enter hfollow

/-- Whatever its capacity, what a walk has found when it stops obeys the invariant and is reached by moves. -/
theorem walkFrom_runs (sources : Sources) (root : ScopeFile) (hroot : root.via = none) (questions : Nat) :
    ∃ t, ReflTransGen (MovesWithin ⟨sources, fun _ => false, root⟩ (sources.capacity + 1)) (.start root questions) t ∧
      Stopped (sources.capacity + 1) t ∧ Walking ⟨sources, fun _ => false, root⟩ t ∧
      walkFrom sources (fun _ => false) root questions = ⟨true, t.others, t.log⟩ := by
  obtain ⟨t, hrun, ⟨hstop, hwalk⟩ | ⟨_, hinterrupts, _⟩⟩ := walkFrom_run sources (fun _ => false) root questions
  · exact ⟨t, hrun, hstop, (Walking.start root questions rfl).run hroot (run_moves hrun), hwalk⟩
  · exact absurd hinterrupts.cancelled Bool.false_ne_true

/-- A walk finds at most the files that are served. -/
theorem Walking.length_others_le (h : Walking env s) {served : List Uri}
    (hserved : ∀ u text, env.sources.read u = .ok text → u ∈ served) : s.others.length ≤ served.length := by
  have hsub : s.others.map (·.uri) ⊆ served := by
    intro u hu
    obtain ⟨f, hf, rfl⟩ := List.mem_map.1 hu
    exact hserved f.uri f.text (h.loaded f hf).1
  have hle := ((List.nodup_cons.1 h.nodup).2.subperm hsub).length_le
  rwa [List.length_map] at hle

/-- **A walk over finitely many files is complete.** A run of moves from any root comes to its end. There it is
complete, and that is what `walkFrom` returns with any capacity that is not smaller than the number of files. -/
theorem walk_complete (sources : Sources) (served : List Uri)
    (hserved : ∀ u text, sources.read u = .ok text → u ∈ served) (uri : Uri) (text : String) (file : Syntax.File)
    (questions : Nat) :
    ∃ t, ReflTransGen (Moves ⟨sources, fun _ => false, .root uri text file⟩)
        (.start (.root uri text file) questions) t ∧ t.stack = [] ∧
      (∀ capacity, served.length ≤ capacity →
        walkFrom { sources with capacity } (fun _ => false) (.root uri text file) questions =
          ⟨true, t.others, t.log⟩) ∧
      Complete sources (.root uri text file) ⟨true, t.others, t.log⟩ := by
  have hcapacity : ∀ capacity, served.length ≤ capacity →
      ∃ t, ReflTransGen (Moves ⟨sources, fun _ => false, .root uri text file⟩)
          (.start (.root uri text file) questions) t ∧ t.stack = [] ∧
        walkFrom { sources with capacity } (fun _ => false) (.root uri text file) questions =
          ⟨true, t.others, t.log⟩ := by
    intro capacity hle
    obtain ⟨t, hrun, hstop, hwalking, hwalk⟩ :=
      walkFrom_runs { sources with capacity } (.root uri text file) rfl questions
    refine ⟨t, (run_moves hrun).lift id fun _ _ h => Moves.of_capacity h, ?_, hwalk⟩
    rcases hstop with hend | hlength
    · exact hend
    · have hbound := hwalking.length_others_le hserved
      have hroom : t.others.length = capacity + 1 := hlength
      omega
  obtain ⟨t, hrun, hend, _⟩ := hcapacity served.length (Nat.le_refl _)
  refine ⟨t, hrun, hend, fun capacity hle => ?_,
    ((Walking.start (.root uri text file) questions rfl).run rfl hrun).complete rfl hend⟩
  obtain ⟨t', hrun', hend', hwalk⟩ := hcapacity capacity hle
  rw [hwalk, end_unique hrun' hrun hend' hend]

/-- A single file that imports itself and a document elsewhere. -/
def selfImporting : Sources where
  read u := if u = ⟨"file:///lib.lg"⟩ then .ok "[lib](lib.lg)\n[main](main.lg)\n# B\n- b" else .error (.notFound u)

/-- A cycle through the root, a cycle beside it and a file that is missing do not keep a walk from its end. -/
theorem walk_complete_selfImporting :
    (∀ u text, selfImporting.read u = .ok text → u ∈ [(⟨"file:///lib.lg"⟩ : Uri)]) ∧
    ∃ t, ReflTransGen (Moves ⟨selfImporting, fun _ => false, .root ⟨"file:///main.lg"⟩ ""
          (Syntax.parse "[missing](missing.lg)\n[lib](lib.lg)\n# A\n- a").file⟩)
        (.start (.root ⟨"file:///main.lg"⟩ ""
          (Syntax.parse "[missing](missing.lg)\n[lib](lib.lg)\n# A\n- a").file) 0) t ∧ t.stack = [] ∧
      (∀ capacity, 1 ≤ capacity →
        walkFrom { selfImporting with capacity } (fun _ => false) (.root ⟨"file:///main.lg"⟩ ""
          (Syntax.parse "[missing](missing.lg)\n[lib](lib.lg)\n# A\n- a").file) 0 = ⟨true, t.others, t.log⟩) ∧
      Complete selfImporting (.root ⟨"file:///main.lg"⟩ ""
          (Syntax.parse "[missing](missing.lg)\n[lib](lib.lg)\n# A\n- a").file) ⟨true, t.others, t.log⟩ := by
  have hserved : ∀ u text, selfImporting.read u = .ok text → u ∈ [(⟨"file:///lib.lg"⟩ : Uri)] := by
    intro u text hread
    by_cases hu : u = ⟨"file:///lib.lg"⟩
    · exact List.mem_singleton.2 hu
    · simp [selfImporting, hu] at hread
  exact ⟨hserved, walk_complete selfImporting _ hserved _ _ _ 0⟩

end LgLang.Import
