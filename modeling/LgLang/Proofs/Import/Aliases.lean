import LgLang.Proofs.Import.Reach

/-!
# Aliases of found files

A walk gives a file the alias of an import only where this import loads the file. Which import that is depends on the
order of the imports: every file is loaded by way of the first import of the root that leads to it. So a file has an
alias exactly when this first import names the file itself and carries the alias (`qualifier_eq_some_iff`); an import
under an alias that comes later finds the file without it.

The invariant `Orderly` says what a walk remembers of this order. It holds of every state of a run, so that nothing
here supposes that the walk has come to its end.
-/

namespace LgLang.Import

open Relation (ReflTransGen)

variable {env : Env} {sources : Sources} {root : ScopeFile} {s t : State} {a : String}

/-- Of the imports of the root that lead to `v`, the first one names `v` itself and carries the alias `a`. -/
def FirstUnder (sources : Sources) (root : ScopeFile) (a : String) (v : Uri) : Prop :=
  ∃ k i, root.file.imports[k]? = some i ∧ sources.resolve root.uri i.target = some v ∧ i.qualifier = some a ∧
    ∀ j < k, ¬ ReachableBy sources root j v

/-- What a walk keeps of the order in which it finds files. -/
structure Orderly (env : Env) (s : State) : Prop where
  /-- The file that an import of the root names is the first one it leads to, and the only one to have its alias. -/
  named : ∀ f ∈ s.others, ∃ k i v, f.via = some k ∧ env.root.file.imports[k]? = some i ∧
    env.sources.resolve env.root.uri i.target = some v ∧ (∃ g ∈ s.others, g.uri = v) ∧
    f.qualifier = if f.uri = v then i.qualifier else none
  /-- Once an import of the root has led to a file, all that earlier imports lead to has been found. -/
  earlier : ∀ f ∈ s.others, ∀ k, f.via = some k → ∀ j < k, ∀ v, ReachableBy env.sources env.root j v →
    ∃ g ∈ s.others, g.uri = v ∧ ∃ i, g.via = some i ∧ i ≤ j

theorem Orderly.start (root : ScopeFile) (questions : Nat) : Orderly env (.start root questions) where
  named _ hf := absurd hf List.not_mem_nil
  earlier _ hf := absurd hf List.not_mem_nil

/-- The root is the last frame of the stack. -/
theorem Walking.below_root (h : Walking env s) {top : Frame} {below : List Frame} (hstack : s.stack = top :: below)
    (htop : top.file = env.root) : below = [] := by
  have habove := h.above
  rw [hstack, List.pairwise_cons, htop] at habove
  rw [List.eq_nil_iff_forall_not_mem]
  intro fr hfr
  have hmem := List.mem_map_of_mem (f := ScopeFile.uri) (habove.1 fr hfr)
  exact (List.nodup_cons.1 h.nodup).1 hmem

/-- A new file follows those that were found before it. -/
theorem Orderly.enter {current f : ScopeFile} {position : Nat} {i : Syntax.Import} {rest : List Syntax.Import}
    {below : List Frame} {visited : Std.TreeSet Uri} {others : List ScopeFile} {log log' : Log}
    (hroot : env.root.via = none) (hw : Walking env ⟨⟨current, position, i :: rest⟩ :: below, visited, others, log⟩)
    (h : Orderly env ⟨⟨current, position, i :: rest⟩ :: below, visited, others, log⟩)
    (hfollow : follow env (⟨current, position + 1, rest⟩ :: below) visited current position i log = (.enter f, log')) :
    Orderly env ⟨.enter f :: ⟨current, position + 1, rest⟩ :: below, visited.insert f.uri, f :: others, log'⟩ := by
  obtain ⟨target, text, hresolve, hnew, _, hf, _⟩ := followed_enter hfollow
  have huri : f.uri = target := congrArg ScopeFile.uri hf
  have hvia : f.via = some (current.via.getD position) := congrArg ScopeFile.via hf
  have hqualifier : f.qualifier = if current.isRoot then i.qualifier else none := congrArg ScopeFile.qualifier hf
  have hwiden : ∀ {P : ScopeFile → Prop}, (∃ g ∈ others, P g) → ∃ g ∈ f :: others, P g :=
    fun ⟨g, hg, hP⟩ => ⟨g, List.mem_cons_of_mem _ hg, hP⟩
  rcases List.mem_cons.1 (hw.frames _ List.mem_cons_self).1 with hcurrent | hcurrent
  · -- The root imports the file itself. All that its earlier imports lead to has been found by now.
    have hcurrent : current = env.root := hcurrent
    subst hcurrent
    obtain rfl : below = [] := hw.below_root rfl rfl
    rw [hroot] at hvia
    refine ⟨fun g hg => ?_, fun g hg k hk j hj v hv => hwiden ?_⟩
    · rcases List.mem_cons.1 hg with rfl | hg
      · refine ⟨position, i, target, hvia, (hw.next_import rfl).1, hresolve, ⟨g, List.mem_cons_self, huri⟩, ?_⟩
        rw [if_pos huri, hqualifier, ScopeFile.isRoot, hroot]
        rfl
      · obtain ⟨k, i', v, hk, himport, hv, hfound, hq⟩ := h.named g hg
        exact ⟨k, i', v, hk, himport, hv, hwiden hfound, hq⟩
    · rcases List.mem_cons.1 hg with rfl | hg
      · obtain rfl : position = k := Option.some.inj (hvia.symm.trans hk)
        refine hw.found hroot (fun fr hfr => ?_) hv
        rw [List.mem_singleton.1 hfr]
        exact ⟨rfl, hj⟩
      · exact h.earlier g hg k hk j hj v hv
  · -- The file is imported by one that was found before, and that file knows where it came from.
    obtain ⟨k, i', v, hk, himport, hv, hfound, _⟩ := h.named current hcurrent
    rw [hk] at hvia
    refine ⟨fun g hg => ?_, fun g hg k' hk' j hj w hw' => hwiden ?_⟩
    · rcases List.mem_cons.1 hg with rfl | hg
      · refine ⟨k, i', v, hvia, himport, hv, hwiden hfound, ?_⟩
        have hne : g.uri ≠ v := by
          rintro rfl
          obtain ⟨g', hg', huri'⟩ := hfound
          have hmem : g'.uri ∈ (env.root :: others).map (·.uri) :=
            List.mem_cons_of_mem _ (List.mem_map_of_mem hg')
          rw [huri', huri] at hmem
          exact hnew ((hw.visited _).2 hmem)
        rw [if_neg hne, hqualifier, ScopeFile.isRoot, hk]
        rfl
      · obtain ⟨k', i'', v', hk', himport', hv', hfound', hq⟩ := h.named g hg
        exact ⟨k', i'', v', hk', himport', hv', hwiden hfound', hq⟩
    · rcases List.mem_cons.1 hg with rfl | hg
      · obtain rfl : k = k' := Option.some.inj (hvia.symm.trans hk')
        exact h.earlier current hcurrent k hk j hj w hw'
      · exact h.earlier g hg k' hk' j hj w hw'

theorem Orderly.step (hroot : env.root.via = none) (hw : Walking env s) (h : Orderly env s) (hstep : Moves env s t) :
    Orderly env t := by
  cases hstep with
  | leave => exact ⟨h.named, h.earlier⟩
  | pass _ => exact ⟨h.named, h.earlier⟩
  | enter hfollow => exact h.enter hroot hw hfollow

theorem Orderly.run (hroot : env.root.via = none) (hw : Walking env s) (h : Orderly env s)
    (hrun : ReflTransGen (Moves env) s t) : Orderly env t := by
  induction hrun with
  | refl => exact h
  | tail hbefore hstep ih => exact ih.step hroot (hw.run hroot hbefore) hstep

/-- The import noted for a file is the first one that leads to it. -/
theorem Orderly.via_le (hw : Walking env s) (h : Orderly env s) {f : ScopeFile} (hf : f ∈ s.others) {j k : Nat}
    (hk : f.via = some k) (hj : ReachableBy env.sources env.root j f.uri) : k ≤ j := by
  refine Nat.not_lt.1 fun hlt => ?_
  obtain ⟨g, hg, huri, i, hi, hle⟩ := h.earlier f hf k hk j hlt f.uri hj
  obtain rfl : g = f := List.inj_on_of_nodup_map (List.nodup_cons.1 hw.nodup).2 hg hf huri
  have hki : k = i := Option.some.inj (hk.symm.trans hi)
  omega

theorem Orderly.qualifier_iff (hw : Walking env s) (h : Orderly env s) {f : ScopeFile} (hf : f ∈ s.others) :
    f.qualifier = some a ↔ FirstUnder env.sources env.root a f.uri := by
  obtain ⟨k, i, v, hk, himport, hresolve, _, hqualifier⟩ := h.named f hf
  constructor
  · intro ha
    rw [hqualifier] at ha
    by_cases huri : f.uri = v
    · rw [if_pos huri] at ha
      exact ⟨k, i, himport, huri ▸ hresolve, ha, fun j hj hreach => Nat.not_le.2 hj (h.via_le hw hf hk hreach)⟩
    · rw [if_neg huri] at ha
      cases ha
  · rintro ⟨k', i', himport', hresolve', ha, hfirst⟩
    obtain ⟨_, hk', hreach⟩ := hw.via f hf
    obtain rfl := Option.some.inj (hk.symm.trans hk')
    -- The import `k'` leads to the file and none before it does, so that it is the one noted for the file.
    have hle : k' ≤ k := Nat.not_lt.1 fun hlt => hfirst k hlt hreach
    have hge : k ≤ k' := h.via_le hw hf hk (.first himport' hresolve' (hw.loaded f hf).1 hreach.ne_root)
    obtain rfl := Nat.le_antisymm hge hle
    obtain rfl := Option.some.inj (himport.symm.trans himport')
    obtain rfl := Option.some.inj (hresolve.symm.trans hresolve')
    rw [hqualifier, if_pos rfl, ha]

/-- **A found file has an alias exactly when the first import of the root that leads to it names the file itself under
this alias.** -/
theorem qualifier_eq_some_iff (sources : Sources) (hroot : root.via = none) (questions : Nat) {f : ScopeFile}
    (hf : f ∈ (walkFrom sources (fun _ => false) root questions).others) :
    f.qualifier = some a ↔ FirstUnder sources root a f.uri := by
  obtain ⟨t, hrun, _, hw, hwalk⟩ := walkFrom_runs sources root hroot questions
  have horderly : Orderly ⟨sources, fun _ => false, root⟩ t :=
    (Orderly.start root questions).run hroot (Walking.start root questions rfl) (run_moves hrun)
  rw [hwalk] at hf
  exact horderly.qualifier_iff hw hf

end LgLang.Import
