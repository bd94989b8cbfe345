import LgLang.Proofs.Import.Reach

/-!
# Where a walk reports

What goes wrong on a walk is reported on an import of the root, and explained by the import at which the walk stands: one
that the file there has. The invariant of the walk tells that both are imports of files that the walk has found
(`run_points`).
-/

namespace LgLang.Import

open Relation (ReflTransGen)

variable {env : Env} {s t : State}

/-- The finding is placed on an import of the root, and explained by imports of the files. -/
structure Points (root : ScopeFile) (files : List ScopeFile) (d : Diagnostic) : Prop where
  span : ∃ i ∈ root.file.imports, d.span = i.span
  related : ∀ r ∈ d.related, ∃ f ∈ files, r.uri = f.uri ∧ ∃ i ∈ f.file.imports, r.span = i.span

theorem Points.mono {root : ScopeFile} {files files' : List ScopeFile} {d : Diagnostic} (h : Points root files d)
    (hfiles : files ⊆ files') : Points root files' d := by
  refine ⟨h.span, fun r hr => ?_⟩
  obtain ⟨f, hf, hrelated⟩ := h.related r hr
  exact ⟨f, hfiles hf, hrelated⟩

theorem rootSpan_of_lt {via : Nat} (h : via < env.root.file.imports.length) :
    ∃ i ∈ env.root.file.imports, env.rootSpan via = i.span := by
  refine ⟨_, List.getElem_mem h, ?_⟩
  unfold Env.rootSpan
  rw [List.getElem?_eq_getElem h]
  rfl

theorem failureDiagnostic_points {via : Nat} (hvia : via < env.root.file.imports.length) {files : List ScopeFile}
    {current : ScopeFile} (hcurrent : current ∈ files) {i : Syntax.Import} (hi : i ∈ current.file.imports) (f : Failure) :
    Points env.root files (failureDiagnostic env via current i f) := by
  unfold failureDiagnostic
  split
  · exact ⟨rootSpan_of_lt hvia, fun r hr => absurd hr List.not_mem_nil⟩
  · exact ⟨rootSpan_of_lt hvia, List.forall_mem_singleton.2 ⟨current, hcurrent, rfl, i, hi, rfl⟩⟩

theorem cycleDiagnostic_points {via : Nat} (hvia : via < env.root.file.imports.length) {files : List ScopeFile}
    {current : ScopeFile} (hcurrent : current ∈ files) {i : Syntax.Import} (hi : i ∈ current.file.imports)
    (path : List Uri) (target : Uri) : Points env.root files (cycleDiagnostic env via current i path target) :=
  ⟨rootSpan_of_lt hvia, List.forall_mem_singleton.2 ⟨current, hcurrent, rfl, i, hi, rfl⟩⟩

/-- Following an import reports only on the import of the root that led there. -/
theorem followed_points {stack : List Frame} {visited : Std.TreeSet Uri} {current : ScopeFile} {position : Nat}
    {i : Syntax.Import} {log log' : Log} {step : Step} {files : List ScopeFile}
    (h : follow env stack visited current position i log = (step, log'))
    (hvia : current.via.getD position < env.root.file.imports.length) (hcurrent : current ∈ files)
    (hi : i ∈ current.file.imports) (hlog : ∀ d ∈ log.diagnostics, Points env.root files d) :
    ∀ d ∈ log'.diagnostics, Points env.root files d := by
  cases followed_of_eq h with
  | unresolvable _ => exact List.forall_mem_cons.2 ⟨failureDiagnostic_points hvia hcurrent hi _, hlog⟩
  | cycle _ _ _ => exact List.forall_mem_cons.2 ⟨cycleDiagnostic_points hvia hcurrent hi _ _, hlog⟩
  | known _ _ _ => exact hlog
  | cancelled _ _ _ => exact hlog
  | failed _ _ _ => exact List.forall_mem_cons.2 ⟨failureDiagnostic_points hvia hcurrent hi _, hlog⟩
  | entered _ _ _ => exact hlog

/-- The walk stands at an import of a file that it has found, and an import of the root has led it there. -/
theorem Walking.at_import (hroot : env.root.via = none) (h : Walking env s) {current : ScopeFile} {position : Nat}
    {i : Syntax.Import} {rest : List Syntax.Import} {below : List Frame}
    (hstack : s.stack = ⟨current, position, i :: rest⟩ :: below) :
    current ∈ env.root :: s.others ∧ i ∈ current.file.imports ∧
      current.via.getD position < env.root.file.imports.length := by
  have hcurrent : current ∈ env.root :: s.others :=
    (h.frames ⟨current, position, i :: rest⟩ (hstack ▸ List.mem_cons_self)).1
  obtain ⟨himport, -⟩ := h.next_import hstack
  refine ⟨hcurrent, List.mem_of_getElem? himport, ?_⟩
  rcases List.mem_cons.1 hcurrent with rfl | hothers
  · rw [hroot]
    exact (List.getElem?_eq_some_iff.1 himport).1
  · obtain ⟨k, hk, hreach⟩ := h.via current hothers
    rw [hk]
    exact hreach.lt_length

theorem Moves.points (hroot : env.root.via = none) (hwalking : Walking env s) (h : Moves env s t)
    (hs : ∀ d ∈ s.log.diagnostics, Points env.root (env.root :: s.others) d) :
    ∀ d ∈ t.log.diagnostics, Points env.root (env.root :: t.others) d := by
  cases h with
  | leave => exact hs
  | pass hfollow =>
    obtain ⟨hcurrent, hi, hvia⟩ := hwalking.at_import hroot rfl
    exact followed_points hfollow hvia hcurrent hi hs
  | enter hfollow =>
    obtain ⟨hcurrent, hi, hvia⟩ := hwalking.at_import hroot rfl
    have hbehind := followed_points hfollow hvia hcurrent hi hs
    exact fun d hd => (hbehind d hd).mono (List.cons_subset_cons _ (List.subset_cons_self _ _))

/-- **All that a walk reports is on imports of the root, and explained by imports of the files it has found.** -/
theorem run_points {root : ScopeFile} {questions : Nat} (henv : env.root = root) (hroot : root.via = none)
    (h : ReflTransGen (Moves env) (.start root questions) t) :
    ∀ d ∈ t.log.diagnostics, Points env.root (env.root :: t.others) d := by
  subst henv
  induction h with
  | refl => exact fun d hd => absurd hd List.not_mem_nil
  | tail hrun hstep ih => exact hstep.points hroot ((Walking.start env.root questions rfl).run hroot hrun) ih

end LgLang.Import
