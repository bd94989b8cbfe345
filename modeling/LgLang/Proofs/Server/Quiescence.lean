import LgLang.Expression.Scan
import LgLang.Function.Builtin
import LgLang.Proofs.Server.Steps

/-!
# What is published when no job is left

When no job is pending, the client should have been sent, for each open document, the findings of the analysis that
would be made now. Steps of jobs and notices of the client may have come in any order. `published_iff` says for which
documents this holds: what was sent is made of the last result that was accepted, and this is the wrong one only for a
document that was overlooked.
-/

namespace LgLang.Scene

open Import (answer)
open Workspace (Document Job Jobs)

variable {sc : Scene} {u v : Uri} {document : Document} {b : Basis}

/-- The findings of an analysis as they are sent. -/
def notices (sc : Scene) (a : Analysis) : List Editor.Notice :=
  Editor.Notice.ofAnalysis sc.workspace.config a

/-- Something has happened to a document for which it was not analyzed again, and the last accepted result was made of
`b`. Either the document was opened again under an older version, for which no result is accepted; or a document that
could not be read gives another answer now; or a document that was asked for changed before the result was committed.
-/
def Overlooked (sc : Scene) (u : Uri) (document : Document) (b : Basis) : Prop :=
  ∃ s r, sc.document? u = some document ∧ sc.kept? u = some s ∧ sc.basis s.tag.sequence = some b ∧
    sc.committed s.tag.sequence = some r ∧
    (document.version < s.tag.version ∨
      (∃ v ∈ b.reads sc.surroundings u, b.Fails v ∧ answer sc.read v ≠ answer b.read v) ∨
      ∃ v ∈ b.reads sc.surroundings u, answer r v ≠ answer b.read v)

theorem not_live_of_pendingCount {js : Jobs} (h : js.Sound) (hpending : js.pendingCount = 0) (j : Job) :
    ¬ js.Live j := by
  intro hj
  have hget := (h.pending j.uri j.sequence).2 ⟨j, hj, rfl, rfl⟩
  have hempty : js.pending.isEmpty = true := by
    rw [Std.TreeMap.isEmpty_eq_size_eq_zero]
    exact beq_iff_eq.2 hpending
  rw [Std.TreeMap.get?_eq_getElem?, Std.TreeMap.getElem?_of_isEmpty hempty] at hget
  cases hget

/-- A settled document that was not overlooked has the result that would be found now. -/
theorem Settled.agrees (hsc : sc.Sound) (h : sc.Settled u document) (hdocument : sc.document? u = some document)
    (hseen : ∀ b, ¬ sc.Overlooked u document b) :
    ∃ s b, sc.kept? u = some s ∧ sc.basis s.tag.sequence = some b ∧ sc.Agrees b u document.content := by
  obtain ⟨s, b, r, hs, hb, hr, hversion, hsame⟩ := h
  have hnot : ¬ (document.version < s.tag.version ∨
      (∃ v ∈ b.reads sc.surroundings u, b.Fails v ∧ answer sc.read v ≠ answer b.read v) ∨
      ∃ v ∈ b.reads sc.surroundings u, answer r v ≠ answer b.read v) :=
    fun hwhy => hseen b ⟨s, r, hdocument, hs, hb, hr, hwhy⟩
  obtain ⟨hlower, hfailed, hchanged⟩ : ¬ document.version < s.tag.version ∧
      ¬ (∃ v ∈ b.reads sc.surroundings u, b.Fails v ∧ answer sc.read v ≠ answer b.read v) ∧
      ¬ ∃ v ∈ b.reads sc.surroundings u, answer r v ≠ answer b.read v := by
    simpa only [not_or] using hnot
  obtain ⟨htext, hreads⟩ := hsame (Int.le_antisymm (Int.not_lt.1 hlower) hversion)
  refine ⟨s, b, hs, hb, htext, fun v hv => ?_⟩
  by_cases hread : ∃ text, b.read v = .ok text
  · -- A dependency says what it said at the commit.
    obtain ⟨text, hread⟩ := hread
    have hnow : answer sc.read v = answer r v := by
      unfold answer
      rw [hreads v ((hsc.kept u s hs).mem_dependencies_of_read hb hv hread)]
    rw [hnow]
    by_contra hne
    exact hchanged ⟨v, hv, Ne.symm hne⟩
  · by_contra hne
    exact hfailed ⟨v, hv, fun text htext => hread ⟨text, htext⟩, Ne.symm hne⟩

/-- What was sent for a document is made of the result that is kept. -/
theorem Sound.published_eq (hsc : sc.Sound) {s : Workspace.Snapshot Workspace.Result} (hs : sc.kept? u = some s)
    (hb : sc.basis s.tag.sequence = some b) : sc.published? u = some (sc.notices (b.analysis sc.surroundings u)) := by
  have hkept := hsc.kept u s hs
  obtain ⟨b', hb', hanalysis⟩ := hkept.made
  obtain rfl := Option.some.inj (hb.symm.trans hb')
  rw [hsc.published u s hs, hkept.notices, hanalysis]
  rfl

/-- **When no job is pending, what was last sent for an open document is what would be found now, exactly when it
makes no difference for the document that it was overlooked.** -/
theorem published_iff (h : sc.Reached) (hpending : sc.bench.jobs.pendingCount = 0)
    (hdocument : sc.document? u = some document) :
    sc.published? u = some (sc.notices (sc.fresh u document.content)) ↔
      ∀ b, sc.Overlooked u document b →
        sc.notices (b.analysis sc.surroundings u) = sc.notices (sc.fresh u document.content) := by
  have hsc := h.sound
  constructor
  · rintro hpublished b ⟨s, r, _, hs, hb, _⟩
    exact Option.some.inj ((hsc.published_eq hs hb).symm.trans hpublished)
  · intro hoverlooked
    have hsettled : sc.Settled u document := by
      refine (hsc.settled u document hdocument).resolve_left ?_
      rintro ⟨j, hj, _⟩
      exact not_live_of_pendingCount hsc.jobs hpending j hj
    -- What was sent rests on one basis. If the document was overlooked, it is the one in question.
    by_cases hseen : ∃ b, sc.Overlooked u document b
    · obtain ⟨b, hb⟩ := hseen
      have heq := hoverlooked b hb
      obtain ⟨s, r, _, hs, hbasis, _⟩ := hb
      rw [hsc.published_eq hs hbasis, heq]
    · obtain ⟨s, b, hs, hb, hagrees⟩ := hsettled.agrees hsc hdocument fun b hb => hseen ⟨b, hb⟩
      rw [hsc.published_eq hs hb, analysis_eq_fresh_iff.2 hagrees]

/-- A server beside a disk without files. -/
def besideNothing : Scene :=
  start .default
    { engine := Expression.builtinEngine
      functions := .builtin
      disk := ⟨fun _ => .error .notFound, fun path => .ok path⟩ }
    (.number 1) ⟨none, none, none⟩

/-- The job of a document goes on behind that of the document that it imports. -/
def openedBoth : Scene :=
  besideNothing.run [
    .opened ⟨"file:///project/lib.lg"⟩ ⟨1, "# Greet\n- hi", "lg"⟩,
    .opened ⟨"file:///project/main.lg"⟩ ⟨1, "[lib](lib.lg)\n# Main\n- hi", "lg"⟩,
    .captured 2, .ran 1, .analyzed 2, .committed 2]

theorem published_iff_openedBoth :
    openedBoth.Reached ∧ openedBoth.bench.jobs.pendingCount = 0 ∧
      openedBoth.document? ⟨"file:///project/main.lg"⟩ = some ⟨1, "[lib](lib.lg)\n# Main\n- hi", "lg"⟩ ∧
      (openedBoth.published? ⟨"file:///project/main.lg"⟩ =
          some (openedBoth.notices (openedBoth.fresh ⟨"file:///project/main.lg"⟩ "[lib](lib.lg)\n# Main\n- hi")) ↔
        ∀ b, openedBoth.Overlooked ⟨"file:///project/main.lg"⟩ ⟨1, "[lib](lib.lg)\n# Main\n- hi", "lg"⟩ b →
          openedBoth.notices (b.analysis openedBoth.surroundings ⟨"file:///project/main.lg"⟩) =
            openedBoth.notices (openedBoth.fresh ⟨"file:///project/main.lg"⟩ "[lib](lib.lg)\n# Main\n- hi")) := by
  have hreached : openedBoth.Reached := by
    unfold openedBoth besideNothing
    refine reached_of_disk fun disk us hmem => ?_
    simp at hmem
  have hpending : openedBoth.bench.jobs.pendingCount = 0 := by
    decide +kernel
  have hdocument :
      openedBoth.document? ⟨"file:///project/main.lg"⟩ = some ⟨1, "[lib](lib.lg)\n# Main\n- hi", "lg"⟩ := by
    decide +kernel
  have hpublished := published_iff hreached hpending hdocument
  exact ⟨hreached, hpending, hdocument, hpublished⟩

/-- A document imports another that is opened later. -/
def openedLater : Scene :=
  besideNothing.run [
    .opened ⟨"file:///project/main.lg"⟩ ⟨1, "[lib](lib.lg)\n# Main\n- hi", "lg"⟩, .ran 1,
    .opened ⟨"file:///project/lib.lg"⟩ ⟨1, "# Greet\n- hi", "lg"⟩, .ran 2]

/-- No job is left, but what was sent for the importing document still says that there is nothing to import. -/
theorem not_published_openedLater :
    openedLater.Reached ∧ openedLater.bench.jobs.pendingCount = 0 ∧
      ¬ ∀ u document, openedLater.document? u = some document →
        openedLater.published? u = some (openedLater.notices (openedLater.fresh u document.content)) := by
  refine ⟨?_, by decide +kernel, fun h => ?_⟩
  · unfold openedLater besideNothing
    refine reached_of_disk fun disk us hmem => ?_
    simp at hmem
  · have hmain := h ⟨"file:///project/main.lg"⟩ ⟨1, "[lib](lib.lg)\n# Main\n- hi", "lg"⟩ (by decide +kernel)
    have hcount := congrArg (Option.map List.length) hmain
    revert hcount
    decide +kernel

end LgLang.Scene
