import LgLang.Proofs.Server.Publishing
import Mathlib.Data.List.Chain

/-!
# Results and publications in lock step

The workspace keeps the latest result for each document, and the publisher remembers the tag of the last list it has
sent. These are two records with a test of their own each, but until the session is shut down they never come apart
(`lockStep`): a tag is remembered exactly where a result is kept, and it is the tag of that result, so that both tests
always agree. The last list that was sent for a document holds the findings of the kept result, or it is empty if the
document was closed and nothing has been accepted since. From one such list to the next, tags only grow.
-/

namespace LgLang

open Workspace (Job Publication Publisher Result Tag)

namespace Workbench

variable {b b' : Workbench} {u : Uri}

/-- What is kept and what is published agree. -/
structure InStep (b : Workbench) : Prop where
  connected : b.publisher.connected = true
  /-- The publisher remembers the tags of the kept results and no others. -/
  tags : ∀ u, b.publisher.last? u = (b.kept? u).map (·.2)
  kept : ∀ u result tag, b.kept? u = some (result, tag) →
    b.publisher.lastSent? u = some ⟨u, some tag.version, result.notices⟩
  cleared : ∀ u, b.kept? u = none → b.publisher.lastSent? u = none ∨ b.publisher.lastSent? u = some ⟨u, none, []⟩

theorem inStep_start (config : Config) : (start config).InStep := by
  have hkept : ∀ u, (start config).kept? u = none := fun u =>
    (congrArg (Option.map _) (Maps.get?_empty u)).trans rfl
  refine ⟨rfl, fun u => ?_, fun u result tag h => ?_, fun _ _ => Or.inl rfl⟩
  · rw [hkept u]
    exact Maps.get?_empty u
  · rw [hkept u] at h
    cases h

theorem InStep.congr (h : b.InStep) (hkept : ∀ u, b'.kept? u = b.kept? u) (hpublisher : b'.publisher = b.publisher) :
    b'.InStep where
  connected := hpublisher ▸ h.connected
  tags u := by
    rw [hpublisher, hkept]
    exact h.tags u
  kept u result tag hu := by
    rw [hpublisher]
    exact h.kept u result tag ((hkept u).symm.trans hu)
  cleared u hu := by
    rw [hpublisher]
    exact h.cleared u ((hkept u).symm.trans hu)

/-- The two tests agree: what is accepted into the workspace is also sent, and the other way round. -/
theorem InStep.commit?_isSome (h : b.InStep) (u : Uri) (tag : Tag) (a : Analysis) :
    (b.workspace.commit? u tag a).isSome = b.publisher.accepts u tag := by
  have htags := h.tags u
  unfold Workspace.commit? Workspace.Snapshots.commit? Publisher.accepts
  unfold kept? at htags
  cases hget : b.workspace.snapshots.get? u with
  | none =>
    rw [hget] at htags
    rw [htags]
    rfl
  | some s =>
    rw [hget] at htags
    rw [htags]
    show (Option.map _ (if Tag.newer tag s.tag = true then _ else _)).isSome = Tag.newer tag s.tag
    cases hnewer : Tag.newer tag s.tag with
    | true => rfl
    | false => rfl

theorem InStep.follows (h : b.InStep) {closed : Option Uri} (hfollows : b.Follows b' closed) : b'.InStep := by
  cases closed with
  | none => exact h.congr (fun u => (hfollows.kept u).trans (if_neg fun heq => by cases heq)) hfollows.publisher
  | some c =>
    have hpublisher : b'.publisher = b.publisher.clear c := hfollows.publisher
    have hkept : ∀ v, b'.kept? v = if c = v then none else b.kept? v := by
      intro v
      rw [hfollows.kept v]
      simp only [Option.some.injEq]
    have hlast : ∀ v, b'.publisher.last? v = if c = v then none else b.publisher.last? v := by
      rw [hpublisher]
      exact Publisher.get?_tags_clear b.publisher c
    have hsent : ∀ v, b'.publisher.lastSent? v =
        if c = v then some ⟨c, none, []⟩ else b.publisher.lastSent? v := by
      rw [hpublisher]
      exact Publisher.lastSent?_clear h.connected c
    refine ⟨?_, fun v => ?_, fun v result tag hv => ?_, fun v hv => ?_⟩
    · rw [hpublisher, Publisher.connected_clear]
      exact h.connected
    · rw [hlast, hkept, h.tags]
      split <;> rfl
    · rw [hkept] at hv
      by_cases hc : c = v
      · rw [if_pos hc] at hv
        cases hv
      · rw [if_neg hc] at hv
        rw [hsent, if_neg hc]
        exact h.kept v result tag hv
    · rw [hsent]
      by_cases hc : c = v
      · rw [if_pos hc, hc]
        exact Or.inr rfl
      · rw [hkept, if_neg hc] at hv
        rw [if_neg hc]
        exact h.cleared v hv

/-! ## Steps of jobs -/

theorem InStep.captureStep (h : b.InStep) (hsound : b.jobs.Sound) (n : Nat) : (b.captureStep n).InStep := by
  cases captureStep_captures hsound n with
  | unchanged hafter _ | ended _ _ _ _ hafter | captured _ _ _ _ _ hafter =>
    rw [hafter]
    exact h.congr (fun _ => rfl) rfl

theorem InStep.analyzeStep (h : b.InStep) (hsound : b.jobs.Sound) (sur : Surroundings) (n : Nat) :
    (b.analyzeStep sur n).InStep := by
  have hkept : ∀ u, (b.analyzeStep sur n).kept? u = b.kept? u := by
    intro u
    unfold kept?
    rw [snapshots_analyzeStep hsound]
  cases analyzeStep_analyzes hsound sur n with
  | unchanged hafter _ | ended _ _ _ _ hafter | analyzed _ _ _ _ _ hafter =>
    exact h.congr hkept ((congrArg publisher hafter).trans rfl)

/-- A result that is accepted is sent, and its tag takes the place of the one before in both records. -/
theorem InStep.accept (h : b.InStep) {j : Job} (hnewer : ¬ b.Outdated j) (a : Analysis) : (b.accept j a).InStep := by
  have haccepts : b.publisher.accepts j.uri ⟨j.version, j.sequence⟩ = true := by
    rw [Publisher.accepts_iff]
    intro old hold
    rw [h.tags, kept?, Option.map_map] at hold
    obtain ⟨s, hs, rfl⟩ := Option.map_eq_some_iff.1 hold
    exact Bool.not_eq_false _ |>.mp fun hnot => hnewer ⟨s, hs, hnot⟩
  have hkept : ∀ v, (b.accept j a).kept? v =
      if j.uri = v then some (b.workspace.resultOf a, ⟨j.version, j.sequence⟩) else b.kept? v := by
    intro v
    unfold kept?
    rw [get?_accept]
    split <;> rfl
  have hlast : ∀ v, (b.accept j a).publisher.last? v =
      if j.uri = v then some ⟨j.version, j.sequence⟩ else b.publisher.last? v := Publisher.get?_tags_publish haccepts
  have hsent : ∀ v, (b.accept j a).publisher.lastSent? v =
      if j.uri = v then some ⟨j.uri, some j.version, (b.workspace.resultOf a).notices⟩
      else b.publisher.lastSent? v := Publisher.lastSent?_publish h.connected haccepts
  refine ⟨(Publisher.connected_publish _ _ _ _).trans h.connected, fun v => ?_, fun v result tag hv => ?_, fun v hv => ?_⟩
  · rw [hlast, hkept, h.tags]
    split <;> rfl
  · rw [hkept] at hv
    rw [hsent]
    by_cases hu : j.uri = v
    · rw [if_pos hu] at hv ⊢
      obtain ⟨rfl, rfl⟩ := Prod.mk.inj (Option.some.inj hv)
      rw [hu]
    · rw [if_neg hu] at hv ⊢
      exact h.kept v result tag hv
  · rw [hkept] at hv
    rw [hsent]
    by_cases hu : j.uri = v
    · rw [if_pos hu] at hv
      cases hv
    · rw [if_neg hu] at hv ⊢
      exact h.cleared v hv

theorem InStep.commitStep (h : b.InStep) (hsound : b.jobs.Sound) (n : Nat) : (b.commitStep n).InStep := by
  cases commitStep_commits hsound n with
  | unchanged hafter _ | ended _ _ _ _ _ _ hafter =>
    rw [hafter]
    exact h.congr (fun _ => rfl) rfl
  | accepted j a _ _ _ _ hnewer hafter =>
    -- That the job ends touches neither record.
    rw [hafter]
    exact (h.accept hnewer a).congr (fun _ => rfl) rfl

end Workbench

namespace Server

variable {s : Server} {u : Uri}

/-- Until the session is shut down, results and publications agree. -/
def InStep (s : Server) : Prop :=
  ¬ s.IsShutDown → s.bench.InStep

theorem lasting_inStep : Lasting Workbench.InStep where
  follows h hfollows := h.follows hfollows
  captured n h hsound := h.captureStep hsound n
  analyzed sur n h hsound := h.analyzeStep hsound sur n
  committed n h hsound := h.commitStep hsound n

theorem InStep.run (h : s.InStep) (hwork : s.AtWork) (es : List Event) : (s.run es).InStep :=
  lasting_inStep.run hwork h es

/-! ## The tags of the lists -/

/-- The tags under which lists are sent for a document in a run, in order; none for a list that takes back what was sent
before. -/
def tagsSent (u : Uri) : Server → List Event → List (Option Tag)
  | _, [] => []
  | s, e :: es =>
    ((s.sentBy e).filter (·.uri = u)).map (fun _ => (s.step e).bench.publisher.last? u) ++ tagsSent u (s.step e) es

/-- A tag that follows another one is newer. -/
def Rises (old new : Option Tag) : Prop :=
  ∀ t t', old = some t → new = some t' → t'.newer t = true

theorem connected_of_sends {e : Event} {p : Publisher Editor.Notice} (h : s.Sends e p) :
    p.connected = s.bench.publisher.connected := by
  cases h with
  | nothing => rfl
  | takenBack sur m v => exact Publisher.connected_clear _ _
  | published _ _ => exact Publisher.connected_publish _ _ _ _

/-- A step sends nothing for a document and the remembered tag stays, or it sends one list under a tag that follows. -/
theorem tags_of_sends (hconnected : s.bench.publisher.connected = true) {e : Event} {p : Publisher Editor.Notice}
    (h : s.Sends e p) (u : Uri) :
    (((p.sentAfter s.bench.publisher.sent.length).filter (·.uri = u)) = [] ∧ p.last? u = s.bench.publisher.last? u) ∨
      ((∃ m, ((p.sentAfter s.bench.publisher.sent.length).filter (·.uri = u)) = [m]) ∧
        Rises (s.bench.publisher.last? u) (p.last? u)) := by
  cases h with
  | nothing =>
    rw [Publisher.sentAfter_length]
    exact Or.inl ⟨rfl, rfl⟩
  | takenBack sur m v =>
    have hlast : (s.bench.publisher.clear v).last? u = if v = u then none else s.bench.publisher.last? u :=
      Publisher.get?_tags_clear _ _ _
    rw [Publisher.sentAfter_clear, if_pos hconnected, hlast]
    by_cases hv : v = u
    · rw [if_pos hv]
      exact Or.inr ⟨⟨⟨v, none, []⟩, by simp [hv]⟩, fun t t' _ ht' => by cases ht'⟩
    · rw [if_neg hv]
      exact Or.inl ⟨by simp [hv], rfl⟩
  | @published j a hj hstage =>
    rw [Publisher.sentAfter_publish]
    by_cases haccepts : s.bench.publisher.accepts j.uri ⟨j.version, j.sequence⟩ = true
    · have hlast : (s.bench.publisher.publish j.uri ⟨j.version, j.sequence⟩
          (s.bench.workspace.resultOf a).notices).last? u =
            if j.uri = u then some ⟨j.version, j.sequence⟩ else s.bench.publisher.last? u :=
        Publisher.get?_tags_publish haccepts u
      rw [if_pos ⟨haccepts, hconnected⟩]
      by_cases hu : j.uri = u
      · rw [if_pos hu] at hlast
        refine Or.inr ⟨⟨⟨j.uri, some j.version, (s.bench.workspace.resultOf a).notices⟩, by simp [hu]⟩, ?_⟩
        intro t t' ht ht'
        obtain rfl := Option.some.inj (hlast.symm.trans ht')
        exact Publisher.accepts_iff.1 haccepts t (hu ▸ ht)
      · rw [if_neg hu] at hlast
        exact Or.inl ⟨by simp [hu], hlast⟩
    · rw [if_neg fun h => haccepts h.1]
      refine Or.inl ⟨rfl, ?_⟩
      unfold Publisher.publish
      rw [if_neg haccepts]

/-- Each tag of a run follows the one before it, the first of them the one that was remembered. -/
theorem isChain_tagsSent (hwork : s.AtWork) (hconnected : s.bench.publisher.connected = true) (u : Uri)
    (es : List Event) : (s.bench.publisher.last? u :: tagsSent u s es).IsChain Rises := by
  induction es generalizing s with
  | nil => exact .singleton _
  | cons e es ih =>
    have hsends := hwork.idle.step_sends e
    have hrest := ih (hwork.step e) ((connected_of_sends hsends).trans hconnected)
    unfold tagsSent sentBy
    rcases tags_of_sends hconnected hsends u with ⟨hnone, hlast⟩ | ⟨⟨m, hone⟩, hrises⟩
    -- The chain goes on from the remembered tag, which is that of the last list.
    · rw [hnone, ← hlast]
      exact hrest
    · rw [hone]
      exact .cons_cons hrises hrest

theorem newer_trans {t t' t'' : Tag} (h : t'.newer t = true) (h' : t''.newer t' = true) : t''.newer t = true := by
  rw [Tag.newer_iff] at h h' ⊢
  omega

/-- Where nothing is taken back, tags rise all along a chain. -/
theorem newer_of_isChain {t t' : Tag} {mid back : List (Option Tag)}
    (h : (some t :: (mid ++ some t' :: back)).IsChain Rises) (hmid : none ∉ mid) : t'.newer t = true := by
  induction mid generalizing t with
  | nil => exact (List.isChain_cons_cons.1 h).1 t t' rfl rfl
  | cons m mid ih =>
    obtain ⟨hrises, hrest⟩ := List.isChain_cons_cons.1 h
    cases m with
    | none => exact absurd List.mem_cons_self hmid
    | some t₁ => exact newer_trans (hrises t t₁ rfl rfl) (ih hrest fun hmem => hmid (List.mem_cons_of_mem _ hmem))

/-- **Results and publications move in lock step.** In every run that has not been shut down they agree, and the two tests
for what is outdated give the same answer. In every run, the tags of the lists for a document grow until the list is
taken back. -/
theorem lockStep (base : Config) (es : List Event) :
    (¬ ((start base).run es).IsShutDown →
      ((start base).run es).bench.InStep ∧
        ∀ u tag a, (((start base).run es).workspace.commit? u tag a).isSome =
          ((start base).run es).bench.publisher.accepts u tag) ∧
      ∀ u front t mid t' back, tagsSent u (start base) es = front ++ some t :: (mid ++ some t' :: back) →
        none ∉ mid → t'.newer t = true := by
  have hwork := atWork_start base
  have hstart : (start base).InStep := fun _ => Workbench.inStep_start base
  refine ⟨fun hup => ?_, fun u front t mid t' back htags hmid => ?_⟩
  · have hstep := hstart.run hwork es hup
    exact ⟨hstep, hstep.commit?_isSome⟩
  · have hchain := isChain_tagsSent hwork rfl u es
    rw [htags, ← List.cons_append] at hchain
    exact newer_of_isChain hchain.right_of_append hmid

/-- After the document was opened again its job commits, and so does that of a change that follows. -/
def reopeningAndChange : List Event :=
  reopening ++ [.committed 2,
    told "textDocument/didChange" (.obj [
      ("textDocument", .obj [("uri", .str "file:///main.lg"), ("version", .int 2)]),
      ("contentChanges", .arr [.obj [("text", .str "# Main\n- hi")]])]),
    .captured 3, .analyzed bare 3, .committed 3]

theorem lockStep_reopeningAndChange :
    ¬ ((start .default).run reopeningAndChange).IsShutDown ∧
      ((start .default).run reopeningAndChange).bench.InStep ∧
      tagsSent ⟨"file:///main.lg"⟩ (start .default) reopeningAndChange = [none, some ⟨1, 2⟩, some ⟨2, 3⟩] ∧
      Tag.newer ⟨2, 3⟩ ⟨1, 2⟩ = true := by
  have hup : ¬ ((start .default).run reopeningAndChange).IsShutDown := by decide +kernel
  have htags : tagsSent ⟨"file:///main.lg"⟩ (start .default) reopeningAndChange =
      [none] ++ some ⟨1, 2⟩ :: ([] ++ some ⟨2, 3⟩ :: []) := by
    decide +kernel
  have hrun := lockStep .default reopeningAndChange
  exact ⟨hup, (hrun.1 hup).1, htags, hrun.2 _ [none] ⟨1, 2⟩ [] ⟨2, 3⟩ [] htags List.not_mem_nil⟩

end Server

end LgLang
