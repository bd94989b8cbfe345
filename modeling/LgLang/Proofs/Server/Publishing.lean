import LgLang.Expression.Scan
import LgLang.Function.Builtin
import LgLang.Proofs.Server.Events
import LgLang.Proofs.Workbench.Working

/-!
# Only what is current is published

Between the text that a job captures and the result that it commits, anything may happen: the document may be changed,
closed, and opened again, even under the same version. In every run of the server, a list of findings that a job
publishes is nevertheless about its document as it is at that moment (`published_current`): the session is ready, the
document is open at the version of the list, and the analysis was one of the content that the document has. Nothing
else publishes a list under a version; the only other lists are the empty ones for documents that are closed.
-/

namespace LgLang.Server

open Workspace (Publication Publisher)

variable {s s' : Server}

/-- Jobs are at work only in a ready session, and on documents as they are. -/
structure AtWork (s : Server) : Prop where
  working : s.bench.AllWorking
  ready : ∀ j, s.bench.jobs.Live j → s.session.state = .ready

theorem AtWork.idle (h : s.AtWork) : s.Idle :=
  ⟨h.working.sound, h.ready⟩

theorem atWork_start (base : Config) : (start base).AtWork where
  working := Workbench.allWorking_start base
  ready _ hj := absurd hj.1 List.not_mem_nil

theorem AtWork.handles (h : s.AtWork) (hhandles : s.Handles s') : s'.AtWork := by
  cases hhandles with
  | followed closed hbench hready _ => exact ⟨h.working.follows hbench, hready⟩
  | shutDown _ hsound hlive _ => exact ⟨⟨hsound, fun j hj => absurd hj (hlive j)⟩, fun j hj => absurd hj (hlive j)⟩

theorem AtWork.advances (h : s.AtWork) {bench : Workbench} (hadvances : s.bench.Advances bench) :
    AtWork { s with bench } where
  working := h.working.advances hadvances
  ready := by
    intro j hj
    obtain ⟨i, hi, _⟩ := hadvances.live j hj
    exact h.ready i hi

theorem AtWork.step (h : s.AtWork) (e : Event) : (s.step e).AtWork := by
  cases e with
  | received sur m => exact h.handles (h.idle.handles_receive sur m)
  | captured n => exact h.advances (Workbench.captureStep_advances h.working.sound n)
  | analyzed sur n => exact h.advances (Workbench.analyzeStep_advances h.working.sound sur n)
  | committed n => exact h.advances (Workbench.commitStep_advances h.working.sound n)
  | answered sur number => exact h.handles (h.idle.handles_answerStep sur number)
  | responded number => exact h.handles (h.idle.handles_respondStep number)

theorem AtWork.run (h : s.AtWork) (es : List Event) : (s.run es).AtWork := by
  induction es generalizing s with
  | nil => exact h
  | cons e es ih => exact ih (h.step e)

/-- What holds of a workbench, whatever the client tells and whatever steps jobs take. -/
structure Lasting (P : Workbench → Prop) : Prop where
  follows : ∀ {b b' : Workbench} {closed : Option Uri}, P b → b.Follows b' closed → P b'
  captured : ∀ {b : Workbench} (n : Nat), P b → b.jobs.Sound → P (b.captureStep n)
  analyzed : ∀ {b : Workbench} (sur : Surroundings) (n : Nat), P b → b.jobs.Sound → P (b.analyzeStep sur n)
  committed : ∀ {b : Workbench} (n : Nat), P b → b.jobs.Sound → P (b.commitStep n)

section Lasting

variable {P : Workbench → Prop}

theorem Lasting.handles (hlasting : Lasting P) (h : ¬ s.IsShutDown → P s.bench) (hhandles : s.Handles s') :
    ¬ s'.IsShutDown → P s'.bench := by
  intro hup
  cases hhandles with
  | followed closed hbench _ hdown => exact hlasting.follows (h fun hs => hup (hdown hs)) hbench
  | shutDown hdown _ _ _ => exact absurd hdown hup

theorem Lasting.step (hlasting : Lasting P) (hwork : s.AtWork) (h : ¬ s.IsShutDown → P s.bench) (e : Event) :
    ¬ (s.step e).IsShutDown → P (s.step e).bench := by
  cases e with
  | received sur m => exact hlasting.handles h (hwork.idle.handles_receive sur m)
  | captured n => exact fun hup => hlasting.captured n (h hup) hwork.working.sound
  | analyzed sur n => exact fun hup => hlasting.analyzed sur n (h hup) hwork.working.sound
  | committed n => exact fun hup => hlasting.committed n (h hup) hwork.working.sound
  | answered sur number => exact hlasting.handles h (hwork.idle.handles_answerStep sur number)
  | responded number => exact hlasting.handles h (hwork.idle.handles_respondStep number)

/-- What lasts holds until the session is shut down. -/
theorem Lasting.run (hlasting : Lasting P) (hwork : s.AtWork) (h : ¬ s.IsShutDown → P s.bench) (es : List Event) :
    ¬ (s.run es).IsShutDown → P (s.run es).bench := by
  induction es generalizing s with
  | nil => exact h
  | cons e es ih => exact ih (hwork.step e) (hlasting.step hwork h e)

end Lasting

/-! ## What is sent -/

/-- The job with a number publishes what it has found of its document as it is. -/
structure PublishesCurrent (s : Server) (n : Nat) (p : Publication Editor.Notice) : Prop where
  ready : s.session.state = .ready
  current : ∃ j a d ctx, s.bench.jobs.Live j ∧ j.sequence = n ∧ j.uri = p.uri ∧ j.stage = .analyzed a ∧
    s.workspace.documents.get? p.uri = some d ∧ p.version = some d.version ∧
    a = analyzeDocument ctx p.uri d.content ∧ p.items = Editor.Notice.ofAnalysis s.workspace.config a

/-- **Only current text is published.** Whatever has happened to the server, a list that is sent next is the empty list
for a document that a message closes, or it is published by a job and describes its document as it is. -/
theorem published_current (base : Config) (es : List Event) (e : Event) {p : Publication Editor.Notice}
    (hp : p ∈ ((start base).run es).sentBy e) :
    (∃ sur m, e = .received sur m ∧ p = ⟨p.uri, none, []⟩) ∨
      ∃ n, e = .committed n ∧ ((start base).run es).PublishesCurrent n p := by
  have h : ((start base).run es).AtWork := (atWork_start base).run es
  have hsends := h.idle.step_sends e
  unfold sentBy at hp
  generalize (((start base).run es).step e).bench.publisher = after at hsends hp
  cases hsends with
  | nothing =>
    rw [Publisher.sentAfter_length] at hp
    cases hp
  | takenBack sur m u =>
    rw [Publisher.sentAfter_clear] at hp
    split at hp
    · obtain rfl := List.mem_singleton.1 hp
      exact Or.inl ⟨sur, m, rfl, rfl⟩
    · cases hp
  | @published j a hj hstage =>
    rw [Publisher.sentAfter_publish] at hp
    split at hp
    · obtain rfl := List.mem_singleton.1 hp
      obtain ⟨d, hd⟩ := h.working.working j hj
      obtain ⟨ctx, ha⟩ := hd.analyzed a hstage
      exact Or.inr ⟨j.sequence, rfl, h.ready j hj, j, a, d, ctx, hj, rfl, rfl, hstage, hd.document,
        congrArg some hd.version.symm, ha, rfl⟩
    · cases hp

/-! ## A document that is opened again -/

/-- An empty disk, and the functions that the program comes with. -/
def bare : Surroundings where
  engine := Expression.builtinEngine
  functions := .builtin
  disk := { entry := fun _ => .error .notFound, canonical := fun path => .ok path }

def told (method : String) (params : Json) : Event :=
  .received bare (.notification method params)

/-- The document `main.lg` is opened under version 1. -/
def openedMain (text : String) : Event :=
  told "textDocument/didOpen" (.obj [("textDocument", .obj [("uri", .str "file:///main.lg"), ("languageId", .str "lg"),
    ("version", .int 1), ("text", .str text)])])

/-- While a job is at work on a document, the document is closed and opened again under its version with another text.
The job of the first text comes to its commit, and that of the second one is about to. -/
def reopening : List Event :=
  [.received bare (.request (.number 1) "initialize" (.obj [("capabilities", .obj [])])), told "initialized" (.obj []),
    openedMain "# Main\n- hi", .captured 1,
    told "textDocument/didClose" (.obj [("textDocument", .obj [("uri", .str "file:///main.lg")])]),
    openedMain "# Main\n- ${Missing()}", .analyzed bare 1, .captured 2, .committed 1, .analyzed bare 2]

theorem published_current_reopening :
    ∃ p ∈ ((start .default).run reopening).sentBy (.committed 2), p.version = some 1 ∧ p.items ≠ [] ∧
      ∃ n, Event.committed 2 = .committed n ∧ ((start .default).run reopening).PublishesCurrent n p := by
  have hsent : ∃ p ∈ ((start .default).run reopening).sentBy (.committed 2), p.version = some 1 ∧ p.items ≠ [] := by
    decide +kernel
  obtain ⟨p, hp, hversion, hitems⟩ := hsent
  refine ⟨p, hp, hversion, hitems, ?_⟩
  rcases published_current .default reopening (.committed 2) hp with ⟨_, _, hreceived, _⟩ | hcommitted
  · cases hreceived
  · exact hcommitted

end LgLang.Server
