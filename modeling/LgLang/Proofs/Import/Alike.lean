import LgLang.Proofs.Diagnostic.Alike
import LgLang.Proofs.Import.Observation

/-!
# Walks over sources that fail differently

Two sources that serve the same texts may still give different reasons for what they do not serve. Walks over them go
side by side: they find the same files by the same reads and report the same, and what they say differs at most where
each gives the reason of its source (`walkFrom_alike`).
-/

namespace LgLang.Import

open Diagnostic (Alike)

variable {env : Env} {read read' : Uri → Except SourceError String} {log log' : Log}

/-- Two sources serve the same texts. -/
def SameTexts (read read' : Uri → Except SourceError String) : Prop :=
  ∀ u text, read u = .ok text ↔ read' u = .ok text

/-- Two messages are the same, or they are about one of these documents and each begins with the reason that its source
gives for not serving it. -/
def Worded (read read' : Uri → Except SourceError String) (reads : List Uri) (m m' : String) : Prop :=
  m = m' ∨ ∃ v ∈ reads, ∃ e e' rest, read v = .error e ∧ read' v = .error e' ∧
    m = e.message ++ rest ∧ m' = e'.message ++ rest

theorem Worded.mono {reads more : List Uri} (hmore : ∀ v ∈ reads, v ∈ more) {m m' : String}
    (h : Worded read read' reads m m') : Worded read read' more m m' := by
  rcases h with heq | ⟨v, hv, hrest⟩
  · exact Or.inl heq
  · exact Or.inr ⟨v, hmore v hv, hrest⟩

theorem SameTexts.error (hsame : SameTexts read read') {u : Uri} {e : SourceError} (h : read u = .error e) :
    ∃ e', read' u = .error e' := by
  cases hread : read' u with
  | error e' => exact ⟨e', rfl⟩
  | ok text =>
    rw [(hsame u text).2 hread] at h
    cases h

/-- What two walks have noted is the same, but for the reasons of their sources. -/
structure LogsAlike (read read' : Uri → Except SourceError String) (log log' : Log) : Prop where
  graph : log'.graph = log.graph
  reads : log'.reads = log.reads
  questions : log'.questions = log.questions
  diagnostics : List.Forall₂ (Alike (Worded read read' log.reads)) log.diagnostics log'.diagnostics

theorem LogsAlike.report (h : LogsAlike read read' log log') {d d' : Diagnostic}
    (hd : Alike (Worded read read' log.reads) d d') : LogsAlike read read' (log.report d) (log'.report d') :=
  ⟨h.graph, h.reads, h.questions, .cons hd h.diagnostics⟩

theorem LogsAlike.withEdge (h : LogsAlike read read' log log') (source target : Uri) :
    LogsAlike read read' (log.withEdge source target) (log'.withEdge source target) := by
  refine ⟨?_, h.reads, h.questions, h.diagnostics⟩
  show log'.graph.addEdge source target = log.graph.addEdge source target
  rw [h.graph]

theorem LogsAlike.ask (h : LogsAlike read read' log log') :
    LogsAlike read read' { log with questions := log.questions + 1 } { log' with questions := log'.questions + 1 } :=
  ⟨h.graph, h.reads, congrArg (· + 1) h.questions, h.diagnostics⟩

theorem LogsAlike.withRead (h : LogsAlike read read' log log') (target : Uri) :
    LogsAlike read read' (log.withRead target) (log'.withRead target) where
  graph := h.graph
  reads := congrArg (target :: ·) h.reads
  questions := congrArg (· + 1) h.questions
  diagnostics := h.diagnostics.imp fun _ _ hd =>
    hd.imp fun _ _ hsaid => hsaid.mono fun _ hv => List.mem_cons_of_mem _ hv

end LgLang.Import
