import LgLang.Analysis
import Std.Data.TreeMap

/-!
# Analysis jobs

Documents are analyzed by jobs that are numbered in the order in which they are asked for. A document has at most one
pending job: a new one cancels the one before. A cancelled job may still be under way and finish later; then it leaves
the job that took its place alone.
-/

namespace LgLang.Workspace

/-- How far a job has come. -/
inductive JobStage where
  | waiting
  /-- The text to analyze is known. -/
  | captured (text : String)
  | analyzed (a : Analysis)

/-- The task to analyze one version of a document. -/
structure Job where
  uri : Uri
  version : Int
  sequence : Nat
  /-- How long it waits, in milliseconds. -/
  delay : Nat
  cancelled : Bool
  stage : JobStage

/-- The jobs that have not finished. -/
structure Jobs where
  /-- The number of jobs ever asked for. -/
  count : Nat
  /-- For each document the number of the job that counts. -/
  pending : Std.TreeMap Uri Nat
  /-- Every job that has not finished, cancelled or not, in the order of the numbers. -/
  unfinished : List Job

namespace Jobs

def empty : Jobs :=
  ⟨0, ∅, []⟩

/-- The number of documents with a job that counts. -/
def pendingCount (js : Jobs) : Nat :=
  js.pending.size

def find? (js : Jobs) (n : Nat) : Option Job :=
  js.unfinished.find? (·.sequence == n)

/-- Changes the job with that number. -/
def modify (js : Jobs) (n : Nat) (f : Job → Job) : Jobs :=
  { js with unfinished := js.unfinished.map fun j => if j.sequence = n then f j else j }

/-- Tells the job with that number that it is cancelled. -/
def cancelNumber (js : Jobs) (n : Nat) : Jobs :=
  js.modify n fun j => { j with cancelled := true }

/-- Moves the job with that number on. -/
def setStage (js : Jobs) (n : Nat) (stage : JobStage) : Jobs :=
  js.modify n fun j => { j with stage }

/-- Cancels the pending job of a document. -/
def cancel (js : Jobs) (u : Uri) : Jobs :=
  match js.pending.get? u with
  | some n => { js.cancelNumber n with pending := js.pending.erase u }
  | none => js

/-- Cancels all pending jobs. -/
def cancelAll (js : Jobs) : Jobs :=
  { js with
    pending := ∅
    unfinished := js.unfinished.map fun j =>
      if js.pending.get? j.uri = some j.sequence then { j with cancelled := true } else j }

/-- Asks for the analysis of a version of a document, instead of what was asked for it before. -/
def schedule (js : Jobs) (u : Uri) (version : Int) (delay : Nat) : Jobs :=
  let n := js.count + 1
  let js := js.cancel u
  { count := n, pending := js.pending.insert u n
    unfinished := js.unfinished ++ [⟨u, version, n, delay, false, .waiting⟩] }

/-- The job with that number is done. -/
def finish (js : Jobs) (n : Nat) : Jobs :=
  match js.find? n with
  | none => js
  | some j =>
    -- The entry may be that of a later job of the document.
    { js with
      pending := if js.pending.get? j.uri = some n then js.pending.erase j.uri else js.pending
      unfinished := js.unfinished.filter (·.sequence != n) }

end Jobs

end LgLang.Workspace
