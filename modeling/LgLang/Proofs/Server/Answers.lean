import LgLang.Proofs.Server.Events

/-!
# Every request is answered once

A request is answered at once, or it is handed to a worker that answers it later. The accounts of a server are its
responses and the workers that still owe one; what can occur changes them in one of a few ways (`Accounts`), so that at
any time before `exit` they name exactly the requests that were received, each as often as it came (`accounted_pass`).
A client may use an identifier again while a worker is at work under it: workers are told apart by their numbers. Workers
that are left to themselves come to their end (`roster_finishing`).
-/

namespace LgLang.Server

/-- What can happen to a server whose workers may also fail. -/
inductive Incident where
  | event (e : Event)
  /-- The work of a worker breaks off. -/
  | broke (number : Nat) (reason : String)

def occur (s : Server) : Incident → Server
  | .event e => s.step e
  | .broke number reason => s.breakStep number reason

def pass (s : Server) (is : List Incident) : Server :=
  is.foldl occur s

namespace Incident

/-- The identifier of the request that is received. -/
def request? : Incident → Option RequestId
  | .event (.received _ (.request id _ _)) => some id
  | _ => none

end Incident

/-- The identifiers of the requests that are received, in order. -/
def requested (is : List Incident) : List RequestId :=
  is.filterMap Incident.request?

/-- The numbers of the workers, and the requests that they owe a response. -/
def roster (s : Server) : List (Nat × RequestId) :=
  s.workers.map fun w => (w.number, w.id)

/-- A worker, with an answer if it is the one with the number. -/
def Worker.given (a : Workspace.Answer) (number : Nat) (w : Worker) : Worker :=
  if w.number = number then { w with answer := some a.value, made := a.made } else w

variable {s s' t t' : Server} {id : RequestId} {number : Nat} {is : List Incident}

theorem pass_append (s : Server) (is js : List Incident) : s.pass (is ++ js) = (s.pass is).pass js :=
  List.foldl_append

theorem requested_append (is js : List Incident) : requested (is ++ js) = requested is ++ requested js :=
  List.filterMap_append

/-! ## The accounts of a server -/

/-- What can become of the accounts of a server that is not stopped, and the request that it receives by that. -/
inductive Accounts (s s' : Server) : Option RequestId → Prop where
  | idle (hroster : s'.roster = s.roster) (hcount : s'.workerCount = s.workerCount)
      (hresponses : s'.responses = s.responses) : Accounts s s' none
  | answered (id : RequestId) (result : Except Failure Json) (hroster : s'.roster = s.roster)
      (hcount : s'.workerCount = s.workerCount) (hresponses : s'.responses = ⟨id, result⟩ :: s.responses) :
      Accounts s s' (some id)
  | handedOver (id : RequestId) (hroster : s'.roster = s.roster ++ [(s.workerCount, id)])
      (hcount : s'.workerCount = s.workerCount + 1) (hresponses : s'.responses = s.responses) :
      Accounts s s' (some id)
  | settled (number : Nat) (id : RequestId) (result : Except Failure Json) (hmem : (number, id) ∈ s.roster)
      (hroster : s'.roster = s.roster.filter (·.1 != number)) (hcount : s'.workerCount = s.workerCount)
      (hresponses : s'.responses = ⟨id, result⟩ :: s.responses) : Accounts s s' none

/-- The responses, and the workers that owe one, are for these requests. -/
structure Accounted (s : Server) (ids : List RequestId) : Prop where
  distinct : (s.roster.map (·.1)).Nodup
  below : ∀ x ∈ s.roster, x.1 < s.workerCount
  accounts : (s.responses.map (·.id) ++ s.roster.map (·.2)).Perm ids

theorem accounted_start (base : Config) : (start base).Accounted [] :=
  ⟨.nil, fun _ hx => absurd hx List.not_mem_nil, .refl _⟩

/-- Of the workers, only one has a number. -/
theorem perm_cons_filter {roster : List (Nat × RequestId)} (hdistinct : (roster.map (·.1)).Nodup)
    (hmem : (number, id) ∈ roster) : roster.Perm ((number, id) :: roster.filter (·.1 != number)) := by
  have herase : roster.erase (number, id) = roster.filter (·.1 != number) := by
    rw [hdistinct.of_map.erase_eq_filter]
    refine List.filter_congr fun x hx => ?_
    rw [Bool.eq_iff_iff, bne_iff_ne, bne_iff_ne, not_iff_not]
    exact ⟨fun h => h ▸ rfl, fun h => List.inj_on_of_nodup_map hdistinct hx hmem h⟩
  rw [← herase]
  exact List.perm_cons_erase hmem

theorem Accounted.of_accounts {ids : List RequestId} (h : s.Accounted ids) {received : Option RequestId}
    (haccounts : s.Accounts s' received) : s'.Accounted (ids ++ received.toList) := by
  cases haccounts with
  | idle hroster hcount hresponses =>
    refine ⟨by rw [hroster]; exact h.distinct, by rw [hroster, hcount]; exact h.below, ?_⟩
    rw [hroster, hresponses, Option.toList_none, List.append_nil]
    exact h.accounts
  | answered id result hroster hcount hresponses =>
    refine ⟨by rw [hroster]; exact h.distinct, by rw [hroster, hcount]; exact h.below, ?_⟩
    rw [hroster, hresponses]
    exact (h.accounts.cons id).trans (List.perm_append_singleton id ids).symm
  | handedOver id hroster hcount hresponses =>
    refine ⟨?_, ?_, ?_⟩
    · rw [hroster, List.map_append, List.nodup_append]
      refine ⟨h.distinct, List.nodup_singleton _, ?_⟩
      rintro n hn m hm rfl
      obtain ⟨x, hx, rfl⟩ := List.mem_map.1 hn
      exact absurd (h.below x hx) (by simp_all)
    · intro x hx
      rw [hroster, List.mem_append, List.mem_singleton] at hx
      rw [hcount]
      rcases hx with hx | rfl
      · exact Nat.lt_succ_of_lt (h.below x hx)
      · exact Nat.lt_succ_self _
    · rw [hroster, hresponses, List.map_append, ← List.append_assoc]
      exact h.accounts.append_right [id]
  | settled number id result hmem hroster hcount hresponses =>
    refine ⟨?_, ?_, ?_⟩
    · rw [hroster]
      exact h.distinct.sublist (List.filter_sublist.map _)
    · intro x hx
      rw [hroster] at hx
      rw [hcount]
      exact h.below x (List.mem_of_mem_filter hx)
    · rw [hroster, hresponses, Option.toList_none, List.append_nil]
      have hperm := (perm_cons_filter h.distinct hmem).map (·.2)
      exact (List.perm_middle.symm.trans (hperm.symm.append_left _)).trans h.accounts

/-! ## What an incident does to the accounts -/

theorem roster_respond (s : Server) (id : RequestId) (result : Except Failure Json) :
    (s.respond id result).roster = s.roster := rfl

theorem roster_cancelWorkers (s : Server) (which : RequestId → Bool) : (s.cancelWorkers which).roster = s.roster := by
  unfold cancelWorkers roster
  rw [List.map_map]
  refine List.map_congr_left fun w _ => ?_
  rw [Function.comp_apply]
  split <;> rfl

theorem accounts_onStart (s : Server) (sur : Surroundings) (id : RequestId) (client : ClientInfo) :
    s.Accounts (s.onStart sur id client) (some id) := by
  unfold onStart
  split
  · exact .answered id _ rfl rfl rfl
  · exact .answered id _ rfl rfl rfl

theorem accounts_onShutdown (s : Server) (id : RequestId) : s.Accounts (s.onShutdown id) (some id) := by
  unfold onShutdown
  split
  · exact .answered id _ rfl rfl rfl
  · refine .answered id _ ?_ rfl rfl
    rw [roster_respond, roster_cancelWorkers]
    rfl

theorem accounts_onFeature (s : Server) (id : RequestId) (f : FeatureRequest) :
    s.Accounts (s.onFeature id f) (some id) := by
  refine .handedOver id ?_ rfl rfl
  unfold onFeature roster
  rw [List.map_append]
  rfl

theorem accounts_onRequest (s : Server) (sur : Surroundings) (id : RequestId) (method : String) (r : Request) :
    s.Accounts (s.onRequest sur id method r) (some id) := by
  unfold onRequest
  split
  · exact accounts_onStart s sur id _
  · exact .answered id _ rfl rfl rfl
  · exact accounts_onShutdown s id
  all_goals
    split
    · exact .answered id _ rfl rfl rfl
    · first
      | exact accounts_onFeature s id _
      | exact .answered id _ rfl rfl rfl

theorem accounts_bench (s : Server) (bench : Workbench) : s.Accounts { s with bench } none :=
  .idle rfl rfl rfl

theorem accounts_onDocument (s : Server) (n : Notification) : s.Accounts (s.onDocument n) none := by
  cases n with
  | didChange u version changes =>
    unfold onDocument
    simp only
    split
    · exact .idle rfl rfl rfl
    · exact accounts_bench s _
  | didOpen u d | didSave u | didClose u | didChangeFiles us => exact accounts_bench s _
  | cancel id => exact .idle (roster_cancelWorkers s (· == id)) rfl rfl
  | initialized | exit | ignored => exact .idle rfl rfl rfl

theorem accounts_onNotification (n : Notification) (hstopped : (s.onNotification n).isStopped = false) :
    s.Accounts (s.onNotification n) none := by
  unfold onNotification at hstopped ⊢
  split
  · cases hstopped
  · unfold onSession
    split
    · exact .idle rfl rfl rfl
    · exact .idle rfl rfl rfl
  · split
    · exact accounts_onDocument s _
    · exact .idle rfl rfl rfl

/-- A worker that is dismissed with a response. -/
theorem accounts_dismiss {w : Worker} (hw : s.worker? number = some w) (result : Except Failure Json) :
    s.Accounts ((s.dismiss w).respond w.id result) none := by
  have hmem : (w.number, w.id) ∈ s.roster := List.mem_map.2 ⟨w, List.mem_of_find?_eq_some hw, rfl⟩
  refine .settled w.number w.id result hmem ?_ rfl rfl
  show (s.workers.filter (·.number != w.number)).map _ = (s.workers.map _).filter _
  rw [List.filter_map]
  rfl

theorem Worker.number_given (a : Workspace.Answer) (number : Nat) (w : Worker) :
    (w.given a number).number = w.number := by
  unfold given
  split <;> rfl

theorem answerStep_of_unanswered {w : Worker} (hw : s.worker? number = some w) (hanswer : w.answer = none)
    (sur : Surroundings) : s.answerStep sur number =
      { s with
        bench := { s.bench with workspace := (s.workspace.answer sur w.request).workspace }
        workers := s.workers.map (Worker.given (s.workspace.answer sur w.request) number) } := by
  obtain ⟨_, _, _, _, _, _⟩ := w
  cases hanswer
  unfold answerStep
  rw [hw]
  rfl

theorem answerStep_of_answered (hw : ∀ w, s.worker? number = some w → w.answer.isSome = true) (sur : Surroundings) :
    s.answerStep sur number = s := by
  unfold answerStep
  split
  · next hworker => cases hw _ hworker
  · rfl

theorem roster_answerStep (s : Server) (sur : Surroundings) (number : Nat) :
    (s.answerStep sur number).roster = s.roster := by
  unfold answerStep
  split
  · unfold roster
    rw [List.map_map]
    refine List.map_congr_left fun w _ => ?_
    rw [Function.comp_apply]
    split <;> rfl
  · rfl

theorem accounts_answerStep (s : Server) (sur : Surroundings) (number : Nat) :
    s.Accounts (s.answerStep sur number) none := by
  refine .idle (roster_answerStep s sur number) ?_ ?_
  all_goals
    unfold answerStep
    split <;> rfl

theorem accounts_respondStep (s : Server) (number : Nat) : s.Accounts (s.respondStep number) none := by
  unfold respondStep
  split
  · exact .idle rfl rfl rfl
  · next w hw =>
    split
    · exact accounts_dismiss hw _
    · split
      · exact accounts_dismiss hw _
      · exact .idle rfl rfl rfl

theorem accounts_breakStep (s : Server) (number : Nat) (reason : String) :
    s.Accounts (s.breakStep number reason) none := by
  unfold breakStep
  split
  · next w hw =>
    split
    · exact accounts_dismiss hw _
    · exact .idle rfl rfl rfl
  · exact .idle rfl rfl rfl

theorem accounts_occur (i : Incident) (hstopped : (s.occur i).isStopped = false) (hbefore : s.isStopped = false) :
    s.Accounts (s.occur i) i.request? := by
  cases i with
  | broke number reason => exact accounts_breakStep s number reason
  | event e =>
    cases e with
    | received sur m =>
      have hreceive : s.receive sur m = _ := if_neg (by rw [hbefore]; exact Bool.false_ne_true)
      show s.Accounts (s.receive sur m) _
      replace hstopped : (s.receive sur m).isStopped = false := hstopped
      rw [hreceive] at hstopped ⊢
      cases m with
      | request id method params => exact accounts_onRequest s sur id method _
      | notification method params => exact accounts_onNotification _ hstopped
      | response => exact .idle rfl rfl rfl
    | captured n | analyzed sur n | committed n => exact .idle rfl rfl rfl
    | answered sur number => exact accounts_answerStep s sur number
    | responded number => exact accounts_respondStep s number

/-! ## Runs -/

/-- Only messages move the session. -/
theorem session_occur {i : Incident} (hi : ∀ sur m, i ≠ .event (.received sur m)) (s : Server) :
    (s.occur i).session = s.session := by
  cases i with
  | broke number reason =>
    show (s.breakStep number reason).session = s.session
    unfold breakStep
    split
    · split <;> rfl
    · rfl
  | event e =>
    cases e with
    | received sur m => exact absurd rfl (hi sur m)
    | captured n | analyzed sur n | committed n => rfl
    | answered sur number =>
      show (s.answerStep sur number).session = s.session
      unfold answerStep
      split <;> rfl
    | responded number =>
      show (s.respondStep number).session = s.session
      unfold respondStep
      split
      · rfl
      · split
        · rfl
        · split <;> rfl

/-- `exit` is not taken back. -/
theorem isStopped_occur (i : Incident) (hstopped : s.isStopped = true) : (s.occur i).isStopped = true := by
  by_cases hi : ∃ sur m, i = .event (.received sur m)
  · obtain ⟨sur, m, rfl⟩ := hi
    have hreceive : s.receive sur m = s := if_pos hstopped
    show (s.receive sur m).isStopped = true
    rw [hreceive]
    exact hstopped
  · have hsession := session_occur (fun sur m him => hi ⟨sur, m, him⟩) s
    unfold isStopped at hstopped ⊢
    rw [hsession]
    exact hstopped

/-- As long as the server is not stopped, its accounts are in order. -/
theorem accounted_pass (base : Config) (is : List Incident) (hstopped : ((start base).pass is).isStopped = false) :
    ((start base).pass is).Accounted (requested is) := by
  induction is using List.reverseRecOn with
  | nil => exact accounted_start base
  | append_singleton is i ih =>
    rw [pass_append] at hstopped ⊢
    have hbefore : ((start base).pass is).isStopped = false := by
      rw [← Bool.not_eq_true]
      intro hbefore
      exact Bool.false_ne_true (hstopped.symm.trans (isStopped_occur i hbefore))
    rw [requested_append]
    exact (ih hbefore).of_accounts (accounts_occur i hstopped hbefore)

/-! ## Workers come to their end -/

/-- The workers with these numbers find their answers and respond, one after another. -/
def finishing (sur : Surroundings) (numbers : List Nat) : List Incident :=
  numbers.flatMap fun number => [.event (.answered sur number), .event (.responded number)]

theorem requested_finishing (sur : Surroundings) (numbers : List Nat) : requested (finishing sur numbers) = [] := by
  unfold requested finishing
  rw [List.filterMap_eq_nil_iff]
  intro i hi
  obtain ⟨number, _, hi⟩ := List.mem_flatMap.1 hi
  simp only [List.mem_cons, List.not_mem_nil, or_false] at hi
  rcases hi with rfl | rfl <;> rfl

/-- A worker that has found its answer, or is cancelled, is done when it responds. -/
theorem roster_respondStep {w : Worker} (hw : s.worker? number = some w)
    (hready : w.cancelled = true ∨ w.answer.isSome = true) :
    (s.respondStep number).roster = s.roster.filter (·.1 != number) := by
  have hdismiss : ∀ result, ((s.dismiss w).respond w.id result).roster = s.roster.filter (·.1 != number) := by
    intro result
    obtain rfl : w.number = number := by simpa using List.find?_some hw
    show (s.workers.filter (·.number != w.number)).map _ = (s.workers.map _).filter _
    rw [List.filter_map]
    rfl
  unfold respondStep
  rw [hw]
  simp only
  split
  · exact hdismiss _
  · next hcancelled =>
    split
    · exact hdismiss _
    · next hanswer => simp [hcancelled, hanswer] at hready

/-- A change of the workers that keeps their numbers. -/
theorem find?_map_worker {f : Worker → Worker} (hf : ∀ w, (f w).number = w.number) (ws : List Worker) (number : Nat) :
    (ws.map f).find? (·.number == number) = (ws.find? (·.number == number)).map f := by
  rw [List.find?_map]
  congr 2
  funext w
  rw [Function.comp_apply, hf]

/-- A worker that is asked for its answer has one. -/
theorem worker?_answerStep {w : Worker} (hw : s.worker? number = some w) (sur : Surroundings) :
    ∃ w', (s.answerStep sur number).worker? number = some w' ∧ w'.answer.isSome = true := by
  cases hanswer : w.answer with
  | some answer =>
    refine ⟨w, ?_, by rw [hanswer]; rfl⟩
    rw [answerStep_of_answered (fun v hv => by rw [← Option.some.inj (hw.symm.trans hv), hanswer]; rfl) sur]
    exact hw
  | none =>
    have hnumber : w.number = number := by simpa using List.find?_some hw
    rw [answerStep_of_unanswered hw hanswer sur]
    refine ⟨_, (find?_map_worker (Worker.number_given _ number) s.workers number).trans (congrArg _ hw), ?_⟩
    unfold Worker.given
    rw [if_pos hnumber]
    rfl

theorem roster_answer_respond (s : Server) (sur : Surroundings) (number : Nat) :
    ((s.answerStep sur number).respondStep number).roster = s.roster.filter (·.1 != number) := by
  cases hw : s.worker? number with
  | none =>
    have hanswer : s.answerStep sur number = s :=
      answerStep_of_answered (fun w hw' => by rw [hw] at hw'; cases hw') sur
    have hrespond : s.respondStep number = s := by
      unfold respondStep
      rw [hw]
    rw [hanswer, hrespond, List.filter_eq_self.2]
    intro x hx
    obtain ⟨w, hmem, rfl⟩ := List.mem_map.1 hx
    exact bne_iff_ne.2 (by simpa using List.find?_eq_none.1 hw w hmem)
  | some w =>
    obtain ⟨w', hw', hsome⟩ := worker?_answerStep hw sur
    rw [roster_respondStep hw' (Or.inr hsome), roster_answerStep]

theorem roster_finishing (sur : Surroundings) (numbers : List Nat) (s : Server) :
    (s.pass (finishing sur numbers)).roster = s.roster.filter (!numbers.contains ·.1) := by
  induction numbers generalizing s with
  | nil => exact (List.filter_eq_self.2 fun _ _ => rfl).symm
  | cons number numbers ih =>
    show (((s.answerStep sur number).respondStep number).pass (finishing sur numbers)).roster = _
    rw [ih, roster_answer_respond, List.filter_filter]
    refine List.filter_congr fun x _ => ?_
    rw [List.contains_cons, Bool.not_or, Bool.and_comm]
    rfl

theorem isStopped_finishing (sur : Surroundings) (numbers : List Nat) (s : Server) :
    (s.pass (finishing sur numbers)).isStopped = s.isStopped := by
  induction numbers generalizing s with
  | nil => rfl
  | cons number numbers ih =>
    show (((s.answerStep sur number).respondStep number).pass (finishing sur numbers)).isStopped = _
    have hanswer : (s.answerStep sur number).session = s.session :=
      session_occur (i := .event (.answered sur number)) (by rintro _ _ ⟨⟩) s
    have hrespond : ((s.answerStep sur number).respondStep number).session = (s.answerStep sur number).session :=
      session_occur (i := .event (.responded number)) (by rintro _ _ ⟨⟩) _
    rw [ih]
    unfold isStopped
    rw [hrespond, hanswer]

/-- All workers of a server find their answers and respond. -/
def finish (s : Server) (sur : Surroundings) : List Incident :=
  finishing sur (s.workers.map (·.number))

theorem workers_finish (s : Server) (sur : Surroundings) : (s.pass (s.finish sur)).workers = [] := by
  unfold finish
  have hroster := roster_finishing sur (s.workers.map (·.number)) s
  rw [List.filter_eq_nil_iff.2] at hroster
  · exact List.map_eq_nil_iff.1 hroster
  · intro x hx
    obtain ⟨w, hw, rfl⟩ := List.mem_map.1 hx
    simpa using ⟨w, hw, rfl⟩

end LgLang.Server
