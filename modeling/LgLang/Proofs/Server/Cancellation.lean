import LgLang.Expression.Scan
import LgLang.Function.Builtin
import LgLang.Proofs.Server.Answers
import LgLang.Proofs.Server.Publishing

/-!
# What a cancellation does

A cancellation marks workers and does nothing else. Two servers that differ by such marks go on in step (`Parallel`),
but that a marked worker may respond before it has an answer. Where it does, the worker of the other server finds its
answer first, and from there on the texts of answers may differ, for finding an answer reads files. The responses stay
the same one by one, except that some results are cut short (`CutShort`).
-/

namespace LgLang.Server

variable {p q : Prop} {s s' t t' : Server} {id : RequestId} {number : Nat}

/-- The second list is the first one, with workers in between that find their answers. -/
inductive Fills (sur : Surroundings) : List Incident → List Incident → Prop where
  | nil : Fills sur [] []
  | keep {is js : List Incident} (i : Incident) (h : Fills sur is js) : Fills sur (i :: is) (i :: js)
  | answered {is js : List Incident} (number : Nat) (h : Fills sur is js) :
      Fills sur is (.event (.answered sur number) :: js)

/-- The first response is the second one, or it is the failure that the request is cancelled where the second one tells
what has come of the work. Under `p` results have the same text. -/
def CutShort (p : Prop) (r r' : Response) : Prop :=
  r.id = r'.id ∧
    (r.result = r'.result ∨ ¬ p ∧ r.result.isOk = true ∧ r'.result.isOk = true ∨
      r.result = .error .cancelled ∧ (r'.result.isOk = true ∨ ∃ reason, r'.result = .error (.internal reason)))

/-- Two workers are at work on the same request, and have both found an answer or both not. Only the first one may be
cancelled alone. -/
structure Abreast (p : Prop) (v w : Worker) : Prop where
  number : w.number = v.number
  id : w.id = v.id
  request : w.request = v.request
  cancelled : w.cancelled = true → v.cancelled = true
  answered : w.answer.isSome = v.answer.isSome
  answer : p → w.answer = v.answer

/-- Two servers differ by the marks of workers that are cancelled, and by what has come of such marks. -/
structure Parallel (p : Prop) (s t : Server) : Prop where
  session : t.session = s.session
  base : t.base = s.base
  inFlight : t.inFlight = s.inFlight
  workerCount : t.workerCount = s.workerCount
  bench : p → t.bench = s.bench
  workers : List.Forall₂ (Abreast p) s.workers t.workers
  responses : List.Forall₂ (CutShort p) s.responses t.responses

/-! ## The relation -/

theorem CutShort.refl (p : Prop) (r : Response) : CutShort p r r :=
  ⟨rfl, Or.inl rfl⟩

theorem CutShort.mono {r r' : Response} (h : CutShort p r r') (hq : q → p) : CutShort q r r' :=
  ⟨h.1, h.2.imp_right (Or.imp_left (And.imp_left fun hp hq' => hp (hq hq')))⟩

theorem Abreast.refl (p : Prop) (w : Worker) : Abreast p w w :=
  ⟨rfl, rfl, rfl, fun h => h, rfl, fun _ => rfl⟩

theorem Abreast.mono {v w : Worker} (h : Abreast p v w) (hq : q → p) : Abreast q v w :=
  { h with answer := fun hq' => h.answer (hq hq') }

theorem Abreast.answer_none {v w : Worker} (h : Abreast p v w) (hv : v.answer = none) : w.answer = none := by
  rw [← Option.isNone_iff_eq_none, ← Option.not_isSome, h.answered, hv]
  rfl

theorem Abreast.answer_some {v w : Worker} (h : Abreast p v w) {a : Json} (hv : v.answer = some a) :
    ∃ b, w.answer = some b ∧ (p → a = b) := by
  have hsome : w.answer.isSome = true := by
    rw [h.answered, hv]
    rfl
  obtain ⟨b, hb⟩ := Option.isSome_iff_exists.1 hsome
  exact ⟨b, hb, fun hp => Option.some.inj (hv.symm.trans ((h.answer hp).symm.trans hb))⟩

theorem Parallel.refl (p : Prop) (s : Server) : s.Parallel p s :=
  ⟨rfl, rfl, rfl, rfl, fun _ => rfl, List.forall₂_same.2 fun w _ => .refl p w, List.forall₂_same.2 fun r _ => .refl p r⟩

theorem Parallel.mono (h : s.Parallel p t) (hq : q → p) : s.Parallel q t :=
  { h with
    bench := fun hq' => h.bench (hq hq')
    workers := h.workers.imp fun _ _ hw => hw.mono hq
    responses := h.responses.imp fun _ _ hr => hr.mono hq }

/-! ## What the parts of a step keep -/

theorem Parallel.isStopped (h : s.Parallel p t) : t.isStopped = s.isStopped := by
  unfold Server.isStopped
  rw [h.session]

/-- The workers with a number. -/
theorem Parallel.worker? (h : s.Parallel p t) (number : Nat) :
    (s.worker? number = none ∧ t.worker? number = none) ∨
      ∃ v w, s.worker? number = some v ∧ t.worker? number = some w ∧ Abreast p v w := by
  unfold Server.worker?
  have hworkers := h.workers
  generalize s.workers = vs at hworkers
  generalize t.workers = ws at hworkers
  induction hworkers with
  | nil => exact Or.inl ⟨rfl, rfl⟩
  | @cons v w vs ws hvw _ ih =>
    rw [List.find?_cons, List.find?_cons, hvw.number]
    cases v.number == number with
    | true => exact Or.inr ⟨v, w, rfl, rfl, hvw⟩
    | false => exact ih

theorem Parallel.withBench (h : s.Parallel p t) {bench bench' : Workbench} (hbench : p → bench' = bench) :
    Parallel p { s with bench } { t with bench := bench' } :=
  { h with bench := hbench }

theorem Parallel.respond (h : s.Parallel p t) {result result' : Except Failure Json}
    (hresult : CutShort p ⟨id, result⟩ ⟨id, result'⟩) : (s.respond id result).Parallel p (t.respond id result') :=
  { h with responses := .cons hresult h.responses }

theorem Parallel.respond_same (h : s.Parallel p t) (id : RequestId) (result : Except Failure Json) :
    (s.respond id result).Parallel p (t.respond id result) :=
  h.respond (.refl p _)

theorem Parallel.dismiss (h : s.Parallel p t) {v w : Worker} (hvw : Abreast p v w) :
    (s.dismiss v).Parallel p (t.dismiss w) :=
  { h with
    inFlight := by
      show t.inFlight.filter (·.1 != w.id) = s.inFlight.filter (·.1 != v.id)
      rw [h.inFlight, hvw.id]
    workers := by
      refine List.rel_filter (fun a b hab => ?_) h.workers
      show (a.number != v.number) = true ↔ (b.number != w.number) = true
      rw [hab.number, hvw.number] }

theorem Parallel.cancelWorkers (h : s.Parallel p t) (which : RequestId → Bool) :
    (s.cancelWorkers which).Parallel p (t.cancelWorkers which) :=
  { h with
    workers := by
      unfold Server.cancelWorkers
      rw [h.inFlight]
      refine List.rel_map (fun v w hvw => ?_) h.workers
      have hsame : ∀ numbers : List Nat, numbers.contains w.number = numbers.contains v.number := by
        intro numbers
        rw [hvw.number]
      rw [hsame]
      split
      · exact { hvw with cancelled := fun _ => rfl }
      · exact hvw }

/-- A cancellation on one side. -/
theorem parallel_cancelWorkers (s : Server) (which : RequestId → Bool) : (s.cancelWorkers which).Parallel p s :=
  { Parallel.refl p s with
    workers := by
      unfold Server.cancelWorkers
      rw [List.forall₂_map_left_iff, List.forall₂_same]
      intro w _
      split
      · exact { Abreast.refl p w with cancelled := fun _ => rfl }
      · exact .refl p w }

/-! ## Messages -/

theorem Parallel.onStart (h : s.Parallel p t) (sur : Surroundings) (id : RequestId) (client : ClientInfo) :
    (s.onStart sur id client).Parallel p (t.onStart sur id client) := by
  unfold Server.onStart
  rw [h.session]
  split
  · exact h.respond_same id _
  · refine Parallel.respond_same ?_ id _
    exact { h with
      session := rfl
      bench := fun hp => by
        unfold workspace
        rw [h.bench hp, h.base] }

theorem Parallel.onShutdown (h : s.Parallel p t) (id : RequestId) : (s.onShutdown id).Parallel p (t.onShutdown id) := by
  unfold Server.onShutdown
  rw [h.session]
  split
  · exact h.respond_same id _
  · refine Parallel.respond_same (Parallel.cancelWorkers ?_ _) id _
    exact { h with
      session := rfl
      bench := fun hp => by rw [h.bench hp] }

theorem Parallel.onFeature (h : s.Parallel p t) (id : RequestId) (f : FeatureRequest) :
    (s.onFeature id f).Parallel p (t.onFeature id f) :=
  { h with
    inFlight := by
      unfold Server.onFeature
      rw [h.inFlight, h.workerCount]
    workerCount := congrArg Nat.succ h.workerCount
    workers := by
      unfold Server.onFeature
      rw [h.workerCount]
      exact List.rel_append h.workers (.cons (.refl p _) .nil) }

theorem Parallel.onRequest (h : s.Parallel p t) (sur : Surroundings) (id : RequestId) (method : String) (r : Request) :
    (s.onRequest sur id method r).Parallel p (t.onRequest sur id method r) := by
  unfold Server.onRequest
  rw [h.session]
  split
  · exact h.onStart sur id _
  · exact h.respond_same id _
  · exact h.onShutdown id
  all_goals
    split
    · exact h.respond_same id _
    · first
      | exact h.onFeature id _
      | exact h.respond_same id _

theorem Parallel.onSession (h : s.Parallel p t) (e : SessionEvent) : (s.onSession e).Parallel p (t.onSession e) := by
  unfold Server.onSession
  rw [h.session]
  split
  · exact { h with session := rfl }
  · exact h

theorem Parallel.stop (h : s.Parallel p t) : s.stop.Parallel p t.stop :=
  { h with
    inFlight := rfl
    bench := fun hp => congrArg Workbench.cancelAll (h.bench hp)
    workers := .nil }

/-- What happens to documents is the workbench's concern, unless it is a cancellation. -/
theorem onDocument_eq {n : Notification} (hn : ∀ id, n ≠ .cancel id) (s : Server) :
    s.onDocument n = { s with bench := (s.onDocument n).bench } := by
  cases n with
  | cancel id => exact absurd rfl (hn id)
  | didChange u version changes =>
    unfold onDocument
    simp only
    split
    · rfl
    · rfl
  | _ => rfl

theorem bench_onDocument (hbench : t.bench = s.bench) (n : Notification) :
    (t.onDocument n).bench = (s.onDocument n).bench := by
  cases n with
  | cancel id | initialized | exit | ignored => exact hbench
  | didChange u version changes =>
    unfold onDocument debounce workspace
    rw [hbench]
    simp only
    split
    · exact hbench
    · rfl
  | _ =>
    unfold onDocument debounce workspace
    rw [hbench]

theorem Parallel.onDocument (h : s.Parallel p t) (n : Notification) :
    (s.onDocument n).Parallel p (t.onDocument n) := by
  by_cases hn : ∃ id, n = .cancel id
  · obtain ⟨id, rfl⟩ := hn
    exact h.cancelWorkers (· == id)
  · have hn' : ∀ id, n ≠ .cancel id := fun id hid => hn ⟨id, hid⟩
    rw [onDocument_eq hn' s, onDocument_eq hn' t]
    exact h.withBench fun hp => bench_onDocument (h.bench hp) n

theorem Parallel.onNotification (h : s.Parallel p t) (n : Notification) :
    (s.onNotification n).Parallel p (t.onNotification n) := by
  unfold Server.onNotification
  split
  · exact (h.onSession .exitNotice).stop
  · exact h.onSession .initializedNotice
  · rw [h.session]
    split
    · exact h.onDocument _
    · exact h

theorem Parallel.receive (h : s.Parallel p t) (sur : Surroundings) (m : Incoming) :
    (s.receive sur m).Parallel p (t.receive sur m) := by
  unfold Server.receive
  rw [h.isStopped]
  split
  · exact h
  · cases m with
    | request id method params => exact h.onRequest sur id method _
    | notification method params => exact h.onNotification _
    | response => exact h

/-! ## Steps of workers -/

theorem Parallel.jobStep (h : s.Parallel p t) (step : Workbench → Workbench) :
    (s.jobStep step).Parallel p (t.jobStep step) :=
  h.withBench fun hp => congrArg step (h.bench hp)

theorem Abreast.given {v w : Worker} (h : Abreast p v w) {a b : Workspace.Answer} (hab : p → b = a) (number : Nat) :
    Abreast p (v.given a number) (w.given b number) := by
  unfold Worker.given
  by_cases hv : v.number = number
  · rw [if_pos hv, if_pos (h.number.trans hv)]
    exact { h with
      answered := rfl
      answer := fun hp => by rw [hab hp] }
  · rw [if_neg hv, if_neg fun hw => hv (h.number.symm.trans hw)]
    exact h

theorem Parallel.answerStep (h : s.Parallel p t) (sur : Surroundings) (number : Nat) :
    (s.answerStep sur number).Parallel p (t.answerStep sur number) := by
  rcases h.worker? number with ⟨hs, ht⟩ | ⟨v, w, hv, hw, hvw⟩
  · have hnone : ∀ {s : Server}, s.worker? number = none → s.answerStep sur number = s := fun hs =>
      answerStep_of_answered (fun w hw => by rw [hs] at hw; cases hw) sur
    rw [hnone hs, hnone ht]
    exact h
  · cases hanswer : v.answer with
    | some answer =>
      have hsome : ∀ {s : Server} {w : Worker}, s.worker? number = some w → w.answer.isSome = true →
          s.answerStep sur number = s := fun hw hanswer =>
        answerStep_of_answered (fun w' hw' => Option.some.inj (hw.symm.trans hw') ▸ hanswer) sur
      have hanswered : v.answer.isSome = true := by rw [hanswer]; rfl
      rw [hsome hv hanswered, hsome hw (hvw.answered.trans hanswered)]
      exact h
    | none =>
      rw [answerStep_of_unanswered hv hanswer sur, answerStep_of_unanswered hw (hvw.answer_none hanswer) sur]
      have hsame : p → t.workspace.answer sur w.request = s.workspace.answer sur v.request := by
        intro hp
        unfold workspace
        rw [h.bench hp, hvw.request]
      exact { h with
        bench := fun hp => by rw [hsame hp, h.bench hp]
        workers := List.rel_map (fun _ _ hab => hab.given hsame number) h.workers }

/-- A worker that is not cancelled responds when it has found its answer. -/
theorem answerStep_respondStep {w : Worker} (hw : s.worker? number = some w) (hcancelled : w.cancelled = false)
    (hanswer : w.answer = none) (sur : Surroundings) : ∃ bench value,
      (s.answerStep sur number).respondStep number = { s.dismiss w with bench }.respond w.id (.ok value) := by
  obtain rfl : w.number = number := by simpa using List.find?_some hw
  have hgiven : ∀ a, w.given a w.number = { w with answer := some a.value, made := a.made } := fun a => if_pos rfl
  have hothers : ∀ a, (s.workers.map (Worker.given a w.number)).filter (·.number != w.number) =
      s.workers.filter (·.number != w.number) := by
    intro a
    have hsame : (fun v : Worker => v.number != w.number) ∘ Worker.given a w.number = (·.number != w.number) :=
      funext fun v => by rw [Function.comp_apply, Worker.number_given]
    rw [List.filter_map, hsame]
    refine (List.map_congr_left fun v hv => ?_).trans (List.map_id _)
    exact if_neg (bne_iff_ne.1 (List.mem_filter.1 hv).2)
  rw [answerStep_of_unanswered hw hanswer sur]
  generalize s.workspace.answer sur w.request = a
  have hw' := (find?_map_worker (Worker.number_given a w.number) s.workers w.number).trans (congrArg _ hw)
  refine ⟨{ s.bench with workspace := a.workspace }, a.value, ?_⟩
  unfold respondStep worker?
  simp only [hw', Option.map_some, hgiven, hcancelled]
  unfold dismiss
  simp only [hothers]
  rfl

/-- A worker that is cancelled on one side alone may respond there before it has an answer. -/
theorem Parallel.respondStep (h : s.Parallel p t) (sur : Surroundings) (number : Nat) :
    (s.respondStep number).Parallel p (t.respondStep number) ∨
      (s.respondStep number).Parallel False ((t.answerStep sur number).respondStep number) := by
  rcases h.worker? number with ⟨hs, ht⟩ | ⟨v, w, hv, hw, hvw⟩
  · refine Or.inl ?_
    unfold Server.respondStep
    rw [hs, ht]
    exact h
  · have hresponse : ∀ result result', CutShort p ⟨v.id, result⟩ ⟨v.id, result'⟩ →
        ((s.dismiss v).respond v.id result).Parallel p ((t.dismiss w).respond w.id result') := by
      intro result result' hresult
      rw [hvw.id]
      exact (h.dismiss hvw).respond hresult
    cases hcancelled : v.cancelled with
    | false =>
      refine Or.inl ?_
      have hcancelled' : w.cancelled = false := by
        rw [← Bool.not_eq_true] at hcancelled ⊢
        exact fun hw => hcancelled (hvw.cancelled hw)
      unfold Server.respondStep
      rw [hv, hw]
      simp only [hcancelled, hcancelled']
      cases hanswer : v.answer with
      | none =>
        rw [hvw.answer_none hanswer]
        exact h
      | some a =>
        obtain ⟨b, hb, hab⟩ := hvw.answer_some hanswer
        rw [hb]
        refine hresponse _ _ ⟨rfl, ?_⟩
        by_cases hp : p
        · exact Or.inl (congrArg Except.ok (hab hp))
        · exact Or.inr (Or.inl ⟨hp, rfl, rfl⟩)
    | true =>
      have hs : s.respondStep number = (s.dismiss v).respond v.id (.error .cancelled) := by
        unfold Server.respondStep
        rw [hv]
        exact if_pos hcancelled
      rw [hs]
      cases hcancelled' : w.cancelled with
      | true =>
        refine Or.inl ?_
        unfold Server.respondStep
        rw [hw]
        simp only [hcancelled']
        exact hresponse _ _ (.refl p _)
      | false =>
        cases hanswer : w.answer with
        | some b =>
          refine Or.inl ?_
          unfold Server.respondStep
          rw [hw]
          simp only [hcancelled', hanswer]
          exact hresponse _ _ ⟨rfl, Or.inr (Or.inr ⟨rfl, Or.inl rfl⟩)⟩
        | none =>
          refine Or.inr ?_
          obtain ⟨bench, value, ht⟩ := answerStep_respondStep hw hcancelled' hanswer sur
          rw [ht, hvw.id]
          refine Parallel.respond ?_ ⟨rfl, Or.inr (Or.inr ⟨rfl, Or.inl rfl⟩)⟩
          exact ((h.dismiss hvw).mono False.elim).withBench False.elim

theorem Parallel.breakStep (h : s.Parallel p t) (number : Nat) (reason : String) :
    (s.breakStep number reason).Parallel p (t.breakStep number reason) := by
  unfold Server.breakStep
  rcases h.worker? number with ⟨hs, ht⟩ | ⟨v, w, hv, hw, hvw⟩
  · rw [hs, ht]
    exact h
  · rw [hv, hw]
    cases hanswer : v.answer with
    | some a =>
      obtain ⟨b, hb, _⟩ := hvw.answer_some hanswer
      simp only [hanswer, hb]
      exact h
    | none =>
      simp only [hanswer, hvw.answer_none hanswer]
      rw [hvw.id]
      refine (h.dismiss hvw).respond ⟨rfl, ?_⟩
      cases hcancelled : v.cancelled with
      | true =>
        cases w.cancelled with
        | true => exact Or.inl rfl
        | false => exact Or.inr (Or.inr ⟨rfl, Or.inr ⟨reason, rfl⟩⟩)
      | false =>
        cases hcancelled' : w.cancelled with
        | true => exact absurd (hvw.cancelled hcancelled') (by rw [hcancelled]; exact Bool.false_ne_true)
        | false => exact Or.inl rfl

/-! ## Runs -/

theorem Parallel.occur (h : s.Parallel p t) (sur : Surroundings) (i : Incident) :
    (s.occur i).Parallel p (t.occur i) ∨
      ∃ number, (s.occur i).Parallel False ((t.occur (.event (.answered sur number))).occur i) := by
  cases i with
  | broke number reason => exact Or.inl (h.breakStep number reason)
  | event e =>
    cases e with
    | received sur' m => exact Or.inl (h.receive sur' m)
    | captured n => exact Or.inl (h.jobStep (·.captureStep n))
    | analyzed sur' n => exact Or.inl (h.jobStep (·.analyzeStep sur' n))
    | committed n => exact Or.inl (h.jobStep (·.commitStep n))
    | answered sur' number => exact Or.inl (h.answerStep sur' number)
    | responded number => exact (h.respondStep sur number).imp_right fun h' => ⟨number, h'⟩

theorem Fills.length_le {sur : Surroundings} {is js : List Incident} (h : Fills sur is js) : is.length ≤ js.length := by
  induction h with
  | nil => exact Nat.le_refl 0
  | keep i _ ih => exact Nat.succ_le_succ ih
  | answered number _ ih => exact Nat.le_succ_of_le ih

/-- Servers that are parallel stay so, where the second one gives its workers time for the answers that the first one
does not wait for. -/
theorem Parallel.pass (h : s.Parallel p t) (sur : Surroundings) (is : List Incident) :
    ∃ js, Fills sur is js ∧ (s.pass is).Parallel (p ∧ js = is) (t.pass js) := by
  induction is generalizing p s t with
  | nil => exact ⟨[], .nil, h.mono And.left⟩
  | cons i is ih =>
    rcases h.occur sur i with hi | ⟨number, hi⟩
    · obtain ⟨js, hfills, hjs⟩ := ih hi
      exact ⟨i :: js, hfills.keep i, hjs.mono fun hp => ⟨hp.1, List.tail_eq_of_cons_eq hp.2⟩⟩
    · obtain ⟨js, hfills, hjs⟩ := ih hi
      refine ⟨_, (hfills.keep i).answered number, hjs.mono fun hp => ?_⟩
      -- With a further step the second run is longer than the first one.
      have hlength := congrArg List.length hp.2
      have hle := hfills.length_le
      simp only [List.length_cons] at hlength
      omega

/-- The client is no longer interested in a request. -/
def cancelling (sur : Surroundings) (params : Json) : Incident :=
  .event (.received sur (.notification "$/cancelRequest" params))

theorem ofParams_cancelRequest (params : Json) :
    (∃ id, Notification.ofParams "$/cancelRequest" params = .cancel id) ∨
      Notification.ofParams "$/cancelRequest" params = .ignored := by
  show (∃ id, (Notification.cancel? params).getD .ignored = .cancel id) ∨ (Notification.cancel? params).getD .ignored = _
  cases hread : Notification.cancel? params with
  | none => exact Or.inr rfl
  | some n =>
    unfold Notification.cancel? at hread
    obtain ⟨members, _, hread⟩ := Option.bind_eq_some_iff.1 hread
    split at hread
    · obtain ⟨id, _, hid⟩ := Option.bind_eq_some_iff.1 hread
      exact Or.inl ⟨id, (Option.some.inj hid).symm⟩
    · cases hread

/-- A cancellation marks workers, whatever the state of the server is. -/
theorem parallel_cancelling (p : Prop) (s : Server) (sur : Surroundings) (params : Json) :
    (s.occur (cancelling sur params)).Parallel p s := by
  show (s.receive sur (.notification "$/cancelRequest" params)).Parallel p s
  unfold Server.receive
  split
  · exact .refl p s
  · show (s.onNotification (.ofParams "$/cancelRequest" params)).Parallel p s
    rcases ofParams_cancelRequest params with ⟨id, hcancel⟩ | hignored
    · rw [hcancel]
      show (if s.session.state.isReady = true then s.cancelWorkers (· == id) else s).Parallel p s
      split
      · exact parallel_cancelWorkers s (· == id)
      · exact .refl p s
    · rw [hignored]
      show (if s.session.state.isReady = true then s else s).Parallel p s
      rw [ite_self]
      exact .refl p s

theorem Parallel.ids (h : s.Parallel p t) : t.workers.map (·.id) = s.workers.map (·.id) := by
  have hworkers := h.workers
  generalize s.workers = vs at hworkers
  generalize t.workers = ws at hworkers
  induction hworkers with
  | nil => rfl
  | cons hvw _ ih => rw [List.map_cons, List.map_cons, hvw.id, ih]

/-- **Every request is answered once.** In every run that has not come to `exit`, the responses and the workers that
still owe one are for the requests received, each as often as it came; when the workers find their answers and respond,
the responses alone are. And a cancellation that is left out of a run, however the run goes on, changes the responses
only so that some results are not cut short. -/
theorem requests_answered (base : Config) :
    (∀ is, ((start base).pass is).isStopped = false →
      (((start base).pass is).responses.map (·.id) ++ ((start base).pass is).workers.map (·.id)).Perm (requested is)) ∧
    (∀ is sur, ((start base).pass is).isStopped = false →
      ((start base).pass (is ++ ((start base).pass is).finish sur)).workers = [] ∧
      (((start base).pass (is ++ ((start base).pass is).finish sur)).responses.map (·.id)).Perm (requested is)) ∧
    ∀ done sur params is sur', ∃ js, Fills sur' is js ∧
      List.Forall₂ (CutShort (js = is)) ((start base).pass (done ++ cancelling sur params :: is)).responses
        ((start base).pass (done ++ js)).responses ∧
      ((start base).pass (done ++ js)).workers.map (·.id) =
        ((start base).pass (done ++ cancelling sur params :: is)).workers.map (·.id) := by
  have hroster : ∀ s : Server, s.roster.map (·.2) = s.workers.map (·.id) := fun s => List.map_map
  have hall : ∀ is, ((start base).pass is).isStopped = false →
      (((start base).pass is).responses.map (·.id) ++ ((start base).pass is).workers.map (·.id)).Perm
        (requested is) := by
    intro is hstopped
    rw [← hroster]
    exact (accounted_pass base is hstopped).accounts
  refine ⟨hall, fun is sur hstopped => ?_, fun done sur params is sur' => ?_⟩
  · have hworkers : ((start base).pass (is ++ ((start base).pass is).finish sur)).workers = [] := by
      rw [pass_append]
      exact workers_finish _ sur
    have hstopped' : ((start base).pass (is ++ ((start base).pass is).finish sur)).isStopped = false := by
      rw [pass_append]
      exact (isStopped_finishing sur _ _).trans hstopped
    refine ⟨hworkers, ?_⟩
    have haccounts := hall _ hstopped'
    rwa [hworkers, List.map_nil, List.append_nil, requested_append, finish, requested_finishing,
      List.append_nil] at haccounts
  · have hcancel := parallel_cancelling True ((start base).pass done) sur params
    obtain ⟨js, hfills, hjs⟩ := hcancel.pass sur' is
    refine ⟨js, hfills, ?_⟩
    rw [pass_append, pass_append]
    exact ⟨(hjs.mono fun h => ⟨trivial, h⟩).responses, hjs.ids⟩

/-! ## An identifier that is used twice -/

def asked (id : Int) (method : String) (params : Json) : Incident :=
  .event (.received bare (.request (.number id) method params))

/-- What is shown at the beginning of `main.lg`. -/
def hovered (id : Int) : Incident :=
  asked id "textDocument/hover" (.obj [("textDocument", .obj [("uri", .str "file:///main.lg")]),
    ("position", .obj [("line", .int 0), ("character", .int 0)])])

/-- A client uses an identifier again while the first request is at work, and cancels. Of the two workers, the second one
is cancelled and responds before it has an answer. -/
def askedTwice : List Incident :=
  [asked 1 "initialize" (.obj [("capabilities", .obj [])]), .event (told "initialized" (.obj [])),
    .event (openedMain "# Main\n- hi"), hovered 2, hovered 2, cancelling bare (.obj [("id", .int 2)]),
    .event (.responded 1), .event (.answered bare 0), .event (.responded 0), asked 3 "unknown" .null,
    asked 4 "shutdown" .null, hovered 5]

theorem requests_answered_askedTwice :
    ((start .default).pass askedTwice).workers.length = 0 ∧
      ((start .default).pass askedTwice).responses.map (·.result.isOk) = [false, true, false, true, false, true] ∧
      (((start .default).pass askedTwice).responses.map (·.id) ++
        ((start .default).pass askedTwice).workers.map (·.id)).Perm
          [.number 1, .number 2, .number 2, .number 3, .number 4, .number 5] ∧
      (((start .default).pass (askedTwice.take 6 ++ ((start .default).pass (askedTwice.take 6)).finish bare)).responses.map
        (·.id)).Perm [.number 1, .number 2, .number 2] :=
  ⟨by decide +kernel, by decide +kernel, (requests_answered .default).1 askedTwice (by decide +kernel),
    ((requests_answered .default).2.1 (askedTwice.take 6) bare (by decide +kernel)).2⟩

end LgLang.Server
