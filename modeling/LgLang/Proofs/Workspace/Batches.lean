import LgLang.Proofs.Workspace.Following

/-!
# Batches of changes

A batch is taken exactly when its changes could be made one at a time, each of them as a batch of its own, and it leaves
the text that they leave (`change_eq_ok_iff`). Nothing of a batch that is refused is kept. As long as a document is
neither closed nor opened again, every batch that is taken gives it a newer version than it ever had
(`pairwise_taken`), and what happens to one document leaves the others alone (`get?_step_of_ne`).
-/

namespace LgLang.Workspace

/-- The changes are made one at a time, each as a batch of its own under some version that is taken. -/
inductive OneByOne (u : Uri) : Document → List Change → Document → Prop where
  | nil (d : Document) : OneByOne u d [] d
  | cons {d mid last : Document} {c : Change} {changes : List Change} {version : Int}
      (hfirst : d.change u version [c] = .ok mid) (hrest : OneByOne u mid changes last) :
      OneByOne u d (c :: changes) last

variable {d last new : Document} {u v : Uri} {version : Int} {changes : List Change}

theorem applyAll_singleton (c : Change) (cs : List Char) : applyAll cs [c] = c.apply cs := by
  unfold applyAll
  rw [List.foldlM_cons]
  cases c.apply cs <;> rfl

theorem applyAll_cons_ok {c : Change} {cs mid : List Char} (h : c.apply cs = .ok mid) (changes : List Change) :
    applyAll cs (c :: changes) = applyAll mid changes := by
  unfold applyAll
  rw [List.foldlM_cons, h]
  rfl

/-- Changes that are made one at a time lead to the text that they lead to together. -/
theorem OneByOne.applyAll_eq (h : OneByOne u d changes last) :
    applyAll d.content.toList changes = .ok last.content.toList ∧ last.language = d.language := by
  induction h with
  | nil d => exact ⟨rfl, rfl⟩
  | cons hfirst _ ih =>
    obtain ⟨_, cs, hcs, rfl⟩ := Document.change_eq_ok_iff_applyAll.1 hfirst
    rw [applyAll_singleton] at hcs
    rw [String.toList_ofList] at ih
    rw [applyAll_cons_ok hcs]
    exact ih

theorem exists_oneByOne {cs : List Char} (h : applyAll d.content.toList changes = .ok cs) :
    ∃ last, OneByOne u d changes last ∧ last.content = String.ofList cs := by
  induction changes generalizing d with
  | nil =>
    obtain rfl : d.content.toList = cs := Except.ok.inj h
    exact ⟨d, .nil d, String.ofList_toList.symm⟩
  | cons c changes ih =>
    cases happly : c.apply d.content.toList with
    | error p =>
      unfold applyAll at h
      rw [List.foldlM_cons, happly] at h
      cases h
    | ok mid =>
      -- Any newer version will do for the change alone.
      have hfirst : d.change u (d.version + 1) [c] =
          .ok { d with version := d.version + 1, content := String.ofList mid } := by
        refine Document.change_eq_ok_iff_applyAll.2 ⟨Int.lt_succ d.version, mid, ?_, rfl⟩
        rw [applyAll_singleton, happly]
      rw [applyAll_cons_ok happly] at h
      obtain ⟨last, hrest, hcontent⟩ :=
        ih (d := { d with version := d.version + 1, content := String.ofList mid }) (by rwa [String.toList_ofList])
      exact ⟨last, .cons hfirst hrest, hcontent⟩

/-- **A batch is taken exactly when it is newer and its changes can be made one at a time.** It leaves what they leave,
under its own version. -/
theorem Document.change_eq_ok_iff :
    d.change u version changes = .ok new ↔
      d.version < version ∧ ∃ last, OneByOne u d changes last ∧ new = { last with version } := by
  rw [change_eq_ok_iff_applyAll]
  refine and_congr_right fun _ => ⟨?_, ?_⟩
  · rintro ⟨cs, hcs, rfl⟩
    obtain ⟨last, hlast, hcontent⟩ := exists_oneByOne (u := u) hcs
    refine ⟨last, hlast, ?_⟩
    rw [← hcontent, ← hlast.applyAll_eq.2]
  · rintro ⟨last, hlast, rfl⟩
    obtain ⟨happly, hlanguage⟩ := hlast.applyAll_eq
    refine ⟨_, happly, ?_⟩
    rw [String.ofList_toList, ← hlanguage]

namespace Documents

variable {ds ds' : Documents}

/-- The same for the open documents. -/
theorem change_eq_ok_iff :
    ds.change u version changes = .ok ds' ↔
      ∃ d, ds.get? u = some d ∧ d.version < version ∧
        ∃ last, OneByOne u d changes last ∧ ds' = ds.opened u { last with version } := by
  rw [change_eq_ok_iff_document]
  refine exists_congr fun d => ?_
  constructor
  · rintro ⟨new, hget, hchange, rfl⟩
    obtain ⟨hnewer, last, hlast, rfl⟩ := Document.change_eq_ok_iff.1 hchange
    exact ⟨hget, hnewer, last, hlast, rfl⟩
  · rintro ⟨hget, hnewer, last, hlast, rfl⟩
    exact ⟨_, hget, Document.change_eq_ok_iff.2 ⟨hnewer, last, hlast, rfl⟩, rfl⟩

/-! ## Runs -/

/-- What can happen to documents. -/
inductive Event where
  | opened (u : Uri) (d : Document)
  | changed (u : Uri) (version : Int) (changes : List Change)
  | closed (u : Uri)

/-- The document that an event is about. -/
def Event.uri : Event → Uri
  | .opened u _ => u
  | .changed u _ _ => u
  | .closed u => u

def Event.isChange : Event → Bool
  | .changed .. => true
  | _ => false

/-- The documents behind an event. A batch that is refused leaves them as they are. -/
def step (ds : Documents) : Event → Documents
  | .opened u d => ds.opened u d
  | .changed u version changes =>
    match ds.change u version changes with
    | .ok ds' => ds'
    | .error _ => ds
  | .closed u => ds.close u

def run (ds : Documents) (es : List Event) : Documents :=
  es.foldl step ds

/-- The version that an event gives to a document by a batch that is taken. -/
def taken? (ds : Documents) (u : Uri) : Event → Option Int
  | .changed v version changes => if v = u ∧ (ds.change v version changes).isOk = true then some version else none
  | _ => none

/-- The versions under which batches of a document are taken in a run. -/
def taken (u : Uri) : Documents → List Event → List Int
  | _, [] => []
  | ds, e :: es => (ds.taken? u e).toList ++ taken u (ds.step e) es

/-- What happens to one document leaves the others as they are. -/
theorem get?_step_of_ne (ds : Documents) {e : Event} (h : e.uri ≠ v) : (ds.step e).get? v = ds.get? v := by
  cases e with
  | opened u d => exact (get?_opened ds u d v).trans (if_neg h)
  | closed u => exact (get?_close ds u v).trans (if_neg h)
  | changed u version changes =>
    unfold step
    cases hchange : ds.change u version changes with
    | error _ => simp only [hchange]
    | ok ds' =>
      obtain ⟨d, _, _, last, _, rfl⟩ := change_eq_ok_iff.1 hchange
      simp only [hchange]
      exact (get?_opened ds u _ v).trans (if_neg h)

/-- What an event does to an open document that it neither opens nor closes. -/
inductive Passes (ds : Documents) (u : Uri) (d : Document) (e : Event) : Prop where
  | left (htaken : ds.taken? u e = none) (hget : (ds.step e).get? u = some d)
  | taken (new : Document) (htaken : ds.taken? u e = some new.version) (hnewer : d.version < new.version)
      (hget : (ds.step e).get? u = some new)

theorem passes_step (hget : ds.get? u = some d) {e : Event} (he : e.uri = u → e.isChange = true) :
    ds.Passes u d e := by
  by_cases hu : e.uri = u
  · subst hu
    cases e with
    | opened _ _ => cases he rfl
    | closed _ => cases he rfl
    | changed v version changes =>
      cases hchange : ds.change v version changes with
      | error _ =>
        refine .left ?_ ?_
        · simp [taken?, hchange, Except.isOk, Except.toBool]
        · simpa only [step, hchange] using hget
      | ok ds' =>
        obtain ⟨d', hget', hnewer, last, _, rfl⟩ := change_eq_ok_iff.1 hchange
        obtain rfl : d' = d := Option.some.inj (hget'.symm.trans hget)
        refine .taken { last with version } ?_ hnewer ?_
        · simp [taken?, hchange, Except.isOk, Except.toBool, Event.uri]
        · simp only [step, hchange]
          exact (get?_opened ds v _ v).trans (if_pos rfl)
  · refine .left ?_ ((get?_step_of_ne ds hu).trans hget)
    cases e with
    | opened _ _ | closed _ => rfl
    | changed v version changes => exact if_neg fun h => hu h.1

/-- **The versions of a document increase with every batch that is taken,** until it is opened again or closed. -/
theorem pairwise_taken (es : List Event) (hget : ds.get? u = some d) (hes : ∀ e ∈ es, e.uri = u → e.isChange = true) :
    (d.version :: taken u ds es).Pairwise (· < ·) ∧
      ∃ last, (ds.run es).get? u = some last ∧ last.version = (taken u ds es).getLastD d.version := by
  induction es generalizing ds d with
  | nil => exact ⟨List.pairwise_singleton _ _, d, hget, rfl⟩
  | cons e es ih =>
    have hlater : ∀ e ∈ es, e.uri = u → e.isChange = true := fun e he => hes e (List.mem_cons_of_mem _ he)
    unfold Documents.taken
    cases passes_step hget (hes e List.mem_cons_self) with
    | left htaken hget' =>
      rw [htaken]
      exact ih hget' hlater
    | taken new htaken hnewer hget' =>
      obtain ⟨hpairwise, last, hlast, hversion⟩ := ih hget' hlater
      rw [htaken]
      refine ⟨List.pairwise_cons.2 ⟨?_, hpairwise⟩, last, hlast, ?_⟩
      · intro version hmem
        rcases List.mem_cons.1 hmem with rfl | hmem
        · exact hnewer
        · exact Int.lt_trans hnewer ((List.pairwise_cons.1 hpairwise).1 version hmem)
      · rw [hversion, Option.toList_some, List.singleton_append, List.getLastD_cons]

/-- **A batch is its changes one after another, all of them or none.** It is taken exactly when the document is open at an
older version and each change could be made alone where the one before it leaves off; then it leaves their text under
its own version. Otherwise no document changes. Until a document is opened again or closed, its versions increase, and
what happens to one document leaves the others alone. -/
theorem batches_allOrNothing (ds : Documents) (u : Uri) (version : Int) (changes : List Change) :
    ((∃ ds', ds.change u version changes = .ok ds') ↔
        ∃ d, ds.get? u = some d ∧ d.version < version ∧ ∃ last, OneByOne u d changes last) ∧
      (∀ d last, ds.get? u = some d → d.version < version → OneByOne u d changes last →
        (ds.step (.changed u version changes)).get? u = some { last with version }) ∧
      ((∀ ds', ds.change u version changes ≠ .ok ds') → ds.step (.changed u version changes) = ds) ∧
      (∀ d es, ds.get? u = some d → (∀ e ∈ es, e.uri = u → e.isChange = true) →
        (d.version :: taken u ds es).Pairwise (· < ·) ∧
          ∃ last, (ds.run es).get? u = some last ∧ last.version = (taken u ds es).getLastD d.version) ∧
      ∀ e v, e.uri ≠ v → (ds.step e).get? v = ds.get? v := by
  refine ⟨⟨?_, ?_⟩, ?_, ?_, fun d es hget hes => pairwise_taken es hget hes, fun e v he => get?_step_of_ne ds he⟩
  · rintro ⟨ds', h⟩
    obtain ⟨d, hget, hnewer, last, hlast, -⟩ := change_eq_ok_iff.1 h
    exact ⟨d, hget, hnewer, last, hlast⟩
  · rintro ⟨d, hget, hnewer, last, hlast⟩
    exact ⟨_, change_eq_ok_iff.2 ⟨d, hget, hnewer, last, hlast, rfl⟩⟩
  · intro d last hget hnewer hlast
    have hchange := change_eq_ok_iff.2 ⟨d, hget, hnewer, last, hlast, rfl⟩
    simp only [step, hchange]
    exact (get?_opened ds u _ u).trans (if_pos rfl)
  · intro hrefused
    cases hchange : ds.change u version changes with
    | ok ds' => exact absurd hchange (hrefused ds')
    | error _ => simp only [step, hchange]

/-- Two open documents. -/
def openBoth : Documents :=
  (empty.opened ⟨"file:///main.lg"⟩ ⟨1, "# A\n- 😀", "lg"⟩).opened ⟨"file:///lib.lg"⟩ ⟨4, "# B", "lg"⟩

/-- A title that becomes longer, and behind it, in the text with the new title, the end of its line. -/
def retitling : List Change :=
  [⟨some ⟨⟨0, 2⟩, ⟨0, 3⟩⟩, "Title"⟩, ⟨some ⟨⟨0, 7⟩, ⟨1, 2⟩⟩, "\n- so "⟩]

/-- One of the batches comes too late, and one of them names a line that the text does not have. -/
def edited : List Event :=
  [.changed ⟨"file:///main.lg"⟩ 3 retitling, .changed ⟨"file:///main.lg"⟩ 2 [⟨none, ""⟩], .closed ⟨"file:///lib.lg"⟩,
    .changed ⟨"file:///main.lg"⟩ 5 [⟨none, "# B"⟩, ⟨some ⟨⟨7, 0⟩, ⟨7, 0⟩⟩, "x"⟩],
    .changed ⟨"file:///main.lg"⟩ 8 [⟨none, "# C"⟩]]

theorem batches_allOrNothing_retitling :
    openBoth.get? ⟨"file:///main.lg"⟩ = some ⟨1, "# A\n- 😀", "lg"⟩ ∧
      (∃ last, OneByOne ⟨"file:///main.lg"⟩ ⟨1, "# A\n- 😀", "lg"⟩ retitling last ∧
        (openBoth.step (.changed ⟨"file:///main.lg"⟩ 3 retitling)).get? ⟨"file:///main.lg"⟩ =
          some { last with version := 3 }) ∧
      openBoth.step (.changed ⟨"file:///lib.lg"⟩ 4 retitling) = openBoth ∧
      (openBoth.step (.closed ⟨"file:///lib.lg"⟩)).get? ⟨"file:///main.lg"⟩ = openBoth.get? ⟨"file:///main.lg"⟩ ∧
      taken ⟨"file:///main.lg"⟩ openBoth edited = [3, 8] ∧ ([1, 3, 8] : List Int).Pairwise (· < ·) ∧
      ∃ last, (openBoth.run edited).get? ⟨"file:///main.lg"⟩ = some last ∧ last.version = 8 := by
  have hget : openBoth.get? ⟨"file:///main.lg"⟩ = some ⟨1, "# A\n- 😀", "lg"⟩ := by decide +kernel
  have htaken : taken ⟨"file:///main.lg"⟩ openBoth edited = [3, 8] := by decide +kernel
  have hedited : ∀ e ∈ edited, e.uri = ⟨"file:///main.lg"⟩ → e.isChange = true := by decide
  have haccepted : (openBoth.change ⟨"file:///main.lg"⟩ 3 retitling).isOk = true := by decide +kernel
  have hrefused : (openBoth.change ⟨"file:///lib.lg"⟩ 4 retitling).isOk = false := by decide +kernel
  obtain ⟨haccepts, hresult, -, hversions, hothers⟩ :=
    batches_allOrNothing openBoth ⟨"file:///main.lg"⟩ 3 retitling
  obtain ⟨-, -, hkeeps, -⟩ := batches_allOrNothing openBoth ⟨"file:///lib.lg"⟩ 4 retitling
  refine ⟨hget, ?_, hkeeps fun ds' h => ?_, hothers _ _ (by decide), htaken, ?_⟩
  · cases hchange : openBoth.change ⟨"file:///main.lg"⟩ 3 retitling with
    | error e => rw [hchange] at haccepted; cases haccepted
    | ok ds' =>
      obtain ⟨d, hget', hnewer, last, hlast⟩ := haccepts.1 ⟨ds', hchange⟩
      obtain rfl := Option.some.inj (hget.symm.trans hget')
      exact ⟨last, hlast, hresult _ last hget hnewer hlast⟩
  · rw [h] at hrefused
    cases hrefused
  · have hrun := hversions _ edited hget hedited
    rw [htaken] at hrun
    exact hrun

end Documents

end LgLang.Workspace
