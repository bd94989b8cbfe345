import LgLang.Proofs.Syntax.Bullets
import LgLang.Proofs.Syntax.Findings
import Mathlib.Computability.RegularExpressions

/-!
# Orders of bullets

The keywords of a body may come in some orders only, and texts may stand between them: this is a regular language over
the kinds of bullets (`Order.all`). A body that is being read does not look at what is still to come. It accepts a bullet
or reports it as misplaced by what it has read so far (`Draft.admits`, `Draft.add_reads`).

`Draft.outlook` is the order of what may still come. A bullet that is accepted leads to the derivative of the outlook by
its kind, and one that is reported has no place in it (`Draft.Reads.outlook`). So no bullet of a body is misplaced exactly
when the kinds of all are in order (`wellPlaced_bulletBody_iff`).
-/

namespace LgLang.Syntax

open Text (byteSize)
open RegularExpression (char star)

/-! ## Kinds of bullets -/

/-- The keyword that a bullet begins with. A text begins with none. -/
def Passage.keyword? (p : Passage) : Option Keyword :=
  (Keyword.detect? p.text).map fun found => found.1

/-- The text line that a bullet without keyword is. -/
def Passage.line (p : Passage) : TextLine :=
  .ofText p.start p.text

/-- The kinds of the bullets among groups of lines, in order. -/
def bulletKinds (items : List BodyItem) : List (Option Keyword) :=
  (items.filterMap BodyItem.passage?).map Passage.keyword?

/-- A language of kinds. -/
abbrev Order := RegularExpression (Option Keyword)

namespace Order

def texts : Order :=
  star (char none)

/-- A keyword and the texts below it. -/
def branch (k : Keyword) : Order :=
  char (some k) * texts

/-- What may follow the IF branch of a conditional block: ELSEIF branches, and an ELSE branch at the end. -/
def furtherBranches : Order :=
  star (branch .elseWhen) * (1 + branch .otherwise)

/-- What may follow the first case of a switch block: cases, and a DEFAULT at the end. -/
def furtherCases : Order :=
  star (branch .case) * (1 + branch .fallback)

def cases : Order :=
  branch .case * furtherCases

/-- The orders of bullets: texts; a conditional block; a switch block, with cases or without. -/
def all : Order :=
  texts + branch .when * furtherBranches + char (some .switch) * (1 + cases)

variable {P Q : Order} {k : Keyword} {kind other : Option Keyword} {kinds : List (Option Keyword)}

/-- The sequences that are in order behind a bullet of that kind. -/
def behind (P : Order) (kind : Option Keyword) : Language (Option Keyword) :=
  (P.deriv kind).matches'

theorem mem_cons : kind :: kinds ∈ P.matches' ↔ kinds ∈ behind P kind := by
  unfold behind
  rw [← RegularExpression.rmatch_iff_matches', ← RegularExpression.rmatch_iff_matches', RegularExpression.rmatch]

theorem nil_mem (h : P.matchEpsilon = true) : [] ∈ P.matches' := by
  rwa [← RegularExpression.rmatch_iff_matches', RegularExpression.rmatch]

/-! ### One bullet -/

theorem behind_add : behind (P + Q) kind = behind P kind + behind Q kind := rfl

theorem behind_one : behind 1 kind = 0 := rfl

theorem behind_char : behind (char kind) other = if other = kind then 1 else 0 := by
  by_cases h : other = kind
  · simp [behind, h]
  · simp [behind, h, Ne.symm h]

theorem behind_star : behind (star P) kind = behind P kind * (star P).matches' := rfl

theorem behind_mul (h : P.matchEpsilon = false) : behind (P * Q) kind = behind P kind * Q.matches' := by
  simp [behind, RegularExpression.deriv, h]

theorem behind_mul_of_nullable (h : P.matchEpsilon = true) :
    behind (P * Q) kind = behind P kind * Q.matches' + behind Q kind := by
  simp [behind, RegularExpression.deriv, h]

@[simp] theorem behind_texts : behind texts kind = if kind = none then texts.matches' else 0 := by
  rw [texts, behind_star, behind_char]
  split
  · rw [one_mul]
  · rw [zero_mul]

@[simp] theorem behind_texts_mul :
    behind (texts * P) kind = (if kind = none then (texts * P).matches' else 0) + behind P kind := by
  rw [behind_mul_of_nullable rfl, behind_texts]
  split
  · rfl
  · rw [zero_mul]

theorem behind_keyword_mul : behind (char (some k) * P) kind = if kind = some k then P.matches' else 0 := by
  rw [behind_mul rfl, behind_char]
  split
  · rw [one_mul]
  · rw [zero_mul]

@[simp] theorem behind_branch : behind (branch k) kind = if kind = some k then texts.matches' else 0 :=
  behind_keyword_mul

@[simp] theorem behind_branch_mul : behind (branch k * P) kind = if kind = some k then (texts * P).matches' else 0 := by
  rw [behind_mul rfl, behind_branch]
  split
  · rfl
  · rw [zero_mul]

/-- Branches of one keyword may follow, and one of another at the end. -/
theorem behind_branches {last : Keyword} :
    behind (star (branch k) * (1 + branch last)) kind =
      (if kind = some k then (texts * (star (branch k) * (1 + branch last))).matches' else 0) +
        if kind = some last then texts.matches' else 0 := by
  rw [behind_mul_of_nullable rfl, behind_star, behind_add, behind_one, zero_add, behind_branch, behind_branch, mul_assoc]
  split
  · rfl
  · rw [zero_mul]

@[simp] theorem behind_furtherBranches :
    behind furtherBranches kind =
      (if kind = some .elseWhen then (texts * furtherBranches).matches' else 0) +
        if kind = some .otherwise then texts.matches' else 0 :=
  behind_branches

@[simp] theorem behind_furtherCases :
    behind furtherCases kind =
      (if kind = some .case then (texts * furtherCases).matches' else 0) +
        if kind = some .fallback then texts.matches' else 0 :=
  behind_branches

@[simp] theorem behind_cases : behind cases kind = if kind = some .case then (texts * furtherCases).matches' else 0 :=
  behind_branch_mul

@[simp] theorem behind_all :
    behind all kind =
      (if kind = none then texts.matches' else 0) +
          (if kind = some .when then (texts * furtherBranches).matches' else 0) +
        if kind = some .switch then (1 + cases).matches' else 0 := by
  rw [all, behind_add, behind_add, behind_texts, behind_branch_mul, behind_keyword_mul]

end Order

/-! ## What a body accepts -/

/-- How far a body is, by what may follow: anything; texts only; branches after an IF; the first case; cases after it. -/
inductive Stage where
  | undecided
  | closed
  | branches
  | subject
  | cases
  deriving DecidableEq, Repr

namespace Stage

/-- Whether a bullet of that kind can follow. -/
def admits : Stage → Option Keyword → Bool
  | .subject, none => false
  | _, none => true
  | .undecided, some .when | .undecided, some .switch => true
  | .branches, some .elseWhen | .branches, some .otherwise => true
  | .subject, some .case => true
  | .cases, some .case | .cases, some .fallback => true
  | _, some _ => false

/-- The stage behind a bullet that can follow. -/
def next : Stage → Option Keyword → Stage
  | .undecided, none => .closed
  | s, none => s
  | _, some .when | _, some .elseWhen => .branches
  | _, some .otherwise | _, some .fallback => .closed
  | _, some .switch => .subject
  | _, some .case => .cases

/-- The kinds that may follow. -/
def outlook : Stage → Order
  | .undecided => .all
  | .closed => .texts
  | .branches => .texts * .furtherBranches
  | .subject => 1 + .cases
  | .cases => .texts * .furtherCases

variable {s : Stage} {kind : Option Keyword} {kinds : List (Option Keyword)}

theorem nil_mem_outlook (s : Stage) : [] ∈ s.outlook.matches' := by
  apply Order.nil_mem
  cases s <;> rfl

/-- **What is in order behind a bullet that can follow is the outlook of the next stage, and behind any other nothing
is.** -/
theorem behind_outlook (s : Stage) (kind : Option Keyword) :
    Order.behind s.outlook kind = if s.admits kind then (s.next kind).outlook.matches' else 0 := by
  cases kind with
  | none => cases s <;> simp [outlook, admits, next, Order.behind_add, Order.behind_one]
  | some k =>
    cases s with
    | undecided => cases k <;> simp [outlook, admits, next]
    | closed => cases k <;> simp [outlook, admits]
    | branches => cases k <;> simp [outlook, admits, next]
    | subject => cases k <;> simp [outlook, admits, next, Order.behind_add, Order.behind_one]
    | cases => cases k <;> simp [outlook, admits, next]

theorem cons_mem_outlook :
    kind :: kinds ∈ s.outlook.matches' ↔ s.admits kind = true ∧ kinds ∈ (s.next kind).outlook.matches' := by
  rw [Order.mem_cons, behind_outlook]
  by_cases h : s.admits kind = true
  · simp [h]
  · simp only [h, Bool.false_eq_true, if_false, false_and, iff_false]
    exact Language.notMem_zero kinds

end Stage

namespace Draft

variable {d : Draft} {k : Keyword}

def stage : Draft → Stage
  | .undecided => .undecided
  | .text _ => .closed
  | .conditional bs => if bs.any (·.kind == .otherwise) then .closed else .branches
  | .switch b => if b.fallback.isSome then .closed else if b.cases.isEmpty then .subject else .cases

/-- A keyword is misplaced where it cannot follow. -/
theorem isNone_misplacement? (d : Draft) (k : Keyword) : (d.misplacement? k).isNone = d.stage.admits (some k) := by
  cases d with
  | undecided => cases k <;> rfl
  | text ls => cases k <;> rfl
  | conditional bs =>
    by_cases hlast : bs.any (·.kind == .otherwise) = true
    · cases k <;> simp only [stage, misplacement?, if_pos hlast] <;> rfl
    · cases k <;> simp only [stage, misplacement?, if_neg hlast] <;> rfl
  | switch b =>
    by_cases hfallback : b.fallback.isSome = true
    · cases k <;> simp only [stage, misplacement?, if_pos hfallback] <;> rfl
    · by_cases hcases : b.cases.isEmpty = true
      · cases k <;> simp only [stage, misplacement?, if_neg hfallback, if_pos hcases] <;> rfl
      · cases k <;> simp only [stage, misplacement?, if_neg hfallback, if_neg hcases] <;> rfl

/-- A keyword that can follow leads to the next stage. -/
theorem stage_addKeyword (h : d.stage.admits (some k) = true) (expression : Option Segment) (span : Span) :
    (d.addKeyword k expression span).stage = d.stage.next (some k) := by
  cases d with
  | undecided =>
    cases k with
    | when | switch => rfl
    | elseWhen | otherwise | case | fallback => cases h
  | text ls => cases k <;> cases h
  | conditional bs =>
    by_cases hlast : bs.any (·.kind == .otherwise) = true
    · rw [stage, if_pos hlast] at h
      cases k <;> cases h
    · have hstage : (conditional bs).stage = .branches := if_neg hlast
      rw [hstage] at h ⊢
      cases k with
      | elseWhen => simpa [addKeyword, addBranch, stage, Stage.next] using hlast
      | otherwise => simp [addKeyword, addBranch, stage, Stage.next]
      | when | switch | case | fallback => cases h
  | switch b =>
    by_cases hfallback : b.fallback.isSome = true
    · rw [stage, if_pos hfallback] at h
      cases k <;> cases h
    · cases k with
      | case => simpa [addKeyword, updateSwitch, stage, Stage.next] using hfallback
      | fallback =>
        rw [addKeyword]
        simp [updateSwitch, stage, Stage.next]
      | when | elseWhen | otherwise | switch =>
        by_cases hcases : b.cases.isEmpty = true
        · rw [stage, if_neg hfallback, if_pos hcases] at h
          cases h
        · rw [stage, if_neg hfallback, if_neg hcases] at h
          cases h

theorem isEmpty_mapLast {α : Type} (change : α → α) (as : List α) : (mapLast change as).isEmpty = as.isEmpty := by
  cases as with
  | nil => rfl
  | cons a as => cases as <;> rfl

/-- Where no text can stand, a text is reported and changes nothing. -/
theorem addText_of_not_admits (h : d.stage.admits none = false) (line : TextLine) :
    ∃ message, d.addText line = (d, [.error .misplacedKeyword line.span message]) := by
  cases d with
  | undecided => cases h
  | text ls => cases h
  | conditional bs =>
    simp only [stage] at h
    split at h <;> cases h
  | switch b =>
    simp only [stage] at h
    split at h
    · cases h
    · next hfallback =>
      split at h
      · next hcases =>
        refine ⟨"text inside a switch block must follow a CASE or DEFAULT", ?_⟩
        have hnone : b.fallback = none := by simpa using hfallback
        simp [addText, addToSwitch?, hnone, hcases]
      · cases h

/-- A text that has a place is not reported and leads to the next stage. -/
theorem addText_of_admits (h : d.stage.admits none = true) (line : TextLine) :
    (d.addText line).2 = [] ∧ (d.addText line).1.stage = d.stage.next none := by
  cases d with
  | undecided => exact ⟨rfl, rfl⟩
  | text ls => exact ⟨rfl, rfl⟩
  | conditional bs =>
    refine ⟨rfl, ?_⟩
    rcases List.eq_nil_or_concat' bs with rfl | ⟨init, b, rfl⟩
    · rfl
    · simp only [addText, stage, mapLast_append_singleton, List.any_append, List.any_cons]
      split <;> rfl
  | switch b =>
    cases hfallback : b.fallback with
    | some f => simp [addText, addToSwitch?, hfallback, stage, Stage.next]
    | none =>
      cases hcases : b.cases.isEmpty with
      | true =>
        simp only [stage, hfallback, hcases] at h
        cases h
      | false => simp [addText, addToSwitch?, hfallback, hcases, stage, isEmpty_mapLast, Stage.next]

end Draft

/-! ## What reading a bullet does -/

/-- No finding is about a misplaced bullet. -/
def WellPlaced (findings : List Diagnostic) : Prop :=
  ∀ f ∈ findings, f.code ≠ .misplacedKeyword

/-- A finding tells that what stands there is misplaced. -/
def Misplaced (findings : List Diagnostic) (place : Span) : Prop :=
  ∃ f ∈ findings, f.code = .misplacedKeyword ∧ f.span = place

section

variable {findings more : List Diagnostic} {place : Span}

theorem wellPlaced_append : WellPlaced (findings ++ more) ↔ WellPlaced findings ∧ WellPlaced more :=
  List.forall_mem_append

theorem Misplaced.not_wellPlaced (h : Misplaced findings place) : ¬ WellPlaced findings := by
  intro hall
  obtain ⟨f, hf, hcode, -⟩ := h
  exact hall f hf hcode

theorem Misplaced.mono (h : Misplaced findings place) (hsub : findings ⊆ more) : Misplaced more place := by
  obtain ⟨f, hf, hfound⟩ := h
  exact ⟨f, hsub hf, hfound⟩

theorem textDiagnostics_wellPlaced (start : Nat) (cs : List Char) : WellPlaced (textDiagnostics start cs) := by
  intro f hf
  obtain ⟨t, -, ht⟩ := List.mem_filterMap.1 hf
  cases t with
  | segment s => cases ht
  | reference r => cases ht
  | unterminated span =>
    obtain rfl := Option.some.inj ht
    exact DiagnosticCode.noConfusion

theorem branchExpression_wellPlaced (k : Keyword) (start : Nat) (rest : List Char) (span : Span) :
    WellPlaced (branchExpression k start rest span).2 := by
  have hscan := textDiagnostics_wellPlaced start rest
  have hone : ∀ message, WellPlaced [.error .invalidCondition span message] := by
    intro message f hf
    rw [List.mem_singleton.1 hf]
    exact DiagnosticCode.noConfusion
  simp only [branchExpression]
  split
  · split
    · exact hscan
    · split
      · exact hone _
      · exact hscan
  · split
    · exact hscan
    · exact wellPlaced_append.2 ⟨hscan, hone _⟩

theorem emptyBranches_wellPlaced (d : Draft) : WellPlaced d.emptyBranches := by
  intro f hf
  cases d with
  | undecided => cases hf
  | text ls => cases hf
  | conditional bs =>
    obtain ⟨b, -, -, rfl⟩ := Draft.mem_emptyBranches_conditional.1 hf
    exact DiagnosticCode.noConfusion
  | switch b =>
    rcases Draft.mem_emptyBranches_switch.1 hf with ⟨c, -, -, rfl⟩ | ⟨g, -, -, rfl⟩
    · exact DiagnosticCode.noConfusion
    · exact DiagnosticCode.noConfusion

end

/-- What reading a group of lines does: a bullet that can stand there goes into the body; any other is reported, and
either opens a branch all the same or is dropped. -/
inductive Draft.Reads (d : Draft) : BodyItem → Draft × List Diagnostic → Prop where
  | stray {span : Span} {findings : List Diagnostic} (hfindings : WellPlaced findings) :
      d.Reads (.stray span) (d, findings)
  | text {p : Passage} {findings : List Diagnostic} (hkind : p.keyword? = none) (hplace : d.stage.admits none = true)
      (hfindings : WellPlaced findings) : d.Reads (.bullet p.start p.text) ((d.addText p.line).1, findings)
  | lost {p : Passage} {findings : List Diagnostic} (hkind : p.keyword? = none) (hplace : d.stage.admits none = false)
      (hfindings : Misplaced findings p.span) : d.Reads (.bullet p.start p.text) (d, findings)
  | keyword {p : Passage} {findings : List Diagnostic} {k : Keyword} (expression : Option Segment)
      (hkind : p.keyword? = some k) (hplace : d.stage.admits (some k) = true) (hfindings : WellPlaced findings) :
      d.Reads (.bullet p.start p.text) (d.addKeyword k expression p.span, findings)
  | misplaced {p : Passage} {findings : List Diagnostic} {k : Keyword} (expression : Option Segment)
      (hkind : p.keyword? = some k) (hplace : d.stage.admits (some k) = false) (hopens : d.admitsMisplaced k = true)
      (hfindings : Misplaced findings p.span) :
      d.Reads (.bullet p.start p.text) (d.addKeyword k expression p.span, findings)
  | dropped {p : Passage} {findings : List Diagnostic} {k : Keyword} (hkind : p.keyword? = some k)
      (hplace : d.stage.admits (some k) = false) (hdrops : d.admitsMisplaced k = false)
      (hfindings : Misplaced findings p.span) : d.Reads (.bullet p.start p.text) (d, findings)

namespace Draft

variable {d : Draft} {p : Passage} {k : Keyword} {size : Nat} {rest : List Char}

theorem add_text (h : Keyword.detect? p.text = none) :
    d.add (.bullet p.start p.text) =
      ((d.addText p.line).1, textDiagnostics p.start p.text ++ (d.addText p.line).2) := by
  simp only [add, h]
  rfl

/-- A keyword that can stand where it does is not reported. -/
theorem add_keyword (h : Keyword.detect? p.text = some (k, size, rest)) (hplace : d.misplacement? k = none) :
    d.add (.bullet p.start p.text) =
      (d.addKeyword k (branchExpression k (p.start + size) rest p.span).1 p.span,
        (branchExpression k (p.start + size) rest p.span).2) := by
  simp only [add, h, hplace]
  rfl

/-- A misplaced keyword is reported before anything else. -/
theorem add_misplaced {m : Misplacement} (h : Keyword.detect? p.text = some (k, size, rest))
    (hplace : d.misplacement? k = some m) :
    d.add (.bullet p.start p.text) =
      if d.admitsMisplaced k then
        (d.addKeyword k (branchExpression k (p.start + size) rest p.span).1 p.span,
          .error .misplacedKeyword p.span m.message :: (branchExpression k (p.start + size) rest p.span).2)
      else (d, [.error .misplacedKeyword p.span m.message]) := by
  simp only [add, h, hplace]
  cases d.admitsMisplaced k <;> rfl

theorem add_reads (d : Draft) (item : BodyItem) : d.Reads item (d.add item) := by
  cases item with
  | stray span =>
    apply Reads.stray
    intro f hf
    rw [List.mem_singleton.1 hf]
    exact DiagnosticCode.noConfusion
  | bullet start text =>
    let p : Passage := ⟨start, text⟩
    show d.Reads (.bullet p.start p.text) (d.add (.bullet p.start p.text))
    cases hdetect : Keyword.detect? p.text with
    | none =>
      have hkind : p.keyword? = none := by rw [Passage.keyword?, hdetect, Option.map_none]
      rw [add_text hdetect]
      cases hplace : d.stage.admits none with
      | true =>
        rw [(addText_of_admits hplace p.line).1, List.append_nil]
        exact .text hkind hplace (textDiagnostics_wellPlaced _ _)
      | false =>
        obtain ⟨message, hadd⟩ := addText_of_not_admits hplace p.line
        rw [hadd]
        exact .lost hkind hplace ⟨_, List.mem_append_right _ (List.mem_singleton_self _), rfl, rfl⟩
    | some found =>
      obtain ⟨k, size, rest⟩ := found
      have hkind : p.keyword? = some k := by rw [Passage.keyword?, hdetect, Option.map_some]
      have hadmits := isNone_misplacement? d k
      cases hplace : d.misplacement? k with
      | none =>
        rw [hplace] at hadmits
        rw [add_keyword hdetect hplace]
        exact .keyword _ hkind hadmits.symm (branchExpression_wellPlaced _ _ _ _)
      | some m =>
        rw [hplace] at hadmits
        rw [add_misplaced hdetect hplace]
        cases hopens : d.admitsMisplaced k with
        | true => exact .misplaced _ hkind hadmits.symm hopens ⟨_, List.mem_cons_self, rfl, rfl⟩
        | false => exact .dropped hkind hadmits.symm hopens ⟨_, List.mem_singleton_self _, rfl, rfl⟩

end Draft

/-! ## Bodies in order -/

variable {d : Draft} {item : BodyItem} {items : List BodyItem} {result : Draft × List Diagnostic}

theorem bulletKinds_bullet (p : Passage) (items : List BodyItem) :
    bulletKinds (.bullet p.start p.text :: items) = p.keyword? :: bulletKinds items :=
  rfl

/-- **One bullet is not misplaced, and the rest is in order behind it, exactly when all are in order.** -/
theorem Draft.Reads.wellPlaced_iff (h : d.Reads item result) :
    WellPlaced result.2 ∧ bulletKinds items ∈ result.1.stage.outlook.matches' ↔
      bulletKinds (item :: items) ∈ d.stage.outlook.matches' := by
  -- A bullet that is reported cannot follow.
  have hnever : ∀ {p : Passage} {next : Draft} {findings : List Diagnostic}, d.stage.admits p.keyword? = false →
      Misplaced findings p.span →
        (WellPlaced findings ∧ bulletKinds items ∈ next.stage.outlook.matches' ↔
          bulletKinds (.bullet p.start p.text :: items) ∈ d.stage.outlook.matches') := by
    intro p next findings hplace hfindings
    rw [bulletKinds_bullet, Stage.cons_mem_outlook, hplace]
    constructor
    · intro hwell
      exact absurd hwell.1 hfindings.not_wellPlaced
    · intro hadmits
      cases hadmits.1
  cases h with
  | stray hfindings => exact and_iff_right hfindings
  | text hkind hplace hfindings =>
    rw [bulletKinds_bullet, hkind, Stage.cons_mem_outlook, and_iff_right hfindings, and_iff_right hplace,
      (addText_of_admits hplace _).2]
  | keyword expression hkind hplace hfindings =>
    rw [bulletKinds_bullet, hkind, Stage.cons_mem_outlook, and_iff_right hfindings, and_iff_right hplace,
      stage_addKeyword hplace]
  | lost hkind hplace hfindings => exact hnever (hkind ▸ hplace) hfindings
  | misplaced expression hkind hplace hopens hfindings => exact hnever (hkind ▸ hplace) hfindings
  | dropped hkind hplace hdrops hfindings => exact hnever (hkind ▸ hplace) hfindings

theorem Draft.wellPlaced_addAll_iff (d : Draft) (items : List BodyItem) :
    WellPlaced (d.addAll items).2 ↔ bulletKinds items ∈ d.stage.outlook.matches' := by
  induction items generalizing d with
  | nil => exact iff_of_true (List.forall_mem_nil _) (Stage.nil_mem_outlook _)
  | cons item items ih =>
    rw [← (d.add_reads item).wellPlaced_iff, ← ih]
    exact wellPlaced_append

/-- **No bullet of a body is misplaced exactly when their kinds are in order.** -/
theorem wellPlaced_bulletBody_iff (items : List BodyItem) :
    WellPlaced (bulletBody items).2 ↔ bulletKinds items ∈ Order.all.matches' := by
  refine wellPlaced_append.trans ?_
  rw [and_iff_left (emptyBranches_wellPlaced _)]
  exact Draft.wellPlaced_addAll_iff .undecided items

end LgLang.Syntax
