import LgLang.Proofs.Syntax.Bodies
import LgLang.Proofs.Syntax.Nesting
import LgLang.Proofs.Syntax.Scanning

/-!
# Expressions in brackets

A text may be read by two rules alone: a backslash escapes the character behind it, and a dollar sign with an opening
brace behind it opens an expression, which goes on to the first brace that balances it outside of strings. Square
brackets mean nothing to such a reader (`expressionsFrom`), and the expressions that `tokensFrom` finds and reports
should be the same.

They are not always, for a pair of brackets is passed as a whole, whatever is in it. The two readers find the same
expressions exactly when no pair of brackets that is passed has an expression in it (`scannedInFull_iff`). One move
behind a pair of brackets shows why (`scannedInFull_brackets`): what the second reader finds in the brackets begins
before anything that the first one finds behind them.
-/

namespace LgLang.Syntax

open Text (Stands byteSize)
open Nesting (opened)

variable {start s : Nat} {c : Char} {cs xs rest name after : List Char} {ts us : List Token}

/-! ## Reading by two rules -/

theorem length_look_rest (n : Nesting) (cs : List Char) : (look n cs).rest.length ≤ cs.length := by
  induction cs generalizing n with
  | nil => exact Nat.le_refl _
  | cons c cs ih =>
    have htail := ih (n.next c)
    simp only [look]
    split
    · exact Nat.le_refl _
    · split
      · exact Nat.le_succ _
      · exact Nat.le_succ_of_le htail

/-- The expressions of a text whose first byte has offset `start`, for a reader who knows of escapes and expressions
only. -/
def expressionsFrom (start : Nat) (cs : List Char) : List Token :=
  match cs with
  | [] => []
  | ['\\'] => []
  | '\\' :: c :: rest => expressionsFrom (start + 1 + c.utf8Size) rest
  | '$' :: '\x7b' :: rest =>
    have : (look opened rest).rest.length ≤ rest.length := length_look_rest opened rest
    let found := look opened rest
    if found.closed then
      .segment (segmentAt start found.content) :: expressionsFrom (start + byteSize found.content + 3) found.rest
    else
      .unterminated (unterminatedSpan start found.content) ::
        expressionsFrom (start + byteSize found.content + 2) found.rest
  | c :: rest => expressionsFrom (start + c.utf8Size) rest
termination_by cs.length
decreasing_by all_goals simp_all only [List.length_cons]; omega

theorem expressionsFrom_escape :
    expressionsFrom start ('\\' :: c :: rest) = expressionsFrom (start + 1 + c.utf8Size) rest := by
  rw [expressionsFrom]

theorem expressionsFrom_closed (h : (look opened rest).closed = true) :
    expressionsFrom start ('$' :: '\x7b' :: rest) =
      .segment (segmentAt start (look opened rest).content) ::
        expressionsFrom (start + byteSize (look opened rest).content + 3) (look opened rest).rest := by
  rw [expressionsFrom]
  simp only [if_pos h]

theorem expressionsFrom_open (h : (look opened rest).closed = false) :
    expressionsFrom start ('$' :: '\x7b' :: rest) =
      .unterminated (unterminatedSpan start (look opened rest).content) ::
        expressionsFrom (start + byteSize (look opened rest).content + 2) (look opened rest).rest := by
  rw [expressionsFrom]
  simp only [h, Bool.false_eq_true, if_false]

theorem expressionsFrom_other (hescape : c ≠ '\\') (hexpression : c = '$' → rest.head? ≠ some '\x7b') :
    expressionsFrom start (c :: rest) = expressionsFrom (start + c.utf8Size) rest := by
  rw [expressionsFrom]
  · rintro rfl
    exact absurd rfl hescape
  · intro d ds hc
    exact absurd hc hescape
  · rintro ds rfl rfl
    exact hexpression rfl rfl

/-! ## The same expressions -/

/-- Two lists of tokens have the same segments and the same open expressions. -/
def SameExpressions (ts us : List Token) : Prop :=
  ts.filterMap Token.segment? = us.filterMap Token.segment? ∧
    ts.filterMap Token.diagnostic? = us.filterMap Token.diagnostic?

/-- The segments of a text, and the findings about expressions in it that are not closed, are those of a reader who
knows of escapes and expressions only. -/
def ScannedInFull (start : Nat) (cs : List Char) : Prop :=
  (tokensFrom start cs).filterMap Token.segment? = (expressionsFrom start cs).filterMap Token.segment? ∧
    textDiagnostics start cs = (expressionsFrom start cs).filterMap Token.diagnostic?

namespace SameExpressions

variable {g : Segment} {r : Reference} {span : Span}

theorem segment_cons : SameExpressions (.segment g :: ts) (.segment g :: us) ↔ SameExpressions ts us := by
  simp [SameExpressions, Token.segment?, Token.diagnostic?, List.filterMap_cons]

theorem unterminated_cons :
    SameExpressions (.unterminated span :: ts) (.unterminated span :: us) ↔ SameExpressions ts us := by
  simp [SameExpressions, Token.segment?, Token.diagnostic?, List.filterMap_cons]

theorem reference_cons : SameExpressions (.reference r :: ts) us ↔ SameExpressions ts us := by
  simp [SameExpressions, Token.segment?, Token.diagnostic?, List.filterMap_cons]

/-- What is no reference is in both lists or in none, at one place at least. -/
theorem exists_mem_of_mem {u : Token} (h : SameExpressions ts us) (hu : u ∈ us) (hreference : u.reference? = none) :
    ∃ t ∈ ts, t.span = u.span := by
  cases u with
  | segment g =>
    have hmem : g ∈ us.filterMap Token.segment? := List.mem_filterMap.2 ⟨_, hu, rfl⟩
    rw [← h.1] at hmem
    exact ⟨_, Token.mem_of_mem_segments hmem, rfl⟩
  | reference r => cases hreference
  | unterminated span =>
    obtain ⟨d, hd⟩ : ∃ d, Token.diagnostic? (.unterminated span) = some d := ⟨_, rfl⟩
    have hspan : d.span = span := congrArg Diagnostic.span (Option.some.inj hd).symm
    have hmem : d ∈ us.filterMap Token.diagnostic? := List.mem_filterMap.2 ⟨_, hu, hd⟩
    rw [← h.2] at hmem
    obtain ⟨t, ht, hdiagnostic⟩ := List.mem_filterMap.1 hmem
    cases t with
    | segment g => cases hdiagnostic
    | reference r => cases hdiagnostic
    | unterminated span' =>
      exact ⟨_, ht, (congrArg Diagnostic.span (Option.some.inj hdiagnostic)).trans hspan⟩

end SameExpressions

/-! ## Behind each move -/

theorem scannedInFull_escape :
    ScannedInFull start ('\\' :: c :: rest) ↔ ScannedInFull (start + 1 + c.utf8Size) rest := by
  unfold ScannedInFull textDiagnostics
  rw [tokensFrom_escape, expressionsFrom_escape]

theorem scannedInFull_plain (h : Plain c rest) :
    ScannedInFull start (c :: rest) ↔ ScannedInFull (start + c.utf8Size) rest := by
  unfold ScannedInFull textDiagnostics
  rw [tokensFrom_plain h, expressionsFrom_other h.noEscape h.noExpression]

theorem scannedInFull_closed (h : (expressionEnd 1 none rest).closed = true) :
    ScannedInFull start ('$' :: '\x7b' :: rest) ↔
      ScannedInFull (start + byteSize (expressionEnd 1 none rest).content + 3) (expressionEnd 1 none rest).rest := by
  show SameExpressions _ _ ↔ SameExpressions _ _
  rw [tokensFrom_closed h]
  rw [expressionEnd_eq_look] at h ⊢
  rw [expressionsFrom_closed h]
  exact SameExpressions.segment_cons

theorem scannedInFull_open (h : (expressionEnd 1 none rest).closed = false) :
    ScannedInFull start ('$' :: '\x7b' :: rest) ↔
      ScannedInFull (start + byteSize (expressionEnd 1 none rest).content + 2) (expressionEnd 1 none rest).rest := by
  show SameExpressions _ _ ↔ SameExpressions _ _
  rw [tokensFrom_open h]
  rw [expressionEnd_eq_look] at h ⊢
  rw [expressionsFrom_open h]
  exact SameExpressions.unterminated_cons

/-! ### Behind a pair of brackets -/

/-- Where a text has no expression, reading goes on behind it: no bracket behind it completes an opening. -/
theorem expressionsFrom_append_of_nil (h : expressionsFrom start name = []) :
    expressionsFrom start (name ++ ']' :: after) = expressionsFrom (start + byteSize name + 1) after := by
  have hbackslash : ('\\' : Char).utf8Size = 1 := rfl
  fun_induction expressionsFrom start name with
  | case1 start => exact expressionsFrom_other (by decide) (fun hc => absurd hc (by decide))
  | case2 start =>
    -- The bracket is what the backslash at the end escapes.
    exact expressionsFrom_escape
  | case3 start c rest ih =>
    rw [List.cons_append, List.cons_append, expressionsFrom_escape, ih h]
    congr 1
    simp only [Text.byteSize_cons, hbackslash]
    omega
  | case4 => cases h
  | case5 => cases h
  | case6 start c rest hlone hescape hexpression ih =>
    have hc : c ≠ '\\' := by
      intro hc
      cases rest with
      | nil => exact hlone hc rfl
      | cons d ds => exact hescape d ds hc rfl
    have hhead : c = '$' → (rest ++ ']' :: after).head? ≠ some '\x7b' := by
      intro hdollar
      cases rest with
      | nil => exact fun hbrace => absurd (Option.some.inj hbrace) (by decide)
      | cons d ds =>
        rintro hbrace
        obtain rfl := Option.some.inj hbrace
        exact hexpression ds hdollar rfl
    rw [List.cons_append, expressionsFrom_other hc hhead, ih h]
    congr 1
    simp only [Text.byteSize_cons]
    omega

/-- An opened expression is found at its dollar sign, closed or not. -/
theorem exists_expressionsFrom_opening (start : Nat) (rest : List Char) :
    ∃ u us, expressionsFrom start ('$' :: '\x7b' :: rest) = u :: us ∧ u.reference? = none ∧ u.span.start = start := by
  cases hclosed : (look opened rest).closed with
  | true => exact ⟨_, _, expressionsFrom_closed hclosed, rfl, rfl⟩
  | false => exact ⟨_, _, expressionsFrom_open hclosed, rfl, rfl⟩

/-- An expression in a text begins there, whatever stands behind the text. -/
theorem exists_mem_expressionsFrom_append (h : expressionsFrom start name ≠ []) (tail : List Char) :
    ∃ u ∈ expressionsFrom start (name ++ tail), u.reference? = none ∧ u.span.start < start + byteSize name := by
  have hopening : ∀ start rest, ∃ u ∈ expressionsFrom start ('$' :: '\x7b' :: rest ++ tail),
      u.reference? = none ∧ u.span.start < start + byteSize ('$' :: '\x7b' :: rest) := by
    intro start rest
    obtain ⟨u, us, heq, hreference, hstart⟩ := exists_expressionsFrom_opening start (rest ++ tail)
    refine ⟨u, ?_, hreference, ?_⟩
    · rw [List.cons_append, List.cons_append, heq]
      exact List.mem_cons_self
    · rw [hstart, byteSize_opened]
      omega
  fun_induction expressionsFrom start name with
  | case1 start => exact absurd rfl h
  | case2 start => exact absurd rfl h
  | case3 start c rest ih =>
    obtain ⟨u, hu, hreference, hstart⟩ := ih h
    have hbackslash : ('\\' : Char).utf8Size = 1 := rfl
    rw [List.cons_append, List.cons_append, expressionsFrom_escape]
    refine ⟨u, hu, hreference, ?_⟩
    simp only [Text.byteSize_cons, hbackslash]
    omega
  | case4 start rest => exact hopening start rest
  | case5 start rest => exact hopening start rest
  | case6 start c rest hlone hescape hexpression ih =>
    obtain ⟨u, hu, hreference, hstart⟩ := ih h
    obtain ⟨d, ds, rfl⟩ : ∃ d ds, rest = d :: ds := by
      cases rest with
      | nil => exact absurd (expressionsFrom.eq_1 _) h
      | cons d ds => exact ⟨d, ds, rfl⟩
    have hc : c ≠ '\\' := fun hc => hescape d ds hc rfl
    have hhead : c = '$' → (d :: ds ++ tail).head? ≠ some '\x7b' := by
      intro hdollar hbrace
      obtain rfl := Option.some.inj hbrace
      exact hexpression ds hdollar rfl
    rw [List.cons_append, expressionsFrom_other hc hhead]
    refine ⟨u, hu, hreference, ?_⟩
    simp only [Text.byteSize_cons] at hstart ⊢
    omega

theorem scannedInFull_brackets (h : splitBracket? rest = some (name, after)) :
    ScannedInFull start ('[' :: rest) ↔
      expressionsFrom (start + 1) name = [] ∧ ScannedInFull (start + byteSize name + 2) after := by
  have hbracket : ('[' : Char).utf8Size = 1 := rfl
  have hrest : rest = name ++ ']' :: after := by
    have happend := append_splitBracket? h
    simpa using happend
  have hread : expressionsFrom start ('[' :: rest) = expressionsFrom (start + 1) (name ++ ']' :: after) := by
    rw [expressionsFrom_other (by decide) (fun hc => absurd hc (by decide)), hbracket, hrest]
  -- A reference is no expression.
  have hbehind : ∀ us, SameExpressions (tokensFrom start ('[' :: rest)) us ↔
      SameExpressions (tokensFrom (start + byteSize name + 2) after) us := by
    intro us
    rw [tokensFrom_brackets h]
    split
    · exact SameExpressions.reference_cons
    · exact Iff.rfl
  have hskip : expressionsFrom (start + 1) name = [] →
      expressionsFrom start ('[' :: rest) = expressionsFrom (start + byteSize name + 2) after := by
    intro hnone
    rw [hread, expressionsFrom_append_of_nil hnone]
    congr 1
    omega
  constructor
  · intro hsame
    have hnone : expressionsFrom (start + 1) name = [] := by
      -- What is found in the brackets begins there, but every token stands behind them.
      by_contra hsome
      obtain ⟨u, hu, hreference, hstart⟩ := exists_mem_expressionsFrom_append hsome (']' :: after)
      rw [← hread] at hu
      obtain ⟨t, ht, hspan⟩ := ((hbehind _).1 hsame).exists_mem_of_mem hu hreference
      obtain ⟨whole, hplaced⟩ := exists_tokensPlaced (start + byteSize name + 2) after
      have hle := (hplaced.within t ht).1
      rw [hspan] at hle
      omega
    refine ⟨hnone, ?_⟩
    have hafter := (hbehind _).1 hsame
    rwa [hskip hnone] at hafter
  · rintro ⟨hnone, hafter⟩
    refine (hbehind _).2 ?_
    rw [hskip hnone]
    exact hafter

/-! ## The two readers -/

theorem ScannedInFull.of_reaches (hreach : Reaches start cs s xs) (h : ScannedInFull start cs) :
    ScannedInFull s xs := by
  induction hreach with
  | here => exact h
  | escape _ ih => exact ih (scannedInFull_escape.1 h)
  | closed hclosed _ ih => exact ih ((scannedInFull_closed hclosed).1 h)
  | unclosed hclosed _ ih => exact ih ((scannedInFull_open hclosed).1 h)
  | brackets hsplit _ ih => exact ih ((scannedInFull_brackets hsplit).1 h).2
  | plain hplain _ ih => exact ih ((scannedInFull_plain hplain).1 h)

/-- **The expressions of a text are found and reported as by a reader who knows of escapes and expressions only, exactly
when no pair of brackets that is passed has an expression in it.** -/
theorem scannedInFull_iff (start : Nat) (cs : List Char) :
    ScannedInFull start cs ↔
      ∀ s rest name after, Reaches start cs s ('[' :: rest) → splitBracket? rest = some (name, after) →
        expressionsFrom (s + 1) name = [] := by
  constructor
  · intro h s rest name after hreach hsplit
    exact ((scannedInFull_brackets hsplit).1 (h.of_reaches hreach)).1
  · intro h
    induction start, cs using moves_induction with
    | nil start =>
      unfold ScannedInFull textDiagnostics
      rw [tokensFrom, expressionsFrom]
      exact ⟨rfl, rfl⟩
    | lone start =>
      unfold ScannedInFull textDiagnostics
      rw [tokensFrom, expressionsFrom]
      exact ⟨rfl, rfl⟩
    | escape start c rest ih =>
      refine scannedInFull_escape.2 (ih ?_)
      intro s xs name after hreach
      exact h s xs name after hreach.escape
    | closed start rest hclosed ih =>
      refine (scannedInFull_closed hclosed).2 (ih ?_)
      intro s xs name after hreach
      exact h s xs name after (.closed hclosed hreach)
    | unclosed start rest hclosed ih =>
      refine (scannedInFull_open hclosed).2 (ih ?_)
      intro s xs name after hreach
      exact h s xs name after (.unclosed hclosed hreach)
    | brackets start rest name after hsplit ih =>
      refine (scannedInFull_brackets hsplit).2 ⟨h start rest name after .here hsplit, ih ?_⟩
      intro s xs name' after' hreach
      exact h s xs name' after' (.brackets hsplit hreach)
    | plain start c rest hplain ih =>
      refine (scannedInFull_plain hplain).2 (ih ?_)
      intro s xs name after hreach
      exact h s xs name after (.plain hplain hreach)

/-- An expression in brackets, beside other words, is not found. -/
theorem not_scannedInFull_inBrackets : ¬ ScannedInFull 0 "[see $\x7bx\x7d]".toList := by
  intro h
  have hnone : (tokensFrom 0 "[see $\x7bx\x7d]".toList).filterMap Token.segment? = [] := by decide +kernel
  have hsome : (expressionsFrom 0 "[see $\x7bx\x7d]".toList).filterMap Token.segment? ≠ [] := by decide +kernel
  exact hsome (h.1.symm.trans hnone)

end LgLang.Syntax
