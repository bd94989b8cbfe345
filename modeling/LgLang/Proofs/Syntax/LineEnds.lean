import LgLang.Proofs.Syntax.Bodies
import LgLang.Proofs.Syntax.Nesting
import LgLang.Proofs.Syntax.Scanning

/-!
# Expressions and the ends of lines

A text may go on over several lines, but an expression may not: one that is open at a line feed (`OpenAtFeed`) is to be
reported from its dollar sign to the end of its line, and reading is to go on with the next line (`EndWithLines`).

This holds unless the line feed is escaped. The search for the closing brace passes a character behind a backslash in a
string unseen, a line feed too, and goes on below. So expressions end with their lines exactly when no line feed at
which one is open stands behind a backslash in a string (`endWithLines_iff`).
-/

namespace LgLang.Syntax

open Text (Stands byteSize)
open Nesting (opened)

variable {start s : Nat} {cs line below : List Char}

/-- An expression whose dollar sign has offset `s` is still open at the line feed that ends `line`, the rest of its
line. -/
structure OpenAtFeed (start : Nat) (cs : List Char) (s : Nat) (line below : List Char) : Prop where
  reaches : Reaches start cs s ('$' :: '\x7b' :: (line ++ '\n' :: below))
  isLine : '\n' ∉ line
  staysOpen : opened.StaysOpen line

/-- No segment has a line feed in it, and an expression that is open at a line feed is reported up to the end of its
line, where reading goes on. -/
structure EndWithLines (start : Nat) (cs : List Char) : Prop where
  segments : ∀ g ∈ (tokensFrom start cs).filterMap Token.segment?, '\n' ∉ g.expression.toList
  reported : ∀ s line below, OpenAtFeed start cs s line below →
    ∃ earlier, tokensFrom start cs =
      earlier ++ .unterminated (unterminatedSpan s line) :: tokensFrom (s + 2 + byteSize line + 1) below

/-! ## At a line feed that is not escaped -/

theorem OpenAtFeed.expressionEnd_eq (h : OpenAtFeed start cs s line below) (hescape : (opened.after line).isEscape = false) :
    expressionEnd 1 none (line ++ '\n' :: below) = ⟨line, '\n' :: below, false⟩ := by
  rw [expressionEnd_eq_look]
  exact look_line h.staysOpen h.isLine hescape

theorem OpenAtFeed.reported (h : OpenAtFeed start cs s line below) (hescape : (opened.after line).isEscape = false) :
    ∃ earlier, tokensFrom start cs =
      earlier ++ .unterminated (unterminatedSpan s line) :: tokensFrom (s + 2 + byteSize line + 1) below := by
  obtain ⟨earlier, htokens⟩ := h.reaches.tokens
  have hend := h.expressionEnd_eq hescape
  have hfeed : Plain '\n' below := by
    refine ⟨by decide, ?_, ?_⟩
    · intro hc
      exact absurd hc (by decide)
    · intro hc
      exact absurd hc (by decide)
  have hsize : ('\n' : Char).utf8Size = 1 := rfl
  refine ⟨earlier, ?_⟩
  rw [htokens, tokensFrom_open (by rw [hend]), hend]
  simp only [tokensFrom_plain hfeed, hsize]
  have hnext : s + byteSize line + 2 + 1 = s + 2 + byteSize line + 1 := by omega
  rw [hnext]

/-! ## At one that is -/

/-- The search passes an escaped line feed. -/
theorem OpenAtFeed.exists_content (h : OpenAtFeed start cs s line below) (hescape : (opened.after line).isEscape = true) :
    ∃ more, (expressionEnd 1 none (line ++ '\n' :: below)).content = line ++ '\n' :: more := by
  rw [expressionEnd_eq_look, look_escaped h.staysOpen h.isLine hescape]
  exact ⟨(look ((opened.after line).next '\n') below).content, by simp [ExpressionEnd.behind]⟩

/-- At the end of a line only a carriage return is left out. -/
theorem byteSize_stripReturn_lt (line more : List Char) :
    byteSize (Text.stripReturn line) < byteSize (Text.stripReturn (line ++ '\n' :: more)) := by
  have hkept : ∃ ys, Text.stripReturn ('\n' :: more) = '\n' :: ys := by
    by_cases hmore : more = []
    · subst hmore
      exact ⟨[], rfl⟩
    · exact ⟨Text.stripReturn more, Text.stripReturn_append_of_ne_nil ['\n'] hmore⟩
  obtain ⟨ys, hys⟩ := hkept
  have hline := Text.byteSize_stripReturn_le line
  have hfeed : ('\n' : Char).utf8Size = 1 := rfl
  rw [Text.stripReturn_append_of_ne_nil line (List.cons_ne_nil _ _), hys, Text.byteSize_append, Text.byteSize_cons, hfeed]
  omega

theorem unterminatedSpan_lt (s : Nat) (content : List Char) :
    (unterminatedSpan s content).start < (unterminatedSpan s content).stop := by
  simp only [unterminatedSpan, Span.ofSize_start, Span.ofSize_stop]
  omega

/-- An expression that is open at an escaped line feed breaks the rule: it goes on below, closed or not. -/
theorem EndWithLines.isEscape_eq_false (h : EndWithLines start cs) (hopen : OpenAtFeed start cs s line below) :
    (opened.after line).isEscape = false := by
  by_contra hescape
  obtain ⟨more, hcontent⟩ := hopen.exists_content ((Bool.not_eq_false _).mp hescape)
  obtain ⟨earlier, htokens⟩ := hopen.reaches.tokens
  cases hclosed : (expressionEnd 1 none (line ++ '\n' :: below)).closed with
  | true =>
    -- It is a segment with a line feed in it.
    rw [tokensFrom_closed hclosed, hcontent] at htokens
    have hmem : segmentAt s (line ++ '\n' :: more) ∈ (tokensFrom start cs).filterMap Token.segment? := by
      rw [htokens]
      simp [Token.segment?]
    refine h.segments _ hmem ?_
    simp [segmentAt]
  | false =>
    -- It is reported up to a later line feed, and so not up to this one.
    rw [tokensFrom_open hclosed, hcontent] at htokens
    have hlong : Token.unterminated (unterminatedSpan s (line ++ '\n' :: more)) ∈ tokensFrom start cs := by
      rw [htokens]
      simp
    obtain ⟨earlier', hreported⟩ := h.reported s line below hopen
    have hshort : Token.unterminated (unterminatedSpan s line) ∈ tokensFrom start cs := by
      rw [hreported]
      simp
    -- Both begin at the dollar sign, and the longer one covers the other.
    have hlt := byteSize_stripReturn_lt line more
    have hcovers : (unterminatedSpan s (line ++ '\n' :: more)).Covers (unterminatedSpan s line) := by
      refine ⟨Nat.le_refl _, ?_⟩
      simp only [unterminatedSpan, Span.ofSize_stop]
      omega
    have heq := Span.eq_of_covers (tokensFrom_pairwise start cs) hlong hshort hcovers (.refl _) (unterminatedSpan_lt s line)
    have hstop := congrArg Span.stop (Token.unterminated.inj heq)
    simp only [unterminatedSpan, Span.ofSize_stop] at hstop
    omega

/-! ## Segments -/

/-- A line feed in a segment is one at which its expression was open. -/
theorem exists_openAtFeed {g : Segment} (hg : .segment g ∈ tokensFrom start cs) (hfeed : '\n' ∈ g.expression.toList) :
    ∃ s line below, OpenAtFeed start cs s line below ∧ (opened.after line).isEscape = true := by
  obtain ⟨s, rest, hreach, hclosed, rfl⟩ := exists_reaches_of_segment hg
  have hmem : '\n' ∈ (expressionEnd 1 none rest).content := by
    simpa [segmentAt] using hfeed
  obtain ⟨line, more, hcontent, hline⟩ := List.eq_append_cons_of_mem hmem
  have hstays : opened.StaysOpen line := by
    have hall := staysOpen_look (n := opened) (by decide) rest
    rw [← expressionEnd_eq_look, hcontent] at hall
    exact hall.left
  have hrest := append_expressionEnd 1 none rest
  rw [hcontent, List.append_assoc, List.cons_append] at hrest
  rw [← hrest] at hreach
  have hopen : OpenAtFeed start cs s line _ := ⟨hreach, hline, hstays⟩
  refine ⟨s, line, _, hopen, ?_⟩
  -- Otherwise the search would have ended here, without a brace.
  by_contra hescape
  have hend := hopen.expressionEnd_eq ((Bool.not_eq_true _).mp hescape)
  rw [hrest] at hend
  rw [hend] at hclosed
  cases hclosed

/-- **Expressions end with their lines exactly when no line feed at which one is open stands behind a backslash in a
string.** -/
theorem endWithLines_iff (start : Nat) (cs : List Char) :
    EndWithLines start cs ↔
      ∀ s line below, OpenAtFeed start cs s line below → (opened.after line).isEscape = false := by
  constructor
  · intro h s line below hopen
    exact h.isEscape_eq_false hopen
  · intro h
    refine ⟨?_, ?_⟩
    · intro g hg hfeed
      obtain ⟨s, line, below, hopen, hescape⟩ := exists_openAtFeed (Token.mem_of_mem_segments hg) hfeed
      rw [h s line below hopen] at hescape
      cases hescape
    · intro s line below hopen
      exact hopen.reported (h s line below hopen)

/-- A string with a backslash at the end of the line makes a segment over two lines. -/
theorem not_endWithLines_escapedFeed : ¬ EndWithLines 0 "$\x7b'a\\\n  b'\x7d".toList := by
  intro h
  have hfeed : ∃ g ∈ (tokensFrom 0 "$\x7b'a\\\n  b'\x7d".toList).filterMap Token.segment?,
      '\n' ∈ g.expression.toList := by
    decide +kernel
  obtain ⟨g, hg, hmem⟩ := hfeed
  exact h.segments g hg hmem

end LgLang.Syntax
