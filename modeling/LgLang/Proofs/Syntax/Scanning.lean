import LgLang.Proofs.Syntax.Nesting
import LgLang.Proofs.Syntax.Tokens

/-!
# The way of a reader through a text

`tokensFrom` passes a text in moves: an escaped character, an expression, a pair of brackets, or one plain character at
a time. Each move has its equation here. `Reaches` says which places of a text a reader comes to, and so which dollar
signs open an expression for it and which brackets it passes as a pair: what is found from such a place on ends what is
found in the text (`Reaches.tokens`), and every segment was found at such a place (`exists_reaches_of_segment`).
-/

namespace LgLang.Syntax

open Nesting (closed opened)
open Text (Stands byteSize)

variable {start s : Nat} {c : Char} {cs xs rest name after : List Char}

/-! ## Moves -/

/-- A reader passes only one character: it escapes nothing, opens no expression and stands before no pair of brackets. -/
structure Plain (c : Char) (rest : List Char) : Prop where
  noEscape : c ≠ '\\'
  noExpression : c = '$' → rest.head? ≠ some '\x7b'
  noBrackets : c = '[' → splitBracket? rest = none

theorem tokensFrom_escape : tokensFrom start ('\\' :: c :: rest) = tokensFrom (start + 1 + c.utf8Size) rest := by
  rw [tokensFrom]

theorem tokensFrom_closed (h : (expressionEnd 1 none rest).closed = true) :
    tokensFrom start ('$' :: '\x7b' :: rest) =
      .segment (segmentAt start (expressionEnd 1 none rest).content) ::
        tokensFrom (start + byteSize (expressionEnd 1 none rest).content + 3) (expressionEnd 1 none rest).rest := by
  rw [tokensFrom]
  simp only [if_pos h]

theorem tokensFrom_open (h : (expressionEnd 1 none rest).closed = false) :
    tokensFrom start ('$' :: '\x7b' :: rest) =
      .unterminated (unterminatedSpan start (expressionEnd 1 none rest).content) ::
        tokensFrom (start + byteSize (expressionEnd 1 none rest).content + 2) (expressionEnd 1 none rest).rest := by
  rw [tokensFrom]
  simp only [h, Bool.false_eq_true, if_false]

theorem tokensFrom_brackets (h : splitBracket? rest = some (name, after)) :
    tokensFrom start ('[' :: rest) =
      (if isTemplateName name && after.head? != some '(' then
        [.reference ⟨String.ofList name, .ofSize (start + 1) (byteSize name)⟩]
      else []) ++ tokensFrom (start + byteSize name + 2) after := by
  rw [tokensFrom]
  split
  · next name' after' h' =>
    obtain ⟨rfl, rfl⟩ := Prod.mk.inj (Option.some.inj (h.symm.trans h'))
    split
    · rfl
    · rfl
  · next hnone => cases h.symm.trans hnone

theorem tokensFrom_plain (h : Plain c rest) : tokensFrom start (c :: rest) = tokensFrom (start + c.utf8Size) rest := by
  obtain ⟨hescape, hexpression, hbrackets⟩ := h
  by_cases hc : c = '['
  · subst hc
    rw [tokensFrom]
    split
    · next hsome => cases (hbrackets rfl).symm.trans hsome
    · rfl
  · rw [tokensFrom]
    · rintro rfl
      exact absurd rfl hescape
    · intro d ds hd
      exact absurd hd hescape
    · rintro ds rfl rfl
      exact hexpression rfl rfl
    · exact hc

/-- An expression that is closed is open up to the brace that closes it. -/
theorem expressionEnd_closed (h : (expressionEnd 1 none rest).closed = true) :
    rest = (expressionEnd 1 none rest).content ++ '\x7d' :: (expressionEnd 1 none rest).rest ∧
      opened.StaysOpen (expressionEnd 1 none rest).content ∧
        (opened.after (expressionEnd 1 none rest).content).next '\x7d' = closed := by
  have hsplit := append_expressionEnd 1 none rest
  rw [h, if_pos rfl, List.singleton_append] at hsplit
  refine ⟨hsplit.symm, ?_, ?_⟩
  · rw [expressionEnd_eq_look]
    exact staysOpen_look (by decide) rest
  · rw [expressionEnd_eq_look] at h hsplit ⊢
    obtain ⟨c, hc, hclosing⟩ := look_closed h
    have hbrace := List.append_cancel_left (hsplit.trans hc)
    rw [(List.cons.inj hbrace).1]
    exact hclosing

/-- A property that each move brings from what is behind it holds everywhere. -/
@[elab_as_elim] theorem moves_induction {P : Nat → List Char → Prop} (nil : ∀ start, P start [])
    (lone : ∀ start, P start ['\\'])
    (escape : ∀ start c rest, P (start + 1 + c.utf8Size) rest → P start ('\\' :: c :: rest))
    (closed : ∀ start rest, (expressionEnd 1 none rest).closed = true →
      P (start + byteSize (expressionEnd 1 none rest).content + 3) (expressionEnd 1 none rest).rest →
        P start ('$' :: '\x7b' :: rest))
    (unclosed : ∀ start rest, (expressionEnd 1 none rest).closed = false →
      P (start + byteSize (expressionEnd 1 none rest).content + 2) (expressionEnd 1 none rest).rest →
        P start ('$' :: '\x7b' :: rest))
    (brackets : ∀ start rest name after, splitBracket? rest = some (name, after) →
      P (start + byteSize name + 2) after → P start ('[' :: rest))
    (plain : ∀ start c rest, Plain c rest → P (start + c.utf8Size) rest → P start (c :: rest)) (start : Nat)
    (cs : List Char) : P start cs := by
  fun_induction tokensFrom start cs with
  | case1 start => exact nil start
  | case2 start => exact lone start
  | case3 start c rest ih => exact escape start c rest ih
  | case4 start rest _ found hclosed ih => exact closed start rest hclosed ih
  | case5 start rest _ found hclosed ih => exact unclosed start rest (Bool.eq_false_iff.2 hclosed) ih
  | case6 start rest name after hbrackets _ _ _ ih => exact brackets start rest name after hbrackets ih
  | case7 start rest name after hbrackets _ _ _ ih => exact brackets start rest name after hbrackets ih
  | case8 start rest hbrackets ih =>
    exact plain start '[' rest ⟨by decide, fun h => absurd h (by decide), fun _ => hbrackets⟩ ih
  | case9 start c rest hlone hescape hexpression hopening ih =>
    refine plain start c rest ⟨?_, ?_, fun h => absurd h hopening⟩ ih
    · intro hc
      cases rest with
      | nil => exact hlone hc rfl
      | cons d ds => exact hescape d ds hc rfl
    · intro hc hhead
      obtain ⟨ds, rfl⟩ := List.head?_eq_some_iff.1 hhead
      exact hexpression ds hc rfl

/-- Some text has the given one at that offset, so that the tokens found in it stand there in order. -/
theorem exists_tokensPlaced (start : Nat) (cs : List Char) :
    ∃ whole, TokensPlaced whole start (start + byteSize cs) (tokensFrom start cs) := by
  have hsize : ∀ n, byteSize (List.replicate n ' ') = n := by
    intro n
    induction n with
    | zero => rfl
    | succ n ih =>
      have hspace : (' ' : Char).utf8Size = 1 := rfl
      rw [List.replicate_succ, Text.byteSize_cons, ih, hspace]
      omega
  have hstands : Stands (List.replicate start ' ' ++ cs ++ []) start cs :=
    ⟨List.replicate start ' ', [], rfl, (hsize start).symm⟩
  exact ⟨_, tokensFrom_placed hstands⟩

/-- The tokens of a text come one behind the other. -/
theorem tokensFrom_pairwise (start : Nat) (cs : List Char) :
    (tokensFrom start cs).Pairwise fun t u => t.span.Before u.span := by
  obtain ⟨whole, hplaced⟩ := exists_tokensPlaced start cs
  exact hplaced.ordered

/-! ## Places that a reader comes to -/

/-- A reader of the text `cs`, whose first byte has offset `start`, comes to offset `s`, where `xs` is still to be
read. -/
inductive Reaches : Nat → List Char → Nat → List Char → Prop where
  | here {s : Nat} {xs : List Char} : Reaches s xs s xs
  | escape {start s : Nat} {c : Char} {rest xs : List Char} (h : Reaches (start + 1 + c.utf8Size) rest s xs) :
      Reaches start ('\\' :: c :: rest) s xs
  | closed {start s : Nat} {rest xs : List Char} (hclosed : (expressionEnd 1 none rest).closed = true)
      (h : Reaches (start + byteSize (expressionEnd 1 none rest).content + 3) (expressionEnd 1 none rest).rest s xs) :
      Reaches start ('$' :: '\x7b' :: rest) s xs
  | unclosed {start s : Nat} {rest xs : List Char} (hclosed : (expressionEnd 1 none rest).closed = false)
      (h : Reaches (start + byteSize (expressionEnd 1 none rest).content + 2) (expressionEnd 1 none rest).rest s xs) :
      Reaches start ('$' :: '\x7b' :: rest) s xs
  | brackets {start s : Nat} {rest name after xs : List Char} (hsplit : splitBracket? rest = some (name, after))
      (h : Reaches (start + byteSize name + 2) after s xs) : Reaches start ('[' :: rest) s xs
  | plain {start s : Nat} {c : Char} {rest xs : List Char} (hplain : Plain c rest)
      (h : Reaches (start + c.utf8Size) rest s xs) : Reaches start (c :: rest) s xs

/-- What is still to be read ends the text, and the offset counts what is before it. -/
theorem Reaches.exists_append (h : Reaches start cs s xs) :
    ∃ before, cs = before ++ xs ∧ s = start + byteSize before := by
  -- What a move passes comes before what is passed later.
  have hpass : ∀ {passed rest xs : List Char} {start behind s : Nat}, start + byteSize passed = behind →
      (∃ before, rest = before ++ xs ∧ s = behind + byteSize before) →
        ∃ before, passed ++ rest = before ++ xs ∧ s = start + byteSize before := by
    rintro passed rest xs start behind s rfl ⟨before, rfl, rfl⟩
    refine ⟨passed ++ before, (List.append_assoc _ _ _).symm, ?_⟩
    rw [Text.byteSize_append, Nat.add_assoc]
  induction h with
  | here => exact ⟨[], rfl, rfl⟩
  | @escape start s c rest xs h ih =>
    have hbehind : start + byteSize ['\\', c] = start + 1 + c.utf8Size := (Nat.add_assoc _ _ _).symm
    exact hpass hbehind ih
  | @closed start s rest xs hclosed h ih =>
    obtain ⟨hsplit, -⟩ := expressionEnd_closed hclosed
    have hbehind : start + byteSize ('$' :: '\x7b' :: ((expressionEnd 1 none rest).content ++ ['\x7d'])) =
        start + byteSize (expressionEnd 1 none rest).content + 3 := by
      rw [byteSize_closed, Nat.add_assoc]
    have hpassed := hpass hbehind ih
    rwa [List.cons_append, List.cons_append, List.append_assoc, List.singleton_append, ← hsplit] at hpassed
  | @unclosed start s rest xs hclosed h ih =>
    have hsplit := append_expressionEnd 1 none rest
    rw [hclosed, if_neg Bool.false_ne_true, List.nil_append] at hsplit
    have hbehind : start + byteSize ('$' :: '\x7b' :: (expressionEnd 1 none rest).content) =
        start + byteSize (expressionEnd 1 none rest).content + 2 := by
      rw [byteSize_opened, Nat.add_assoc]
    have hpassed := hpass hbehind ih
    rwa [List.cons_append, List.cons_append, hsplit] at hpassed
  | @brackets start s rest name after xs hsplit h ih =>
    have hbehind : start + byteSize ('[' :: (name ++ [']'])) = start + byteSize name + 2 := by
      rw [byteSize_bracketed, Nat.add_assoc]
    have hpassed := hpass hbehind ih
    rwa [← append_splitBracket? hsplit] at hpassed
  | @plain start s c rest xs hplain h ih =>
    have hbehind : start + byteSize [c] = start + c.utf8Size := rfl
    exact hpass hbehind ih

/-- What is found from a place on comes last in what is found in the text. -/
theorem Reaches.tokens (h : Reaches start cs s xs) :
    ∃ earlier, tokensFrom start cs = earlier ++ tokensFrom s xs := by
  induction h with
  | here => exact ⟨[], rfl⟩
  | escape _ ih =>
    rw [tokensFrom_escape]
    exact ih
  | closed hclosed _ ih =>
    obtain ⟨earlier, heq⟩ := ih
    rw [tokensFrom_closed hclosed, heq]
    exact ⟨_ :: earlier, rfl⟩
  | unclosed hclosed _ ih =>
    obtain ⟨earlier, heq⟩ := ih
    rw [tokensFrom_open hclosed, heq]
    exact ⟨_ :: earlier, rfl⟩
  | brackets hsplit _ ih =>
    obtain ⟨earlier, heq⟩ := ih
    rw [tokensFrom_brackets hsplit, heq, ← List.append_assoc]
    exact ⟨_, rfl⟩
  | plain hplain _ ih =>
    rw [tokensFrom_plain hplain]
    exact ih

/-- Every segment is an expression that was opened at some place and closed. -/
theorem exists_reaches_of_segment {g : Segment} (h : .segment g ∈ tokensFrom start cs) :
    ∃ s rest, Reaches start cs s ('$' :: '\x7b' :: rest) ∧ (expressionEnd 1 none rest).closed = true ∧
      g = segmentAt s (expressionEnd 1 none rest).content := by
  induction start, cs using moves_induction with
  | nil start =>
    rw [tokensFrom] at h
    cases h
  | lone start =>
    rw [tokensFrom] at h
    cases h
  | escape start c rest ih =>
    rw [tokensFrom_escape] at h
    obtain ⟨s, rest', hreach, hfound⟩ := ih h
    exact ⟨s, rest', hreach.escape, hfound⟩
  | closed start rest hclosed ih =>
    rw [tokensFrom_closed hclosed] at h
    rcases List.mem_cons.1 h with heq | hmem
    · exact ⟨start, rest, .here, hclosed, Token.segment.inj heq⟩
    · obtain ⟨s, rest', hreach, hfound⟩ := ih hmem
      exact ⟨s, rest', .closed hclosed hreach, hfound⟩
  | unclosed start rest hclosed ih =>
    rw [tokensFrom_open hclosed] at h
    rcases List.mem_cons.1 h with heq | hmem
    · cases heq
    · obtain ⟨s, rest', hreach, hfound⟩ := ih hmem
      exact ⟨s, rest', .unclosed hclosed hreach, hfound⟩
  | brackets start rest name after hsplit ih =>
    rw [tokensFrom_brackets hsplit] at h
    have hmem : .segment g ∈ tokensFrom (start + byteSize name + 2) after := by
      rcases List.mem_append.1 h with href | hmem
      · split at href
        · cases List.mem_singleton.1 href
        · cases href
      · exact hmem
    obtain ⟨s, rest', hreach, hfound⟩ := ih hmem
    exact ⟨s, rest', .brackets hsplit hreach, hfound⟩
  | plain start c rest hplain ih =>
    rw [tokensFrom_plain hplain] at h
    obtain ⟨s, rest', hreach, hfound⟩ := ih h
    exact ⟨s, rest', .plain hplain hreach, hfound⟩

end LgLang.Syntax
