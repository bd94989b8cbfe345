import LgLang.Editor.Cursor
import LgLang.Proofs.Syntax.Scanning

/-!
# The expression at the cursor

Completion looks at a line up to the cursor only (`Progress.over`). The reader of bodies has the whole line, and looks
ahead for the brace that closes an expression. On a line without opening brackets they agree on where expressions are
(`context_eq_expression_iff`).

The proof follows the moves of the reader. Behind each of them the look is in the text again, or the cursor was passed.
Inside an expression the look counts braces and follows quotes as `Nesting` does (`Progress.inside_append`).
-/

namespace LgLang.Editor

open Syntax (Nesting Segment TextLine Token expressionEnd look segmentAt textDiagnostics tokensFrom unterminatedSpan)
open Syntax.Nesting (closed opened)
open Text (byteSize)

/-! ## What the reader finds behind the marks that open an expression -/

/-- The reader finds an expression with the given content, which the next brace closes, and goes on behind that. -/
structure Closes (rest content behind : List Char) : Prop where
  split : rest = content ++ '\x7d' :: behind
  staysOpen : opened.StaysOpen content
  closing : (opened.after content).next '\x7d' = closed
  tokens : ∀ start, tokensFrom start ('$' :: '\x7b' :: rest) =
    .segment (segmentAt start content) :: tokensFrom (start + (byteSize content + 3)) behind

theorem closes {rest : List Char} (h : (expressionEnd 1 none rest).closed = true) :
    Closes rest (expressionEnd 1 none rest).content (expressionEnd 1 none rest).rest := by
  obtain ⟨hsplit, hopen, hclosing⟩ := Syntax.expressionEnd_closed h
  refine ⟨hsplit, hopen, hclosing, ?_⟩
  intro start
  rw [Syntax.tokensFrom_closed h, Nat.add_assoc]

/-- The reader finds an expression that goes on to the end. -/
structure NeverCloses (rest : List Char) : Prop where
  staysOpen : opened.StaysOpen rest
  tokens : ∀ start, tokensFrom start ('$' :: '\x7b' :: rest) = [.unterminated (unterminatedSpan start rest)]

/-- On one line, an expression that is not closed goes on to the end. -/
theorem neverCloses {rest : List Char} (h : (expressionEnd 1 none rest).closed = false) (hline : '\n' ∉ rest) :
    NeverCloses rest := by
  have hnone : (expressionEnd 1 none rest).rest = [] := by
    rw [Syntax.expressionEnd_eq_look] at h ⊢
    exact Syntax.look_unclosed h hline
  have hcontent := Syntax.append_expressionEnd 1 none rest
  rw [h, if_neg Bool.false_ne_true, List.nil_append, hnone, List.append_nil] at hcontent
  constructor
  · have hopen := Syntax.staysOpen_look (n := opened) (by decide) rest
    rwa [← Syntax.expressionEnd_eq_look, hcontent] at hopen
  · intro start
    rw [Syntax.tokensFrom_open h, hcontent, hnone, tokensFrom]

/-! ## Within an expression -/

namespace Progress

/-- The expression so far. -/
def expression? : Progress → Option (List Char)
  | .text _ => none
  | .expression s _ _ => some s

/-- The look at a text in an expression that began with `s`, from the nesting of a place in it. -/
def inside (s : List Char) : Nesting → List Char → Progress
  | .code depth, cs => Progress.over (.expression s depth none) cs
  | .string depth q, cs => Progress.over (.expression s depth (some q)) cs
  | .escape depth q, [] => .expression s depth (some q)
  | .escape depth q, _ :: cs => Progress.over (.expression s depth (some q)) cs

/-- The strings in an expression are quoted. -/
def IsQuoted : Nesting → Prop
  | .code _ => True
  | .string _ q => Nesting.isQuote q = true
  | .escape _ q => Nesting.isQuote q = true

variable {s cs xs : List Char} {n : Nesting} {c : Char}

theorem IsQuoted.next (h : IsQuoted n) (c : Char) : IsQuoted (n.next c) := by
  cases n with
  | code depth =>
    simp only [Nesting.next]
    split
    · next hquote => exact hquote
    · split
      · trivial
      · split <;> trivial
  | string depth q =>
    simp only [Nesting.next]
    split
    · trivial
    · split <;> exact h
  | escape depth q => exact h

/-- The look outside of strings. -/
theorem inside_code {depth : Nat} :
    inside s (.code depth) (c :: cs) =
      if Nesting.isQuote c then inside s (.string depth c) cs
      else if c == '\x7b' then inside s (.code (depth + 1)) cs
      else if c == '\x7d' then if depth = 1 then Progress.over (.text none) cs else inside s (.code (depth - 1)) cs
      else inside s (.code depth) cs := by
  rw [inside, Progress.over]
  rfl

theorem isQuoted_opened : IsQuoted opened := trivial

theorem IsQuoted.after (h : IsQuoted n) (xs : List Char) : IsQuoted (n.after xs) := by
  induction xs generalizing n with
  | nil => exact h
  | cons c xs ih => exact ih (h.next c)

theorem inside_nil : (inside s n []).expression? = some s := by
  cases n <;> simp [inside, Progress.over, expression?]

/-- One character that does not close the expression. -/
theorem inside_cons (hn : IsQuoted n) (hne : n ≠ closed) (hopen : n.next c ≠ closed) :
    inside s n (c :: cs) = inside s (n.next c) cs := by
  cases n with
  | code depth =>
    by_cases hquote : Nesting.isQuote c = true
    · have hnext : (Nesting.code depth).next c = .string depth c := if_pos hquote
      rw [hnext, inside_code, if_pos hquote]
    by_cases hbrace : (c == '\x7b') = true
    · have hnext : (Nesting.code depth).next c = .code (depth + 1) := by
        simp only [Nesting.next, if_neg hquote, if_pos hbrace]
      rw [hnext, inside_code, if_neg hquote, if_pos hbrace]
    by_cases hclose : (c == '\x7d') = true
    · have hnext : (Nesting.code depth).next c = .code (depth - 1) := by
        simp only [Nesting.next, if_neg hquote, if_neg hbrace, if_pos hclose]
      have hdeep : depth ≠ 1 := by
        rintro rfl
        exact hopen hnext
      rw [hnext, inside_code, if_neg hquote, if_neg hbrace, if_pos hclose, if_neg hdeep]
    · have hnext : (Nesting.code depth).next c = .code depth := by
        simp only [Nesting.next, if_neg hquote, if_neg hbrace, if_neg hclose]
      rw [hnext, inside_code, if_neg hquote, if_neg hbrace, if_neg hclose]
  | string depth q =>
    have hbackslash : q ≠ '\\' := by
      rintro rfl
      exact Bool.false_ne_true hn
    by_cases hescape : c = '\\'
    · subst hescape
      have hnext : (Nesting.string depth q).next '\\' = .escape depth q := by
        simp [Nesting.next, Ne.symm hbackslash]
      rw [hnext]
      cases cs with
      | nil => rfl
      | cons d ds => rfl
    · have hover : inside s (.string depth q) (c :: cs) =
          Progress.over (.expression s depth (if c == q then none else some q)) cs := by
        rw [inside, Progress.over]
        · exact fun hc => absurd hc hescape
        · exact fun _ _ hc => absurd hc hescape
      rw [hover]
      by_cases hend : (c == q) = true
      · simp only [Nesting.next, if_pos hend]
        rfl
      · have hescape : ¬(c == '\\') = true := by simpa using hescape
        simp only [Nesting.next, if_neg hend, if_neg hescape]
        rfl
  | escape depth q => rfl

/-- While an expression stays open, the look counts braces and follows quotes as the search for the end does. -/
theorem inside_append (hn : IsQuoted n) (hopen : n.StaysOpen xs) :
    inside s n (xs ++ cs) = inside s (n.after xs) cs := by
  induction xs generalizing n with
  | nil => rfl
  | cons c xs ih =>
    obtain ⟨hne, htail⟩ := Nesting.staysOpen_cons.1 hopen
    rw [List.cons_append, inside_cons hn hne htail.ne_closed]
    exact ih (hn.next c) htail

theorem inside_open (hn : IsQuoted n) (hopen : n.StaysOpen xs) : (inside s n xs).expression? = some s := by
  have happend : inside s n (xs ++ []) = inside s (n.after xs) [] := inside_append hn hopen
  rw [List.append_nil] at happend
  rw [happend]
  exact inside_nil

/-- The brace that closes the expression ends it for the look, too. -/
theorem inside_closing (hn : IsQuoted n) (hne : n ≠ closed) (hclose : n.next '\x7d' = closed) :
    inside s n ('\x7d' :: cs) = Progress.over (.text none) cs := by
  cases n with
  | code depth =>
    have hdepth : depth - 1 = 0 := Nesting.code.inj hclose
    have hzero : depth ≠ 0 := by
      rintro rfl
      exact hne rfl
    obtain rfl : depth = 1 := by omega
    rfl
  | string depth q =>
    have hq : q ≠ '\x7d' := by
      rintro rfl
      exact Bool.false_ne_true hn
    simp [Nesting.next, closed, Ne.symm hq] at hclose
  | escape depth q => cases hclose

/-! ## In the text -/

variable {bracket : Option (List Char)} {rest : List Char}

theorem over_opening : Progress.over (.text bracket) ('$' :: '\x7b' :: cs) = inside cs opened cs := by
  rw [Progress.over]
  rfl

theorem over_escape : Progress.over (.text bracket) ('\\' :: c :: cs) = Progress.over (.text bracket) cs := by
  rw [Progress.over]

/-- Behind a character that opens nothing, the look is in the text. -/
theorem over_plain (hescape : c ≠ '\\') (hopening : c = '$' → cs.head? ≠ some '\x7b') :
    ∃ bracket', Progress.over (.text bracket) (c :: cs) = Progress.over (.text bracket') cs := by
  refine ⟨if c == '[' then some cs else if c == ']' then none else bracket, ?_⟩
  rw [Progress.over]
  · exact fun hc => absurd hc hescape
  · exact fun _ _ hc => absurd hc hescape
  · intro ds hc hcs
    rw [hcs] at hopening
    exact hopening hc rfl

/-- As long as an expression stays open, the look is in this. -/
theorem over_content {e : List Char} (hopen : opened.StaysOpen e) :
    (Progress.over (.text bracket) ('$' :: '\x7b' :: e)).expression? = some e := by
  rw [over_opening]
  exact inside_open isQuoted_opened hopen

/-- Behind an expression that is closed, the look is in the text again. -/
theorem over_behind {content behind : List Char} (h : Closes rest content behind) :
    Progress.over (.text bracket) ('$' :: '\x7b' :: (content ++ '\x7d' :: cs)) = Progress.over (.text none) cs := by
  rw [over_opening, inside_append isQuoted_opened h.staysOpen]
  exact inside_closing (isQuoted_opened.after _) (h.staysOpen _ List.prefix_rfl) h.closing

end Progress

/-! ## Offsets in the contents of expressions -/

/-- A token has content at the offset, and this begins at the second one. -/
inductive HasContent (o : Nat) : Token → Nat → Prop
  | segment {s : Segment} (h : s.contentSpan.contains o = true) : HasContent o (.segment s) s.contentSpan.start
  | unterminated {span : Span} (h : span.start + 2 ≤ o) : HasContent o (.unterminated span) (span.start + 2)

variable {start o n : Nat} {cs before rest e : List Char} {t : Token}

/-- Content begins behind the marks that open an expression. -/
theorem HasContent.le (h : HasContent o t n) (ht : t ∈ tokensFrom start cs) : start + 2 ≤ o := by
  obtain ⟨whole, hplaced⟩ := Syntax.exists_tokensPlaced start cs
  have hstart := (hplaced.within t ht).1
  have hlocated := hplaced.located t ht
  cases h with
  | @segment s h =>
    have hstart : start ≤ s.span.start := hstart
    have hlocated : s.Located whole := hlocated
    have hcontains := (Span.contains_iff.1 h).1
    rw [hlocated.inside] at hcontains
    omega
  | @unterminated span h =>
    have hstart : start ≤ span.start := hstart
    omega

/-- Of the text `cs`, which begins at offset `start`, the look saw what is before the cursor, and found that the
expression `found` is open there, or none. The reader found the same in all of the text. -/
structure Agree (start : Nat) (cs before : List Char) (found : Option (List Char)) : Prop where
  sound : ∀ e, found = some e → ∃ passed, before = passed ++ '$' :: '\x7b' :: e ∧
    ∃ t ∈ tokensFrom start cs, HasContent (start + byteSize before) t (start + byteSize passed + 2)
  complete : ∀ t ∈ tokensFrom start cs, ∀ n, HasContent (start + byteSize before) t n →
    ∃ e, found = some e ∧ start + byteSize before = n + byteSize e

namespace Agree

variable {read : List Char} {earlier : List Token} {found : Option (List Char)} {size : Nat}

/-- Right behind the beginning there is no content yet. -/
theorem atStart (h : byteSize before < 2) : Agree start cs before none := by
  refine ⟨fun e he => ?_, fun t ht n hcontent => ?_⟩
  · cases he
  · have hle := hcontent.le ht
    omega

/-- Agreement behind what both have passed. -/
theorem behind (hread : byteSize read = size)
    (htokens : tokensFrom start cs = earlier ++ tokensFrom (start + size) rest)
    (hearlier : ∀ t ∈ earlier, ∀ n, ¬HasContent (start + byteSize (read ++ before)) t n)
    (h : Agree (start + size) rest before found) : Agree start cs (read ++ before) found := by
  subst hread
  have hoffset : start + byteSize (read ++ before) = start + byteSize read + byteSize before := by
    rw [Text.byteSize_append, Nat.add_assoc]
  refine ⟨fun e he => ?_, fun t ht n hcontent => ?_⟩
  · obtain ⟨passed, rfl, t, ht, hcontent⟩ := h.sound e he
    refine ⟨read ++ passed, (List.append_assoc _ _ _).symm, t, ?_, ?_⟩
    · rw [htokens]
      exact List.mem_append_right _ ht
    · have hpassed : start + byteSize (read ++ passed) = start + byteSize read + byteSize passed := by
        rw [Text.byteSize_append, Nat.add_assoc]
      rw [hoffset, hpassed]
      exact hcontent
  · rw [htokens] at ht
    rcases List.mem_append.1 ht with ht | ht
    · exact absurd hcontent (hearlier t ht n)
    · rw [hoffset] at hcontent ⊢
      exact h.complete t ht n hcontent

/-- In an expression, its content is the only one. -/
theorem inContent (htokens : tokensFrom start cs = t :: tokensFrom (start + size) rest) (hsize : byteSize e < size)
    (ht : ∀ n, HasContent (start + 2 + byteSize e) t n ↔ n = start + 2) :
    Agree start cs ('$' :: '\x7b' :: e) (some e) := by
  have hoffset : start + byteSize ('$' :: '\x7b' :: e) = start + 2 + byteSize e := by
    rw [Syntax.byteSize_opened]
    omega
  refine ⟨fun e' he => ?_, fun u hu n hcontent => ?_⟩
  · obtain rfl := Option.some.inj he
    refine ⟨[], rfl, t, ?_, ?_⟩
    · rw [htokens]
      exact List.mem_cons_self
    · rw [hoffset]
      exact (ht _).2 rfl
  · rw [hoffset] at hcontent ⊢
    rw [htokens] at hu
    rcases List.mem_cons.1 hu with rfl | hu
    · exact ⟨e, rfl, by rw [(ht n).1 hcontent]⟩
    · have hle := hcontent.le hu
      omega

end Agree

/-! ## Along the moves of the reader -/

section

variable {after content behind : List Char} {bracket : Option (List Char)}

/-- Right behind its beginning, a text has no content yet. -/
theorem agree_atStart (hsize : byteSize before < 2)
    (hover : (Progress.over (.text bracket) before).expression? = none) :
    Agree start cs before (Progress.over (.text bracket) before).expression? := by
  rw [hover]
  exact Agree.atStart hsize

/-- The cursor is in an expression that is closed behind it. -/
theorem Closes.agree_within (h : Closes rest content behind) (he : e <+: content) :
    Agree start ('$' :: '\x7b' :: rest) ('$' :: '\x7b' :: e) (some e) := by
  obtain ⟨more, rfl⟩ := he
  have hsize : byteSize (e ++ more) = byteSize e + byteSize more := Text.byteSize_append _ _
  apply Agree.inContent (h.tokens start)
  · omega
  · intro n
    constructor
    · rintro ⟨-⟩
      rfl
    · rintro rfl
      apply HasContent.segment
      rw [Span.contains_iff]
      simp only [segmentAt, Span.ofSize_start, Span.ofSize_stop]
      omega

/-- The cursor is behind an expression that is closed. -/
theorem Closes.agree_behind (h : Closes rest content behind) {found : Option (List Char)}
    (hbehind : Agree (start + (byteSize content + 3)) behind before found) :
    Agree start ('$' :: '\x7b' :: rest) ('$' :: '\x7b' :: (content ++ '\x7d' :: before)) found := by
  have hpassed : '$' :: '\x7b' :: (content ++ '\x7d' :: before) =
      ('$' :: '\x7b' :: (content ++ ['\x7d'])) ++ before := by
    simp only [List.cons_append, List.append_assoc, List.nil_append]
  have htokens : tokensFrom start ('$' :: '\x7b' :: rest) =
      [.segment (segmentAt start content)] ++ tokensFrom (start + (byteSize content + 3)) behind := h.tokens start
  rw [hpassed]
  apply Agree.behind (Syntax.byteSize_closed content) htokens _ hbehind
  intro t ht n hcontent
  obtain rfl := List.mem_singleton.1 ht
  rw [Text.byteSize_append, Syntax.byteSize_closed] at hcontent
  cases hcontent with
  | segment hcontains =>
    have hstop := (Span.contains_iff.1 hcontains).2
    simp only [segmentAt, Span.ofSize_stop] at hstop
    omega

/-- The move over an expression that is closed. -/
theorem Closes.agree (h : Closes rest content behind) (hsplit : rest = before ++ after)
    (hbehind : ∀ more, behind = more ++ after →
      Agree (start + (byteSize content + 3)) behind more (Progress.over (.text none) more).expression?) :
    Agree start ('$' :: '\x7b' :: rest) ('$' :: '\x7b' :: before)
      (Progress.over (.text bracket) ('$' :: '\x7b' :: before)).expression? := by
  by_cases hprefix : before <+: content
  · have hopen : opened.StaysOpen before := by
      obtain ⟨more, hmore⟩ := hprefix
      exact (hmore ▸ h.staysOpen).left
    rw [Progress.over_content hopen]
    exact h.agree_within hprefix
  · rcases List.append_eq_append_iff.1 (h.split.symm.trans hsplit) with ⟨more, hbefore, hmore⟩ | ⟨more, hcontent, -⟩
    · rcases more with _ | ⟨x, more⟩
      · -- Right before the closing brace, the cursor is in the expression.
        rw [List.append_nil] at hbefore
        exact absurd (hbefore ▸ List.prefix_rfl) hprefix
      · obtain ⟨rfl, hrest⟩ := List.cons.inj hmore
        rw [hbefore, Progress.over_behind h]
        exact h.agree_behind (hbehind more hrest)
    · exact absurd ⟨more, hcontent.symm⟩ hprefix

/-- An expression that is never closed is open wherever the cursor is in it. -/
theorem NeverCloses.agree (h : NeverCloses rest) (hsplit : rest = before ++ after) :
    Agree start ('$' :: '\x7b' :: rest) ('$' :: '\x7b' :: before)
      (Progress.over (.text bracket) ('$' :: '\x7b' :: before)).expression? := by
  subst hsplit
  rw [Progress.over_content h.staysOpen.left]
  have htokens : tokensFrom start ('$' :: '\x7b' :: (before ++ after)) =
      .unterminated (unterminatedSpan start (before ++ after)) :: tokensFrom (start + (byteSize before + 1)) [] := by
    rw [h.tokens, tokensFrom]
  apply Agree.inContent htokens (Nat.lt_succ_self _)
  intro n
  constructor
  · rintro ⟨-⟩
    rfl
  · rintro rfl
    exact HasContent.unterminated (Nat.le_add_right _ _)

/-- A text on one line, without opening brackets. -/
structure IsLine (cs : List Char) : Prop where
  feed : '\n' ∉ cs
  bracket : '[' ∉ cs

theorem IsLine.of_suffix (h : IsLine cs) (hsuffix : rest <:+ cs) : IsLine rest :=
  ⟨fun hfeed => h.feed (hsuffix.subset hfeed), fun hbracket => h.bracket (hsuffix.subset hbracket)⟩

/-- **The look and the reader agree about what is before the cursor, wherever the cursor is.** -/
theorem agree_over (start : Nat) (cs : List Char) (hline : IsLine cs) (hsplit : cs = before ++ after) :
    Agree start cs before (Progress.over (.text bracket) before).expression? := by
  induction start, cs using Syntax.moves_induction generalizing before bracket with
  | nil start =>
    obtain ⟨rfl, rfl⟩ := List.append_eq_nil_iff.1 hsplit.symm
    exact agree_atStart Nat.two_pos rfl
  | lone start =>
    rcases before with _ | ⟨x, before⟩
    · exact agree_atStart Nat.two_pos rfl
    · obtain ⟨rfl, htail⟩ := List.cons.inj hsplit
      obtain ⟨rfl, rfl⟩ := List.append_eq_nil_iff.1 htail.symm
      exact agree_atStart Nat.one_lt_two rfl
  | escape start c rest ih =>
    rcases before with _ | ⟨x, _ | ⟨y, before⟩⟩
    · exact agree_atStart Nat.two_pos rfl
    · obtain ⟨rfl, -⟩ := List.cons.inj hsplit
      exact agree_atStart Nat.one_lt_two rfl
    · obtain ⟨rfl, htail⟩ := List.cons.inj hsplit
      obtain ⟨rfl, hrest⟩ := List.cons.inj htail
      rw [Nat.add_assoc] at ih
      rw [Progress.over_escape]
      have htokens : tokensFrom start ('\\' :: c :: rest) = [] ++ tokensFrom (start + (1 + c.utf8Size)) rest := by
        rw [Syntax.tokensFrom_escape, Nat.add_assoc, List.nil_append]
      have hread : byteSize ['\\', c] = 1 + c.utf8Size := rfl
      exact Agree.behind hread htokens (List.forall_mem_nil _) (ih (hline.of_suffix ⟨['\\', c], rfl⟩) hrest)
  | closed start rest hclosed ih =>
    rcases before with _ | ⟨x, _ | ⟨y, before⟩⟩
    · exact agree_atStart Nat.two_pos rfl
    · obtain ⟨rfl, -⟩ := List.cons.inj hsplit
      exact agree_atStart Nat.one_lt_two rfl
    · obtain ⟨rfl, htail⟩ := List.cons.inj hsplit
      obtain ⟨rfl, hrest⟩ := List.cons.inj htail
      have hfound := closes hclosed
      have hsuffix : (expressionEnd 1 none rest).rest <:+ '$' :: '\x7b' :: rest := by
        refine ⟨'$' :: '\x7b' :: ((expressionEnd 1 none rest).content ++ ['\x7d']), ?_⟩
        conv_rhs => rw [hfound.split]
        simp only [List.cons_append, List.append_assoc, List.nil_append]
      rw [Nat.add_assoc] at ih
      apply hfound.agree hrest
      intro more hmore
      exact ih (hline.of_suffix hsuffix) hmore
  | unclosed start rest hclosed ih =>
    rcases before with _ | ⟨x, _ | ⟨y, before⟩⟩
    · exact agree_atStart Nat.two_pos rfl
    · obtain ⟨rfl, -⟩ := List.cons.inj hsplit
      exact agree_atStart Nat.one_lt_two rfl
    · obtain ⟨rfl, htail⟩ := List.cons.inj hsplit
      obtain ⟨rfl, hrest⟩ := List.cons.inj htail
      exact (neverCloses hclosed (hline.of_suffix ⟨['$', '\x7b'], rfl⟩).feed).agree hrest
  | brackets start rest name after hname ih => exact absurd List.mem_cons_self hline.bracket
  | plain start c rest hplain ih =>
    rcases before with _ | ⟨x, before⟩
    · exact agree_atStart Nat.two_pos rfl
    obtain ⟨rfl, hrest⟩ := List.cons.inj hsplit
    have hopening : c = '$' → before.head? ≠ some '\x7b' := by
      intro hc hhead
      obtain ⟨tail, rfl⟩ := List.head?_eq_some_iff.1 hhead
      apply hplain.noExpression hc
      rw [hrest]
      rfl
    have hover : ∃ bracket', Progress.over (.text bracket) (c :: before) = Progress.over (.text bracket') before :=
      Progress.over_plain hplain.noEscape hopening
    obtain ⟨bracket', hover⟩ := hover
    rw [hover]
    have htokens : tokensFrom start (c :: rest) = [] ++ tokensFrom (start + c.utf8Size) rest :=
      Syntax.tokensFrom_plain hplain
    have hread : byteSize [c] = c.utf8Size := rfl
    exact Agree.behind hread htokens (List.forall_mem_nil _) (ih (hline.of_suffix ⟨[c], rfl⟩) hrest)

end

/-! ## At the cursor -/

/-- The offset is in the content of an expression, which begins at the second offset: in that of a segment, or behind
the beginning of one that is reported as not closed. -/
inductive ContentAt (start : Nat) (cs : List Char) (o : Nat) : Nat → Prop
  | closed {s : Segment} (hs : s ∈ (TextLine.ofText start cs).segments) (h : s.contentSpan.contains o = true) :
      ContentAt start cs o s.contentSpan.start
  | unclosed {f : Diagnostic} (hf : f ∈ textDiagnostics start cs) (hcode : f.code = .unterminatedExpression)
      (h : f.span.start + 2 ≤ o) : ContentAt start cs o (f.span.start + 2)

theorem contentAt_iff : ContentAt start cs o n ↔ ∃ t ∈ tokensFrom start cs, HasContent o t n := by
  constructor
  · rintro (⟨hs, h⟩ | ⟨hf, -, h⟩)
    · obtain ⟨t, ht, hsegment⟩ := List.mem_filterMap.1 hs
      cases t with
      | segment s =>
        obtain rfl := Option.some.inj hsegment
        exact ⟨_, ht, .segment h⟩
      | reference r => cases hsegment
      | unterminated span => cases hsegment
    · obtain ⟨t, ht, hfinding⟩ := List.mem_filterMap.1 hf
      cases t with
      | segment s => cases hfinding
      | reference r => cases hfinding
      | unterminated span =>
        obtain rfl := Option.some.inj hfinding
        exact ⟨_, ht, .unterminated h⟩
  · rintro ⟨t, ht, hcontent⟩
    cases hcontent with
    | segment h => exact .closed (List.mem_filterMap.2 ⟨_, ht, rfl⟩) h
    | @unterminated span h =>
      have hfinding : Diagnostic.error .unterminatedExpression span "expression is missing its closing '\x7d'" ∈
          textDiagnostics start cs := List.mem_filterMap.2 ⟨_, ht, rfl⟩
      exact .unclosed hfinding rfl h

/-- The context at a cursor is the expression that the look at the text before is in. -/
theorem context_eq_expression :
    context before = .expression e ↔ (Progress.over (.text none) before).expression? = some e := by
  unfold context
  cases Progress.over (.text none) before with
  | text bracket =>
    apply iff_of_false
    · cases bracket with
      | none => exact Context.noConfusion
      | some name =>
        dsimp only
        split <;> exact Context.noConfusion
    · intro h
      cases h
  | expression s depth quote => simp [Progress.expression?]

/-- **On a line without opening brackets, a cursor is in an expression for completion exactly when it is in the content of
one for the reader, and completion has this content up to the cursor.** -/
theorem context_eq_expression_iff (start : Nat) (cs before after : List Char) (hsplit : cs = before ++ after)
    (hfeed : '\n' ∉ cs) (hbracket : '[' ∉ cs) :
    ((∃ e, context before = .expression e) ↔ ∃ n, ContentAt start cs (start + byteSize before) n) ∧
      ∀ n, ContentAt start cs (start + byteSize before) n →
        ∃ e, Text.slice? cs (n - start) (byteSize before) = some e ∧ context before = .expression e := by
  have hagree : Agree start cs before (Progress.over (.text none) before).expression? :=
    agree_over start cs ⟨hfeed, hbracket⟩ hsplit
  have hcomplete : ∀ n, ContentAt start cs (start + byteSize before) n →
        ∃ e, Text.slice? cs (n - start) (byteSize before) = some e ∧ context before = .expression e := by
    intro n hn
    obtain ⟨t, ht, hcontent⟩ := contentAt_iff.1 hn
    obtain ⟨e, he, hoffset⟩ := hagree.complete t ht n hcontent
    obtain ⟨passed, hbefore, -⟩ := hagree.sound e he
    refine ⟨e, ?_, context_eq_expression.2 he⟩
    have hsize : byteSize before = byteSize passed + (byteSize e + 2) := by
      rw [hbefore, Text.byteSize_append, Syntax.byteSize_opened]
    have hstart : n - start = byteSize (passed ++ ['$', '\x7b']) := by
      rw [Text.byteSize_append]
      show _ = byteSize passed + 2
      omega
    have hstop : byteSize before = byteSize (passed ++ ['$', '\x7b']) + byteSize e := by
      omega
    have hparts : cs = passed ++ ['$', '\x7b'] ++ e ++ after := by
      rw [hsplit, hbefore]
      simp only [List.append_assoc, List.cons_append, List.nil_append]
    rw [hstart, hstop, hparts]
    exact Text.slice?_middle _ _ _
  refine ⟨⟨?_, ?_⟩, hcomplete⟩
  · rintro ⟨e, he⟩
    obtain ⟨passed, -, t, ht, hcontent⟩ := hagree.sound e (context_eq_expression.1 he)
    exact ⟨_, contentAt_iff.2 ⟨t, ht, hcontent⟩⟩
  · rintro ⟨n, hn⟩
    obtain ⟨e, -, he⟩ := hcomplete n hn
    exact ⟨e, he⟩

/-- A brace in a string does not close an expression, before the cursor or behind. -/
theorem context_eq_expression_iff_braceQuoted :
    '\n' ∉ "- $\x7b \x7bx: '\x7d'\x7d + 1\x7d".toList ∧ '[' ∉ "- $\x7b \x7bx: '\x7d'\x7d + 1\x7d".toList ∧
      context "- $\x7b \x7bx: '\x7d'\x7d +".toList = .expression " \x7bx: '\x7d'\x7d +".toList := by
  have hfeed : '\n' ∉ "- $\x7b \x7bx: '\x7d'\x7d + 1\x7d".toList := by decide +kernel
  have hbracket : '[' ∉ "- $\x7b \x7bx: '\x7d'\x7d + 1\x7d".toList := by decide +kernel
  have hsegment : segmentAt 2 " \x7bx: '\x7d'\x7d + 1".toList ∈
      (TextLine.ofText 0 "- $\x7b \x7bx: '\x7d'\x7d + 1\x7d".toList).segments := by
    decide +kernel
  have hcontent : ContentAt 0 "- $\x7b \x7bx: '\x7d'\x7d + 1\x7d".toList 15 4 := .closed hsegment (by decide +kernel)
  obtain ⟨e, hslice, hcontext⟩ :=
    (context_eq_expression_iff 0 _ "- $\x7b \x7bx: '\x7d'\x7d +".toList " 1\x7d".toList rfl hfeed hbracket).2 4 hcontent
  have hfound :
      Text.slice? "- $\x7b \x7bx: '\x7d'\x7d + 1\x7d".toList (4 - 0) (byteSize "- $\x7b \x7bx: '\x7d'\x7d +".toList) =
        some " \x7bx: '\x7d'\x7d +".toList := by
    decide +kernel
  obtain rfl := Option.some.inj (hfound.symm.trans hslice)
  exact ⟨hfeed, hbracket, hcontext⟩

end LgLang.Editor
