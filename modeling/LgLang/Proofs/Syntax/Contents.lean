import LgLang.Proofs.Expression.Quoting
import LgLang.Proofs.Syntax.Conservation

/-!
# What stands between the braces of an expression

The reader of texts follows strings and counts braces to find where an expression ends (`Nesting`). The reader of
expressions follows the strings in what was found by a rule of its own (`Quoting`). The two go along side by side
(`Nesting.Lies`): wherever the expression is still open they agree on what is in a string, and the depth tells how many
more braces opened than closed outside of them (`Nesting.Lies.after`). So both find the strings of an expression closed
and its braces balanced, and the brace behind it is the first one at which they are (`segments_readAlike`).
-/

namespace LgLang.Syntax

open Expression (Quoting builtinEngine quoted? unterminated)
open Expression.Quoting (outside)
open Nesting (closed opened)
open Text (byteSize)

variable {c : Char} {cs xs e : List Char} {n : Nesting} {depth start : Nat} {q : Quoting} {g : Segment}

/-! ## Balance -/

/-- How often a character occurs outside of string literals. -/
def bare (c : Char) (cs : List Char) : Nat :=
  (outside.unquoted cs).count c

/-- All strings are closed, and as many braces close as open. Before that no more of them close than have opened. -/
structure Balanced (cs : List Char) : Prop where
  closed : outside.after cs = outside
  ahead : ∀ p, p <+: cs → bare '\x7d' p ≤ bare '\x7b' p
  even : bare '\x7d' cs = bare '\x7b' cs

/-- A string that is opened somewhere is closed. -/
theorem Balanced.quoted?_isSome (h : Balanced cs) {before behind : List Char} {quote : Char}
    (hsplit : cs = before ++ quote :: behind) (hout : outside.after before = outside)
    (hquote : Expression.isQuote quote = true) : (quoted? quote behind).isSome := by
  rw [Option.isSome_iff_ne_none]
  intro hnone
  have hclosed := h.closed
  rw [hsplit, Quoting.after_append, hout, Quoting.after_cons, Quoting.next_quote hquote] at hclosed
  exact (Quoting.quoted?_unclosed hnone).1 hclosed

/-- No brace balances a part of it that goes on. -/
theorem Balanced.not_even (h : Balanced cs) {p : List Char} (hp : p ++ ['\x7d'] <+: cs)
    (hout : outside.after p = outside) : bare '\x7d' p ≠ bare '\x7b' p := by
  intro heven
  have hunquoted : outside.unquoted (p ++ ['\x7d']) = outside.unquoted p ++ ['\x7d'] := by
    rw [Quoting.unquoted_append, hout]
    rfl
  have hcount : ∀ c, bare c (p ++ ['\x7d']) = bare c p + ['\x7d'].count c := by
    intro c
    rw [bare, hunquoted, List.count_append]
    rfl
  have hahead := h.ahead _ hp
  rw [hcount, hcount, heven] at hahead
  exact Nat.not_succ_le_self _ hahead

/-- Of all braces that balance what is before them, the one behind is the first. -/
theorem Balanced.prefix_of_even (h : Balanced e) {p after : List Char} (hp : p ++ ['\x7d'] <+: e ++ '\x7d' :: after)
    (hout : outside.after p = outside) (heven : bare '\x7d' p = bare '\x7b' p) : e <+: p := by
  have hwhole : p <+: e ++ '\x7d' :: after := (List.prefix_append p ['\x7d']).trans hp
  rcases List.prefix_or_prefix_of_prefix (List.prefix_append e _) hwhole with hle | ⟨more, rfl⟩
  · exact hle
  cases more with
  | nil => exact (List.append_nil p).symm ▸ List.prefix_rfl
  | cons c more =>
    rw [List.append_assoc, List.prefix_append_right_inj, List.cons_append] at hp
    obtain ⟨rfl, -⟩ := List.cons_prefix_cons.1 hp
    have hpart : p ++ ['\x7d'] <+: p ++ '\x7d' :: more :=
      (List.prefix_append_right_inj p).2 (List.cons_prefix_cons.2 ⟨rfl, List.nil_prefix⟩)
    exact absurd heven (h.not_even hpart hout)

/-! ## The two readers side by side -/

/-- A place with that nesting lies below so many braces, and for the reader of expressions it stands where the second one
says. -/
inductive Nesting.Lies : Nesting → Nat → Quoting → Prop
  | code {depth : Nat} (h : 0 < depth) : Lies (.code depth) depth outside
  | string {depth : Nat} {quote : Char} (h : 0 < depth) (hquote : Nesting.isQuote quote = true) :
      Lies (.string depth quote) depth (.inside quote)
  | escape {depth : Nat} {quote : Char} (h : 0 < depth) (hquote : Nesting.isQuote quote = true) :
      Lies (.escape depth quote) depth (.hidden quote)

namespace Nesting.Lies

theorem pos (h : n.Lies depth q) : 0 < depth := by
  cases h <;> assumption

theorem opened : Nesting.opened.Lies 1 outside :=
  .code Nat.one_pos

/-- No backslash opens a string. -/
theorem ne_backslash {quote : Char} (h : Nesting.isQuote quote = true) : quote ≠ '\\' := by
  rintro rfl
  exact Bool.false_ne_true h

/-- One character, unless it closes the expression. -/
theorem next (h : n.Lies depth q) (hopen : n.next c ≠ Nesting.closed) :
    ∃ deep, (n.next c).Lies deep (q.next c) ∧
      deep + (q.unquoted [c]).count '\x7d' = depth + (q.unquoted [c]).count '\x7b' := by
  cases h with
  | code hdepth =>
    by_cases hquote : Nesting.isQuote c = true
    · have hnext : (Nesting.code depth).next c = .string depth c := if_pos hquote
      rw [hnext, Quoting.next_quote hquote, Quoting.unquoted_quote hquote]
      exact ⟨depth, .string hdepth hquote, rfl⟩
    have hother : Expression.isQuote c = false := Bool.eq_false_iff.2 hquote
    rw [Quoting.next_other hother, Quoting.unquoted_other hother]
    by_cases hbrace : c = '\x7b'
    · subst hbrace
      exact ⟨depth + 1, .code (Nat.succ_pos depth), rfl⟩
    by_cases hclose : c = '\x7d'
    · subst hclose
      have hinner : depth - 1 ≠ 0 := by
        intro hzero
        exact hopen (congrArg Nesting.code hzero)
      have hdeep : 0 < depth - 1 := Nat.pos_of_ne_zero hinner
      refine ⟨depth - 1, .code hdeep, ?_⟩
      show depth - 1 + 1 = depth
      omega
    · have hnext : (Nesting.code depth).next c = .code depth := by
        simp only [Nesting.next, hquote, beq_eq_false_iff_ne.2 hbrace, beq_eq_false_iff_ne.2 hclose, Bool.false_eq_true,
          if_false]
      rw [hnext]
      refine ⟨depth, .code hdepth, ?_⟩
      rw [List.count_cons_of_ne hclose, List.count_cons_of_ne hbrace]
      rfl
  | @string depth quote hdepth hquote =>
    refine ⟨depth, ?_, rfl⟩
    by_cases hend : c = quote
    · subst hend
      have hnext : (Nesting.string depth c).next c = .code depth := if_pos (beq_self_eq_true c)
      rw [hnext, Quoting.next_closing (ne_backslash hquote) rfl]
      exact .code hdepth
    by_cases hescape : c = '\\'
    · subst hescape
      have hnext : (Nesting.string depth quote).next '\\' = .escape depth quote := by
        simp [Nesting.next, hend]
      rw [hnext]
      exact .escape hdepth hquote
    · have hnext : (Nesting.string depth quote).next c = .string depth quote := by
        simp [Nesting.next, hend, hescape]
      rw [hnext, Quoting.next_inside hescape hend]
      exact .string hdepth hquote
  | @escape depth quote hdepth hquote => exact ⟨depth, .string hdepth hquote, rfl⟩

/-- As long as the expression is open. -/
theorem after (h : n.Lies depth q) (hopen : n.StaysOpen xs) :
    ∃ deep, (n.after xs).Lies deep (q.after xs) ∧
      deep + (q.unquoted xs).count '\x7d' = depth + (q.unquoted xs).count '\x7b' := by
  induction xs generalizing n depth q with
  | nil => exact ⟨depth, h, rfl⟩
  | cons c xs ih =>
    obtain ⟨-, htail⟩ := Nesting.staysOpen_cons.1 hopen
    obtain ⟨between, hnext, hone⟩ := h.next htail.ne_closed
    obtain ⟨deep, hafter, hmore⟩ := ih hnext htail
    refine ⟨deep, hafter, ?_⟩
    have happend : q.unquoted ([c] ++ xs) = q.unquoted [c] ++ (q.next c).unquoted xs := Quoting.unquoted_append
    rw [← List.singleton_append, happend, List.count_append, List.count_append]
    omega

/-- Where a brace closes the expression, it is outside of strings, and closes the last one that is open. -/
theorem of_closing (h : n.Lies depth q) (hclose : n.next '\x7d' = Nesting.closed) : q = outside ∧ depth = 1 := by
  cases h with
  | code hdepth =>
    have hlast : depth - 1 = 0 := Nesting.code.inj hclose
    exact ⟨rfl, by omega⟩
  | @string depth quote hdepth hquote =>
    -- In a string the brace does not even change the depth.
    simp only [Nesting.next] at hclose
    split at hclose
    · have hzero : depth = 0 := Nesting.code.inj hclose
      omega
    · split at hclose <;> cases hclose
  | @escape depth quote hdepth hquote => cases hclose

end Nesting.Lies

theorem alike_of_staysOpen (hopen : opened.StaysOpen e) {p : List Char} (hp : p <+: e) :
    ∃ depth, (opened.after p).Lies depth (outside.after p) := by
  obtain ⟨more, rfl⟩ := hp
  obtain ⟨depth, hlies, -⟩ := Nesting.Lies.opened.after hopen.left
  exact ⟨depth, hlies⟩

/-- What is open up to the brace that closes it is balanced. -/
theorem balanced_of_closing (hopen : opened.StaysOpen e) (hclose : (opened.after e).next '\x7d' = closed) :
    Balanced e := by
  obtain ⟨deep, hlies, heven⟩ := Nesting.Lies.opened.after hopen
  obtain ⟨hclosed, rfl⟩ := hlies.of_closing hclose
  refine ⟨hclosed, ?_, ?_⟩
  · rintro p ⟨more, rfl⟩
    obtain ⟨deep, hp, hahead⟩ := Nesting.Lies.opened.after hopen.left
    have hpos := hp.pos
    unfold bare
    omega
  · unfold bare
    omega

/-! ## Expressions of texts and of files -/

/-- The readers of texts and of expressions agree on an expression of the text `cs`, whose first byte has offset
`start`. All along it they see the same strings. All of these are closed, and none is reported not to be. The braces
balance, and the expression ends at the first brace at which they do. -/
structure ReadAlike (start : Nat) (cs : List Char) (g : Segment) : Prop where
  alike : ∀ p, p <+: g.expression.toList → ∃ depth, (opened.after p).Lies depth (outside.after p)
  strings : ∀ before quote behind, g.expression.toList = before ++ quote :: behind → outside.after before = outside →
    Expression.isQuote quote = true → (quoted? quote behind).isSome
  balanced : Balanced g.expression.toList
  terminated : ∀ m ∈ (builtinEngine.parse g.expression).mistakes, m.message ≠ unterminated
  ends : ∃ before after, cs = before ++ '$' :: '\x7b' :: (g.expression.toList ++ '\x7d' :: after) ∧
    g.span = .ofSize (start + byteSize before) (byteSize g.expression.toList + 3) ∧
      ∀ p, p ++ ['\x7d'] <+: g.expression.toList ++ '\x7d' :: after → outside.after p = outside →
        bare '\x7d' p = bare '\x7b' p → g.expression.toList <+: p

theorem Balanced.readAlike (h : Balanced g.expression.toList)
    (halike : ∀ p, p <+: g.expression.toList → ∃ depth, (opened.after p).Lies depth (outside.after p))
    {before after : List Char} (hsplit : cs = before ++ '$' :: '\x7b' :: (g.expression.toList ++ '\x7d' :: after))
    (hspan : g.span = .ofSize (start + byteSize before) (byteSize g.expression.toList + 3)) : ReadAlike start cs g where
  alike := halike
  strings _ _ _ hstring hout hquote := h.quoted?_isSome hstring hout hquote
  balanced := h
  terminated := Expression.scan_terminated h.closed
  ends := ⟨before, after, hsplit, hspan, fun _ hp hout heven => h.prefix_of_even hp hout heven⟩

theorem Passage.readAlike {p : Passage} (hg : g ∈ p.segments) : ReadAlike p.start p.text g := by
  obtain ⟨s, rest, hreach, hfound, rfl⟩ := exists_reaches_of_segment (Token.mem_of_mem_segments hg)
  obtain ⟨before, htext, rfl⟩ := hreach.exists_append
  obtain ⟨hsplit, hopen, hclose⟩ := expressionEnd_closed hfound
  have hexpression : (segmentAt (p.start + byteSize before) (expressionEnd 1 none rest).content).expression.toList =
      (expressionEnd 1 none rest).content := String.toList_ofList
  apply Balanced.readAlike
  · rw [hexpression]
    exact balanced_of_closing hopen hclose
  · rw [hexpression]
    exact fun p hp => alike_of_staysOpen hopen hp
  · rw [hexpression, ← hsplit]
    exact htext
  · rw [hexpression]
    rfl

/-- **The readers of texts and of expressions agree on where strings are and where braces balance: on every expression of a
text, and on every expression of a file.** -/
theorem segments_readAlike :
    (∀ start cs, ∀ g ∈ (TextLine.ofText start cs).segments, ReadAlike start cs g) ∧
      ∀ text, ∀ t ∈ (parse text).file.templates, ∀ g ∈ t.segments, ReadAlike 0 text.toList g := by
  constructor
  · intro start cs g hg
    exact Passage.readAlike (p := ⟨start, cs⟩) hg
  · intro text t ht g hg
    -- The balance is told in its bullet or property, the place in the whole text.
    have hlocated := (((parse_placed text).templates t ht).segments g hg).1
    rw [parse_templates] at ht
    obtain ⟨h, -, rfl⟩ := List.mem_map.1 ht
    obtain ⟨p, -, hp⟩ := Heading.segments_subset g hg
    have hread := Passage.readAlike hp
    obtain ⟨⟨before, after, htext, hstart⟩, hstop⟩ := Span.holds_iff.1 hlocated.whole
    rw [List.append_assoc, List.cons_append, List.cons_append, List.append_assoc, List.singleton_append] at htext
    apply hread.balanced.readAlike hread.alike htext
    rw [byteSize_closed] at hstop
    rw [Nat.zero_add, ← hstart]
    exact Span.ext rfl hstop

/-- A quoted brace does not end an expression, and a quote behind a backslash does not end a string. -/
theorem segments_readAlike_braceQuoted :
    ∃ t ∈ (parse "# T\n- $\x7bf('\\'\x7d', \x7ba\x7d)\x7d b\x7d").file.templates, ∃ g ∈ t.segments,
      g.expression = "f('\\'\x7d', \x7ba\x7d)" ∧
        ReadAlike 0 "# T\n- $\x7bf('\\'\x7d', \x7ba\x7d)\x7d b\x7d".toList g := by
  have hfound : ∃ t ∈ (parse "# T\n- $\x7bf('\\'\x7d', \x7ba\x7d)\x7d b\x7d").file.templates, ∃ g ∈ t.segments,
      g.expression = "f('\\'\x7d', \x7ba\x7d)" := by
    decide +kernel
  obtain ⟨t, ht, g, hg, hexpression⟩ := hfound
  exact ⟨t, ht, g, hg, hexpression, segments_readAlike.2 _ t ht g hg⟩

end LgLang.Syntax
