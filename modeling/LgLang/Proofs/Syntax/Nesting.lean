import LgLang.Syntax.Scan

/-!
# The brace that closes an expression

An expression ends at the first brace that balances the one it was opened with, where braces in quoted strings do not
count. `Nesting` tells how deep a place in an expression lies. Every character moves it (`Nesting.next`), so that a text
has an effect on it (`Nesting.after`), and an expression stays open along a text when none of its characters closes it
(`Nesting.StaysOpen`).

`look` searches for the closing brace by this alone, and `expressionEnd` finds what it finds
(`expressionEnd_eq_look`). A line feed ends the search (`look_line`), except right behind a backslash in a string: there
it is escaped, as any other character would be (`look_escaped`).
-/

namespace LgLang.Syntax

/-- How deep a place in an expression lies: below how many open braces, and whether in a string, or behind a backslash
in one. -/
inductive Nesting where
  | code (depth : Nat)
  | string (depth : Nat) (quote : Char)
  | escape (depth : Nat) (quote : Char)
  deriving DecidableEq, Repr

namespace Nesting

/-- Right behind the dollar sign and the brace that open an expression. -/
def opened : Nesting :=
  .code 1

/-- No brace is open any more. -/
def closed : Nesting :=
  .code 0

/-- The marks that open and close strings. -/
def isQuote (c : Char) : Bool :=
  c == '\'' || c == '"' || c == '\x60'

/-- The nesting behind one more character. -/
def next : Nesting → Char → Nesting
  | .code depth, c =>
    if isQuote c then .string depth c
    else if c == '\x7b' then .code (depth + 1)
    else if c == '\x7d' then .code (depth - 1)
    else .code depth
  | .string depth q, c =>
    if c == q then .code depth
    else if c == '\\' then .escape depth q
    else .string depth q
  | .escape depth q, _ => .string depth q

/-- The nesting behind a text. -/
def after (n : Nesting) (xs : List Char) : Nesting :=
  xs.foldl next n

/-- No character of the text closes the expression. -/
def StaysOpen (n : Nesting) (xs : List Char) : Prop :=
  ∀ p, p <+: xs → n.after p ≠ closed

/-- Whether the next character is escaped. -/
def isEscape : Nesting → Bool
  | .escape _ _ => true
  | _ => false

variable {n : Nesting} {c : Char} {xs ys : List Char}

theorem staysOpen_nil : n.StaysOpen [] ↔ n ≠ closed := by
  constructor
  · intro h
    exact h [] (List.nil_prefix)
  · intro h p hp
    rw [List.prefix_nil.1 hp]
    exact h

theorem staysOpen_cons : n.StaysOpen (c :: xs) ↔ n ≠ closed ∧ (n.next c).StaysOpen xs := by
  constructor
  · intro h
    refine ⟨h [] List.nil_prefix, ?_⟩
    intro p hp
    exact h (c :: p) (List.cons_prefix_cons.2 ⟨rfl, hp⟩)
  · rintro ⟨hn, hxs⟩ p hp
    rcases List.prefix_cons_iff.1 hp with rfl | ⟨p', rfl, hp'⟩
    · exact hn
    · exact hxs p' hp'

theorem StaysOpen.left (h : n.StaysOpen (xs ++ ys)) : n.StaysOpen xs :=
  fun p hp => h p (hp.trans (List.prefix_append xs ys))

theorem StaysOpen.ne_closed (h : n.StaysOpen xs) : n ≠ closed :=
  h [] List.nil_prefix

/-- What is escaped does not close anything. -/
theorem next_ne_closed_of_isEscape (h : n.isEscape = true) : n.next c ≠ closed := by
  cases n with
  | code depth => cases h
  | string depth q => cases h
  | escape depth q => exact Nesting.noConfusion

end Nesting

open Nesting (opened closed isQuote)

/-- Searches for the closing brace. A line feed that is not escaped ends the search. -/
def look : Nesting → List Char → ExpressionEnd
  | _, [] => ⟨[], [], false⟩
  | n, c :: cs =>
    if c == '\n' && !n.isEscape then ⟨[], c :: cs, false⟩
    else if n.next c = closed then ⟨[], cs, true⟩
    else (look (n.next c) cs).before c

/-- The same end, seen from the beginning of a text before it. -/
def ExpressionEnd.behind (xs : List Char) (e : ExpressionEnd) : ExpressionEnd :=
  { e with content := xs ++ e.content }

variable {n : Nesting} {c : Char} {cs xs line below : List Char} {depth : Nat} {quote : Option Char}

/-! ## The search, character by character -/

/-- The nesting below `depth` braces, in a string if `quote` is set. -/
def Nesting.within (depth : Nat) : Option Char → Nesting
  | none => .code depth
  | some q => .string depth q

/-- A character that does not end the search is passed. -/
theorem look_cons (hfeed : c = '\n' → n.isEscape = true) (hopen : n.next c ≠ closed) :
    look n (c :: cs) = (look (n.next c) cs).before c := by
  have hgoes : (c == '\n' && !n.isEscape) = false := by
    by_cases hc : c = '\n'
    · simp [hfeed hc]
    · simp [hc]
  simp only [look, hgoes, Bool.false_eq_true, if_false, if_neg hopen]

/-- **The end of an expression is found at the first brace that balances the opening one outside of strings.** -/
theorem expressionEnd_eq_look_within (hdepth : 0 < depth) (hquote : ∀ q, quote = some q → isQuote q = true)
    (cs : List Char) : expressionEnd depth quote cs = look (.within depth quote) cs := by
  fun_induction expressionEnd depth quote cs with
  | case1 => rfl
  | case2 depth c cs hfeed => simp [look, hfeed, Nesting.within, Nesting.isEscape]
  | case3 depth c cs hfeed hmark ih =>
    have hnext : (Nesting.code depth).next c = .string depth c := if_pos hmark
    rw [Nesting.within, look_cons (by simp_all) (by simp [hnext, closed]), hnext, ih hdepth]
    · rfl
    · intro q hq
      obtain rfl := Option.some.inj hq
      exact hmark
  | case4 depth c cs hfeed hmark hbrace ih =>
    have hnext : (Nesting.code depth).next c = .code (depth + 1) := by
      simp only [Nesting.next, isQuote, if_neg hmark, if_pos hbrace]
    rw [Nesting.within, look_cons (by simp_all) (by simp [hnext, closed]), hnext, ih (Nat.succ_pos depth) hquote]
    rfl
  | case5 c cs hfeed hmark hbrace hclose =>
    have hnext : (Nesting.code 1).next c = closed := by
      simp only [Nesting.next, isQuote, if_neg hmark, if_neg hbrace, if_pos hclose, closed]
    simp_all [look, Nesting.within]
  | case6 depth c cs hfeed hmark hbrace hclose hdeep ih =>
    have hnext : (Nesting.code depth).next c = .code (depth - 1) := by
      simp only [Nesting.next, isQuote, if_neg hmark, if_neg hbrace, if_pos hclose]
    have hinner : 0 < depth - 1 := by omega
    rw [Nesting.within, look_cons (by simp_all) (by simp [hnext, closed]; omega), hnext, ih hinner hquote]
    rfl
  | case7 depth c cs hfeed hmark hbrace hclose ih =>
    have hnext : (Nesting.code depth).next c = .code depth := by
      simp only [Nesting.next, isQuote, if_neg hmark, if_neg hbrace, if_neg hclose]
    rw [Nesting.within, look_cons (by simp_all) (by simp [hnext, closed]; omega), hnext, ih hdepth hquote]
    rfl
  | case8 depth q c cs hend ih =>
    have hq := hquote q rfl
    have hnext : (Nesting.string depth q).next c = .code depth := if_pos hend
    -- The closing mark is tried before the line feed, and it is none.
    have hc : c ≠ '\n' := by
      rintro rfl
      rw [← eq_of_beq hend] at hq
      exact absurd hq (by decide)
    rw [Nesting.within, look_cons (fun h => absurd h hc) (by simp [hnext, closed]; omega), hnext,
      ih hdepth (fun _ h => by cases h)]
    rfl
  | case9 depth q c cs hend hfeed => simp [look, hfeed, Nesting.within, Nesting.isEscape]
  | case10 depth q c hend hfeed hback =>
    have hnext : (Nesting.string depth q).next c = .escape depth q := by
      simp only [Nesting.next, if_neg hend, if_pos hback]
    rw [Nesting.within, look_cons (by simp_all) (by simp [hnext, closed]), hnext, eq_of_beq hback]
    rfl
  | case11 depth q c hend hfeed hback d ds ih =>
    -- The backslash and the character behind it are two moves.
    have hnext : (Nesting.string depth q).next c = .escape depth q := by
      simp only [Nesting.next, if_neg hend, if_pos hback]
    rw [Nesting.within, look_cons (by simp_all) (by simp [hnext, closed]), hnext,
      look_cons (fun _ => rfl) Nesting.noConfusion, ih hdepth hquote]
    rfl
  | case12 depth q c cs hend hfeed hback ih =>
    have hnext : (Nesting.string depth q).next c = .string depth q := by
      simp only [Nesting.next, if_neg hend, if_neg hback]
    rw [Nesting.within, look_cons (by simp_all) (by simp [hnext, closed]), hnext, ih hdepth hquote]
    rfl

theorem expressionEnd_eq_look (cs : List Char) : expressionEnd 1 none cs = look opened cs :=
  expressionEnd_eq_look_within Nat.one_pos (fun _ h => by cases h) cs

/-! ## Along a line -/

theorem look_append (hopen : n.StaysOpen line) (hline : '\n' ∉ line) (rest : List Char) :
    look n (line ++ rest) = (look (n.after line) rest).behind line := by
  induction line generalizing n with
  | nil => rfl
  | cons c line ih =>
    obtain ⟨-, htail⟩ := Nesting.staysOpen_cons.1 hopen
    have hc : c ≠ '\n' := by
      rintro rfl
      exact hline List.mem_cons_self
    rw [List.cons_append, look_cons (fun hfeed => absurd hfeed hc) htail.ne_closed,
      ih htail (fun hmem => hline (List.mem_cons_of_mem c hmem))]
    rfl

/-- An expression that is open at the end of a line is searched no further. -/
theorem look_line (hopen : n.StaysOpen line) (hline : '\n' ∉ line) (hescape : (n.after line).isEscape = false) :
    look n (line ++ '\n' :: below) = ⟨line, '\n' :: below, false⟩ := by
  have hstop : look (n.after line) ('\n' :: below) = ⟨[], '\n' :: below, false⟩ := by
    simp [look, hescape]
  rw [look_append hopen hline, hstop]
  simp [ExpressionEnd.behind]

/-- The line feed behind a backslash in a string does not end the search. -/
theorem look_escaped (hopen : n.StaysOpen line) (hline : '\n' ∉ line) (hescape : (n.after line).isEscape = true) :
    look n (line ++ '\n' :: below) = (look ((n.after line).next '\n') below).behind (line ++ ['\n']) := by
  rw [look_append hopen hline, look_cons (fun _ => hescape) (Nesting.next_ne_closed_of_isEscape hescape)]
  simp [ExpressionEnd.behind, ExpressionEnd.before]

/-- A search that finds the closing brace has this behind the expression. -/
theorem look_closed (h : (look n cs).closed = true) :
    ∃ c, cs = (look n cs).content ++ c :: (look n cs).rest ∧ (n.after (look n cs).content).next c = closed := by
  induction cs generalizing n with
  | nil => cases h
  | cons c cs ih =>
    by_cases hfeed : (c == '\n' && !n.isEscape) = true
    · simp [look, hfeed] at h
    by_cases hclose : n.next c = closed
    · have hlook : look n (c :: cs) = ⟨[], cs, true⟩ := by simp [look, hfeed, hclose]
      rw [hlook]
      exact ⟨c, rfl, hclose⟩
    · have hlook : look n (c :: cs) = (look (n.next c) cs).before c := by simp [look, hfeed, hclose]
      rw [hlook] at h ⊢
      obtain ⟨d, hsplit, hd⟩ := ih h
      exact ⟨d, congrArg (c :: ·) hsplit, hd⟩

/-- A search that does not find the closing brace goes to the end of its line. -/
theorem look_unclosed (h : (look n cs).closed = false) (hline : '\n' ∉ cs) : (look n cs).rest = [] := by
  induction cs generalizing n with
  | nil => rfl
  | cons c cs ih =>
    rw [List.mem_cons, not_or] at hline
    obtain ⟨hc, hcs⟩ := hline
    by_cases hclose : n.next c = closed
    · have hlook : look n (c :: cs) = ⟨[], cs, true⟩ := by simp [look, hclose, Ne.symm hc]
      rw [hlook] at h
      cases h
    · rw [look_cons (fun hfeed => absurd hfeed.symm hc) hclose] at h ⊢
      exact ih h hcs

/-- The expression is open up to where the search ended. -/
theorem staysOpen_look (hn : n ≠ closed) (cs : List Char) : n.StaysOpen (look n cs).content := by
  induction cs generalizing n with
  | nil => exact Nesting.staysOpen_nil.2 hn
  | cons c cs ih =>
    simp only [look]
    split
    · exact Nesting.staysOpen_nil.2 hn
    · split
      · exact Nesting.staysOpen_nil.2 hn
      · next hopen => exact Nesting.staysOpen_cons.2 ⟨hn, ih hopen⟩

end LgLang.Syntax
