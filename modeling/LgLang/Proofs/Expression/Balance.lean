import LgLang.Proofs.Expression.Mistakes
import LgLang.Proofs.Expression.Quoting

/-!
# Which expressions have mistakes

The built-in reader finds no mistake in an expression exactly when all its string literals are closed and its brackets,
those in literals aside, are nested (`scan_faultless`). While it reads, the brackets that are open are to be closed by what
is still to be read, innermost first (`ClosesAll`); one step neither makes nor breaks this (`Scan.Reads.faultless`).

The reader stays on an `@` or a `$` outside of literals, and does not see what comes behind it. So this is about expressions
without those.
-/

namespace LgLang.Expression

open Quoting (outside)
open Text (byteSize)

/-! ## Nested brackets -/

/-- Brackets of which each that opens is closed by one of its kind, with nested brackets between them. -/
inductive Nested : List Char → Prop
  | nil : Nested []
  | pair {opener : Char} {xs ys : List Char} (hopener : isOpener opener = true) (hinner : Nested xs)
      (hbehind : Nested ys) : Nested (opener :: (xs ++ closerOf opener :: ys))

/-- The characters close all the openers, the first of them first, and are nested before, between and behind these
closers. -/
def ClosesAll : List Char → List Char → Prop
  | [], cs => Nested cs
  | opener :: outer, cs => ∃ xs ys, cs = xs ++ closerOf opener :: ys ∧ Nested xs ∧ ClosesAll outer ys

variable {c opener : Char} {cs read rest xs ys openers : List Char} {s s' : Scan}

/-- Nested brackets begin with an opener. -/
theorem Nested.head (h : Nested (c :: cs)) :
    isOpener c = true ∧ ∃ xs ys, cs = xs ++ closerOf c :: ys ∧ Nested xs ∧ Nested ys := by
  cases h with
  | pair hopener hinner hbehind => exact ⟨hopener, _, _, rfl, hinner, hbehind⟩

theorem closesAll_nil : ClosesAll openers [] ↔ openers = [] := by
  constructor
  · intro h
    cases openers with
    | nil => rfl
    | cons opener outer =>
      obtain ⟨xs, ys, hcs, -⟩ := h
      simp at hcs
  · rintro rfl
    exact .nil

/-- An opener is one more bracket to close. -/
theorem closesAll_opener (hopener : isOpener opener = true) :
    ClosesAll openers (opener :: cs) ↔ ClosesAll (opener :: openers) cs := by
  cases openers with
  | nil =>
    constructor
    · intro h
      exact (Nested.head h).2
    · rintro ⟨xs, ys, rfl, hxs, hys⟩
      exact .pair hopener hxs hys
  | cons first outer =>
    constructor
    · rintro ⟨xs, zs, hcs, hxs, hzs⟩
      cases xs with
      | nil =>
        obtain rfl : opener = closerOf first := (List.cons.inj hcs).1
        cases hopener.symm.trans (isOpener_of_isCloser (isCloser_closerOf first))
      | cons x xs =>
        obtain ⟨rfl, rfl⟩ := List.cons.inj hcs
        obtain ⟨-, inner, behind, rfl, hinner, hbehind⟩ := Nested.head hxs
        refine ⟨inner, behind ++ closerOf first :: zs, ?_, hinner, behind, zs, rfl, hbehind, hzs⟩
        exact List.append_assoc inner (closerOf opener :: behind) (closerOf first :: zs)
    · rintro ⟨xs, ys, rfl, hxs, zs, us, rfl, hzs, hus⟩
      refine ⟨opener :: (xs ++ closerOf opener :: zs), us, ?_, .pair hopener hxs hzs, hus⟩
      simp

/-- A closer closes the first of the openers, and is of its kind. -/
theorem closesAll_closer (hcloser : isCloser c = true) :
    ClosesAll openers (c :: cs) ↔
      ∃ opener outer, openers = opener :: outer ∧ closerOf opener = c ∧ ClosesAll outer cs := by
  have hopener := isOpener_of_isCloser hcloser
  constructor
  · intro h
    cases openers with
    | nil => cases hopener.symm.trans (Nested.head h).1
    | cons opener outer =>
      obtain ⟨xs, ys, hcs, hxs, hys⟩ := h
      cases xs with
      | nil =>
        obtain ⟨rfl, rfl⟩ := List.cons.inj hcs
        exact ⟨opener, outer, rfl, rfl, hys⟩
      | cons x xs =>
        obtain ⟨rfl, -⟩ := List.cons.inj hcs
        cases hopener.symm.trans (Nested.head hxs).1
  · rintro ⟨opener, outer, rfl, rfl, h⟩
    exact ⟨[], cs, rfl, .nil, h⟩

/-! ## The brackets of an expression -/

/-- The brackets outside of string literals. -/
def brackets (cs : List Char) : List Char :=
  (outside.unquoted cs).filter isBracket

/-- No `@` and no `$` stands outside of literals. These begin names, but do not go on with them. -/
def Markless (cs : List Char) : Prop :=
  ∀ c ∈ outside.unquoted cs, c ≠ '@' ∧ c ≠ '$'

instance (cs : List Char) : Decidable (Markless cs) :=
  List.decidableBAll (fun c => c ≠ '@' ∧ c ≠ '$') (outside.unquoted cs)

theorem isNameRest_of_isNameStart (h : isNameStart c = true) (hmark : c ≠ '@' ∧ c ≠ '$') : isNameRest c = true := by
  simp only [isNameStart, isNameRest, Char.isAlphanum, Bool.or_eq_true, beq_iff_eq] at h ⊢
  rcases h with ((h | h) | h) | h
  · exact Or.inl (Or.inl (Or.inl h))
  · exact Or.inl (Or.inr h)
  · exact absurd h hmark.1
  · exact absurd h hmark.2

theorem brackets_append (h : outside.after read = outside) :
    brackets (read ++ rest) = brackets read ++ brackets rest := by
  rw [brackets, Quoting.unquoted_append, h, List.filter_append]
  rfl

theorem brackets_cons (h : isBracket c = true) : brackets (c :: cs) = c :: brackets cs := by
  rw [brackets, Quoting.unquoted_other (isQuote_of_isBracket h)]
  exact List.filter_cons_of_pos h

theorem brackets_plain (h : ∀ c ∈ cs, isPlain c = true) : brackets cs = [] := by
  rw [brackets, Quoting.unquoted_plain fun c hc => isQuote_of_isPlain (h c hc), List.filter_eq_nil_iff]
  intro c hc
  have hplain := h c hc
  simp only [isPlain, Bool.and_eq_true, Bool.not_eq_true'] at hplain
  simp [hplain.2]

theorem brackets_literal {quote : Char} {inside : List Char} (hquote : isQuote quote = true)
    (h : quoted? quote cs = some (inside, rest)) : brackets (quote :: inside) = [] := by
  rw [brackets, Quoting.unquoted_quote hquote, (Quoting.quoted?_closed h).2]
  rfl

namespace Scan

/-! ## No mistakes so far, and none to come -/

/-- A scan that has found no mistake, and will find none in what is still to be read. -/
structure Faultless (s : Scan) : Prop where
  mistakes : s.mistakes = []
  closed : outside.after s.rest = outside
  brackets : ClosesAll (s.opened.map Prod.fst) (brackets s.rest)

theorem not_faultless_mistake {message : String} {span : Span} :
    ¬((s.mistake message span).pass read rest).Faultless := by
  intro h
  exact List.append_ne_nil_of_right_ne_nil _ (List.cons_ne_nil _ _) h.mistakes

/-- What is passed outside of literals is read for its brackets only. -/
theorem faultless_pass (hrest : s.rest = read ++ rest) (hread : outside.after read = outside)
    {opened : List (Char × Nat)} (hbrackets : ClosesAll (opened.map Prod.fst) (brackets rest) ↔
      ClosesAll (s.opened.map Prod.fst) (brackets read ++ brackets rest)) :
    ({ s with opened := opened }.pass read rest).Faultless ↔ s.Faultless := by
  constructor
  · rintro ⟨hmistakes, hclosed, hopened⟩
    refine ⟨hmistakes, ?_, ?_⟩
    · rw [hrest, Quoting.after_append, hread]
      exact hclosed
    · rw [hrest, brackets_append hread]
      exact hbrackets.1 hopened
  · rintro ⟨hmistakes, hclosed, hopened⟩
    rw [hrest, Quoting.after_append, hread] at hclosed
    rw [hrest, brackets_append hread] at hopened
    exact ⟨hmistakes, hclosed, hbrackets.2 hopened⟩

theorem faultless_pass_plain (hrest : s.rest = read ++ rest) (hplain : ∀ c ∈ read, isPlain c = true) :
    (s.pass read rest).Faultless ↔ s.Faultless := by
  apply faultless_pass hrest
  · exact Quoting.after_plain fun c hc => isQuote_of_isPlain (hplain c hc)
  · rw [brackets_plain hplain, List.nil_append]

theorem faultless_pass_bracket (hrest : s.rest = c :: cs) (hbracket : isBracket c = true) {opened : List (Char × Nat)}
    (hbrackets : ClosesAll (opened.map Prod.fst) (brackets cs) ↔
      ClosesAll (s.opened.map Prod.fst) (c :: brackets cs)) :
    ({ s with opened := opened }.pass [c] cs).Faultless ↔ s.Faultless := by
  have hsplit : s.rest = [c] ++ cs := hrest
  apply faultless_pass hsplit (Quoting.next_other (isQuote_of_isBracket hbracket))
  rw [brackets_cons hbracket]
  exact hbrackets

/-- A closer that does not close the innermost bracket is a fault. -/
theorem not_faultless_closer (hrest : s.rest = c :: cs) (hcloser : isCloser c = true)
    (hopened : ∀ opener outer, s.opened.map Prod.fst = opener :: outer → closerOf opener ≠ c) : ¬s.Faultless := by
  intro h
  have hbrackets := h.brackets
  rw [hrest, brackets_cons (isBracket_of_isCloser hcloser)] at hbrackets
  obtain ⟨opener, outer, hfirst, hmatch, -⟩ := (closesAll_closer hcloser).1 hbrackets
  exact hopened opener outer hfirst hmatch

/-- A step changes nothing about whether there are mistakes. -/
theorem Reads.faultless (h : s.Reads s') : s'.Faultless ↔ s.Faultless := by
  cases h with
  | @literal quote cs inside rest hrest hquote hclosed =>
    have hsplit : s.rest = (quote :: inside) ++ rest := by
      rw [hrest, ← append_of_quoted? hclosed, List.cons_append]
    apply faultless_pass hsplit
    · rw [Quoting.after_cons, Quoting.next_quote hquote]
      exact (Quoting.quoted?_closed hclosed).1
    · rw [brackets_literal hquote hclosed, List.nil_append]
  | unclosed hrest hquote hopen message =>
    refine iff_of_false not_faultless_mistake ?_
    intro h
    have hclosed := h.closed
    rw [hrest, Quoting.after_cons, Quoting.next_quote hquote] at hclosed
    exact (Quoting.quoted?_unclosed hopen).1 hclosed
  | opener hrest hopener =>
    apply faultless_pass_bracket hrest (isBracket_of_isOpener hopener)
    exact (closesAll_opener hopener).symm
  | @closer opener place outer cs hrest hopened =>
    have hcloser := isCloser_closerOf opener
    apply faultless_pass_bracket hrest (isBracket_of_isCloser hcloser)
    rw [closesAll_closer hcloser, hopened]
    constructor
    · intro h
      exact ⟨opener, _, rfl, rfl, h⟩
    · rintro ⟨first, others, hfirst, -, h⟩
      obtain rfl := (List.cons.inj hfirst).2
      exact h
  | mismatched hrest hcloser hopened hother message =>
    refine iff_of_false not_faultless_mistake (not_faultless_closer hrest hcloser ?_)
    intro first others hfirst
    rw [hopened] at hfirst
    obtain rfl := (List.cons.inj hfirst).1
    exact hother
  | unexpected hrest hcloser hopened message =>
    refine iff_of_false not_faultless_mistake (not_faultless_closer hrest hcloser ?_)
    intro first others hfirst
    rw [hopened] at hfirst
    cases hfirst
  | name hrest hstart hcalls =>
    have hpassed := faultless_pass_plain (s := s) List.takeWhile_append_dropWhile.symm
      fun c hc => isPlain_of_isNameRest (List.mem_takeWhile_imp hc)
    constructor
    · rintro ⟨hmistakes, hclosed, hbrackets⟩
      exact hpassed.1 ⟨hmistakes, hclosed, hbrackets⟩
    · intro h
      obtain ⟨hmistakes, hclosed, hbrackets⟩ := hpassed.2 h
      exact ⟨hmistakes, hclosed, hbrackets⟩
  | plain hrest hne hplain => exact faultless_pass_plain hrest hplain

/-! ## Going on to the end -/

/-- A step goes on, unless it stands on an `@` or a `$`. -/
theorem Reads.forward_of_head (h : s.Reads s') (hmark : ∀ c cs, s.rest = c :: cs → c ≠ '@' ∧ c ≠ '$') :
    s'.rest.length < s.rest.length := by
  have hcons : ∀ {c cs}, s.rest = c :: cs → cs.length < s.rest.length := by
    intro c cs hrest
    rw [hrest]
    exact Nat.lt_succ_self _
  cases h with
  | literal hrest hquote hclosed => exact Nat.lt_of_le_of_lt (length_of_quoted? hclosed) (hcons hrest)
  | unclosed hrest hquote hopen message => exact Nat.lt_of_le_of_lt (Nat.zero_le _) (hcons hrest)
  | opener hrest hopener => exact hcons hrest
  | closer hrest hopened => exact hcons hrest
  | mismatched hrest hcloser hopened hother message => exact hcons hrest
  | unexpected hrest hcloser hopened message => exact hcons hrest
  | @name c cs calls hrest hstart hcalls =>
    have hname := isNameRest_of_isNameStart hstart (hmark c cs hrest)
    show (s.rest.dropWhile isNameRest).length < _
    rw [hrest, List.dropWhile_cons_of_pos hname]
    exact Nat.lt_succ_of_le (List.dropWhile_sublist _).length_le
  | @plain read rest hrest hne hplain =>
    show rest.length < _
    have hread := List.length_pos_iff.2 hne
    rw [hrest, List.length_append]
    omega

theorem Reads.forward (h : s.Reads s') (hmarkless : Markless s.rest) : s'.rest.length < s.rest.length := by
  refine h.forward_of_head fun c cs hrest => ?_
  rw [Markless, hrest] at hmarkless
  by_cases hquote : isQuote c = true
  · constructor
    · rintro rfl
      cases hquote
    · rintro rfl
      cases hquote
  · rw [Quoting.unquoted_other (by simpa using hquote)] at hmarkless
    exact hmarkless c List.mem_cons_self

theorem Reads.markless (h : s.Reads s') (hmarkless : Markless s.rest) : Markless s'.rest := by
  obtain ⟨read, hrest, -, hout | hend⟩ := h.outside
  · intro c hc
    apply hmarkless
    rw [hrest, Quoting.unquoted_append, hout]
    exact List.mem_append_right _ hc
  · rw [hend]
    intro c hc
    cases hc

/-- The scan reads everything, and changes nothing about whether there are mistakes. -/
theorem run_faultless (hmarkless : Markless s.rest) : s.run.rest = [] ∧ (s.run.Faultless ↔ s.Faultless) := by
  have hrun : Markless s.run.rest ∧ (s.run.Faultless ↔ s.Faultless) := by
    apply run_of_reads (P := fun t => Markless t.rest ∧ (t.Faultless ↔ s.Faultless))
    · rintro t t' hreads - ⟨ht, hfaultless⟩
      exact ⟨hreads.markless ht, hreads.faultless.trans hfaultless⟩
    · exact ⟨hmarkless, Iff.rfl⟩
  refine ⟨?_, hrun.2⟩
  cases hrest : s.run.rest with
  | nil => rfl
  | cons c cs => exact absurd ((step_reads hrest).forward hrun.1) (run_stops s)

/-- At the end of the expression, a bracket that is open is a mistake. -/
theorem findings_faultless (hend : s.rest = []) : s.findings.mistakes = [] ↔ s.Faultless := by
  have hfindings : s.findings.mistakes = [] ↔ s.mistakes = [] ∧ s.opened = [] := by
    simp [findings, hend]
  rw [hfindings]
  constructor
  · rintro ⟨hmistakes, hopened⟩
    refine ⟨hmistakes, ?_, ?_⟩
    · rw [hend]
      rfl
    · rw [hend, hopened]
      exact closesAll_nil.2 rfl
  · intro h
    have hbrackets := h.brackets
    rw [hend] at hbrackets
    exact ⟨h.mistakes, List.map_eq_nil_iff.1 (closesAll_nil.1 hbrackets)⟩

/-! ## Where the mistakes are -/

/-- The mistakes noted so far have characters, and the brackets that are open stand before what is still to be read. -/
structure Pointed (s : Scan) : Prop where
  mistakes : ∀ m ∈ s.mistakes, m.span.start < m.span.stop
  opened : ∀ o ∈ s.opened, o.2 ≤ s.offset

theorem Pointed.pass (h : s.Pointed) (read rest : List Char) : (s.pass read rest).Pointed :=
  ⟨h.mistakes, fun o ho => Nat.le_add_right_of_le (h.opened o ho)⟩

theorem Pointed.mistake (h : s.Pointed) (message : String) {span : Span} (hspan : span.start < span.stop) :
    (s.mistake message span).Pointed :=
  ⟨List.forall_mem_append.2 ⟨h.mistakes, List.forall_mem_singleton.2 hspan⟩, h.opened⟩

theorem Pointed.outer (h : s.Pointed) {top : Char × Nat} {outer : List (Char × Nat)}
    (hopened : s.opened = top :: outer) : ({ s with opened := outer } : Scan).Pointed :=
  ⟨h.mistakes, fun o ho => h.opened o (hopened ▸ List.mem_cons_of_mem _ ho)⟩

theorem Reads.pointed (h : s.Reads s') (hpointed : s.Pointed) : s'.Pointed := by
  cases h with
  | literal hrest hquote hclosed => exact hpointed.pass _ _
  | @unclosed quote cs hrest hquote hopen message =>
    apply Pointed.pass
    apply hpointed.mistake
    have hquote := quote.utf8Size_pos
    rw [Span.ofSize_start, Span.ofSize_stop, Text.byteSize_cons]
    omega
  | opener hrest hopener =>
    apply Pointed.pass
    exact ⟨hpointed.mistakes, List.forall_mem_cons.2 ⟨Nat.le_refl _, hpointed.opened⟩⟩
  | closer hrest hopened => exact (hpointed.outer hopened).pass _ _
  | @mismatched c opener place outer cs hrest hcloser hopened hother message =>
    apply Pointed.pass
    apply (hpointed.outer hopened).mistake
    have hplace := hpointed.opened (opener, place) (hopened ▸ List.mem_cons_self)
    rw [Span.between_start, Span.between_stop]
    omega
  | unexpected hrest hcloser hopened message =>
    apply Pointed.pass
    exact hpointed.mistake _ (Nat.lt_succ_self _)
  | name hrest hstart hcalls =>
    have hpassed := hpointed.pass (s.rest.takeWhile isNameRest) (s.rest.dropWhile isNameRest)
    exact ⟨hpassed.mistakes, hpassed.opened⟩
  | plain hrest hne hplain => exact hpointed.pass _ _

end Scan

/-- The places of mistakes are not empty. -/
theorem scan_mistakes_ne (cs : List Char) : ∀ m ∈ (scan cs).mistakes, m.span.start < m.span.stop := by
  have hstart : (Scan.start cs).Pointed := ⟨List.forall_mem_nil _, List.forall_mem_nil _⟩
  have hend := Scan.run_of_reads (fun _ _ hreads _ => hreads.pointed) hstart
  apply List.forall_mem_append.2 ⟨hend.mistakes, ?_⟩
  intro m hm
  obtain ⟨⟨opener, place⟩, -, rfl⟩ := List.mem_map.1 hm
  exact Nat.lt_succ_self _

/-- **An expression without `@` and `$` outside of literals has no mistakes exactly when all its literals are closed and its
brackets are nested. Each mistake is a part of the expression, and has characters.** -/
theorem scan_faultless (cs : List Char) (h : Markless cs) :
    ((scan cs).mistakes = [] ↔ outside.after cs = outside ∧ Nested (brackets cs)) ∧
      ∀ m ∈ (scan cs).mistakes, m.span.Fits cs ∧ m.span.start < m.span.stop := by
  obtain ⟨hend, hrun⟩ := Scan.run_faultless (s := Scan.start cs) h
  constructor
  · show (Scan.start cs).run.findings.mistakes = [] ↔ _
    rw [Scan.findings_faultless hend, hrun]
    constructor
    · rintro ⟨-, hclosed, hbrackets⟩
      exact ⟨hclosed, hbrackets⟩
    · rintro ⟨hclosed, hbrackets⟩
      exact ⟨rfl, hclosed, hbrackets⟩
  · intro m hm
    exact ⟨scan_mistakes cs m hm, scan_mistakes_ne cs m hm⟩

/-- A closing parenthesis in a literal closes nothing. -/
theorem scan_faultless_closerQuoted :
    Markless "f([a, ')'], x)".toList ∧ (scan "f([a, ')'], x)".toList).mistakes = [] := by
  have hmarkless : Markless "f([a, ')'], x)".toList := by decide +kernel
  have hbrackets : brackets "f([a, ')'], x)".toList = ['(', '[', ']', ')'] := by decide +kernel
  have hnested : Nested ['(', '[', ']', ')'] := .pair rfl (.pair rfl .nil .nil) .nil
  refine ⟨hmarkless, (scan_faultless _ hmarkless).1.2 ⟨by decide +kernel, ?_⟩⟩
  rw [hbrackets]
  exact hnested

end LgLang.Expression
