import LgLang.Editor.Cursor
import LgLang.Proofs.Expression.ArgumentLists

/-!
# The call that is open at the cursor

Signature help looks at an expression up to the cursor only, character by character, and reads the called name backwards
from its parenthesis. The built-in reader has the whole expression, and reads forwards. They agree: while the cursor is in
the list of arguments of a call, outside of inner brackets and of literals, the open call is this one, with the commas of
the list up to there (`openCall?_of_call`).

The look keeps the brackets that are open as a stack. Below those of the list it finds the bracket of the call, and its
count of commas is that of the place in the list (`CallProgress.InList`).
-/

namespace LgLang.Editor

open Expression (ArgumentPlace CallSite EndsList Quoting isBracket isBracket_of_isCloser isBracket_of_isOpener isCloser
  isNameRest isOpener isPlain_of_isNameRest isQuote isQuote_of_isBracket isQuote_of_isPlain)

/-! ## Literals -/

/-- The quote of the literal that a character stands in. -/
def quoteOf? : Quoting → Option Char
  | .outside => none
  | .inside quote => some quote
  | .hidden quote => some quote

/-- Whether a backslash hides the next character. -/
def isHidden : Quoting → Bool
  | .hidden _ => true
  | _ => false

namespace CallProgress

/-- The look stands where the quotes say. -/
structure Reads (p : CallProgress) (q : Quoting) : Prop where
  quote : p.quote = quoteOf? q
  escaped : p.escaped = isHidden q

variable {p : CallProgress} {q : Quoting} {c : Char} {cs : List Char}

theorem Reads.next_outside (h : p.Reads .outside) (hc : isQuote c = false) :
    p.next c = { p with passed := c :: p.passed, opened := p.openedBehind c } := by
  have hquote : p.quote = none := h.quote
  simp only [isQuote] at hc
  simp only [next, hquote, hc, Bool.false_eq_true, if_false]

theorem Reads.next_quote (h : p.Reads .outside) (hc : isQuote c = true) :
    p.next c = { p with passed := c :: p.passed, quote := some c } := by
  have hquote : p.quote = none := h.quote
  simp only [isQuote] at hc
  simp only [next, hquote, hc, if_true]

theorem Reads.step (h : p.Reads q) (c : Char) : (p.next c).Reads (q.next c) := by
  cases q with
  | outside =>
    by_cases hc : isQuote c = true
    · rw [h.next_quote hc, Quoting.next_quote hc]
      exact ⟨rfl, h.escaped⟩
    · have hc : isQuote c = false := by simpa using hc
      rw [h.next_outside hc, Quoting.next_other hc]
      exact ⟨h.quote, h.escaped⟩
  | inside quote =>
    have hquote : p.quote = some quote := h.quote
    have hescaped : p.escaped = false := h.escaped
    simp only [CallProgress.next, Quoting.next, hquote, hescaped, Bool.false_eq_true, if_false]
    by_cases hbackslash : (c == '\\') = true
    · rw [if_pos hbackslash, if_pos hbackslash]
      exact ⟨rfl, rfl⟩
    rw [if_neg hbackslash, if_neg hbackslash]
    by_cases hclosing : (c == quote) = true
    · rw [if_pos hclosing, if_pos hclosing]
      exact ⟨rfl, rfl⟩
    · rw [if_neg hclosing, if_neg hclosing]
      exact ⟨rfl, rfl⟩
  | hidden quote =>
    have hquote : p.quote = some quote := h.quote
    have hescaped : p.escaped = true := h.escaped
    simp only [CallProgress.next, hquote, hescaped, if_true]
    exact ⟨rfl, rfl⟩

theorem Reads.run (h : p.Reads q) (cs : List Char) : (cs.foldl CallProgress.next p).Reads (q.after cs) := by
  induction cs generalizing p q with
  | nil => exact h
  | cons c cs ih => exact ih (h.step c)

theorem passed_next (p : CallProgress) (c : Char) : (p.next c).passed = c :: p.passed := by
  unfold next
  split
  · split
    · rfl
    · split
      · rfl
      · split <;> rfl
  · split <;> rfl

theorem passed_foldl (p : CallProgress) (cs : List Char) : (cs.foldl next p).passed = cs.reverse ++ p.passed := by
  induction cs generalizing p with
  | nil => rfl
  | cons c cs ih => rw [List.foldl_cons, ih, passed_next, List.reverse_cons, List.append_assoc, List.singleton_append]

/-- In literals, brackets and commas do not count. -/
theorem Reads.opened_within (h : p.Reads q) (hq : q ≠ .outside) (c : Char) : (p.next c).opened = p.opened := by
  have hquote : ∃ quote, p.quote = some quote := by
    cases q with
    | outside => exact absurd rfl hq
    | inside quote => exact ⟨quote, h.quote⟩
    | hidden quote => exact ⟨quote, h.quote⟩
  obtain ⟨quote, hquote⟩ := hquote
  unfold next
  rw [hquote]
  dsimp only
  split
  · rfl
  · split
    · rfl
    · split <;> rfl

/-! ## The list of arguments -/

theorem openedBehind_opener (h : isOpener c = true) : ∃ bracket, p.openedBehind c = bracket :: p.opened := by
  simp only [isOpener, Bool.or_eq_true, beq_iff_eq] at h
  rcases h with (rfl | rfl) | rfl <;> exact ⟨_, rfl⟩

theorem openedBehind_closer (h : isCloser c = true) : p.openedBehind c = p.opened.tail := by
  simp only [isCloser, Bool.or_eq_true, beq_iff_eq] at h
  rcases h with (rfl | rfl) | rfl <;> rfl

theorem openedBehind_comma {top : OpenBracket} {outer : List OpenBracket} (h : p.opened = top :: outer) :
    p.openedBehind ',' = { top with commas := top.commas + 1 } :: outer := by
  unfold openedBehind
  rw [h]
  rfl

theorem openedBehind_other (h : isBracket c = false) (hcomma : c ≠ ',') : p.openedBehind c = p.opened := by
  simp only [isBracket, isOpener, isCloser, Bool.or_eq_false_iff] at h
  obtain ⟨⟨⟨hround, hsquare⟩, hcurly⟩, ⟨hround', hsquare'⟩, hcurly'⟩ := h
  simp [openedBehind, hround, hsquare, hcurly, hround', hsquare', hcurly', hcomma]

theorem Reads.opened_other (h : p.Reads .outside) (hbracket : isBracket c = false) (hcomma : c ≠ ',') :
    (p.next c).opened = p.opened := by
  by_cases hquote : isQuote c = true
  · rw [h.next_quote hquote]
  · rw [h.next_outside (by simpa using hquote)]
    exact openedBehind_other hbracket hcomma

/-- Below the brackets that are open in a list of arguments is that of the call, with the commas of the list. -/
def IsOpen (callee : List Char) (outer : List OpenBracket) (depth commas : Nat) (opened : List OpenBracket) : Prop :=
  ∃ inner, opened = inner ++ ⟨some callee, commas⟩ :: outer ∧ inner.length = depth

variable {callee : List Char} {outer opened : List OpenBracket} {depth commas : Nat}

theorem IsOpen.opener (h : IsOpen callee outer depth commas p.opened) (hopener : isOpener c = true) :
    IsOpen callee outer (depth + 1) commas (p.openedBehind c) := by
  obtain ⟨inner, hopened, hlength⟩ := h
  obtain ⟨bracket, hbehind⟩ := openedBehind_opener (p := p) hopener
  refine ⟨bracket :: inner, ?_, congrArg (· + 1) hlength⟩
  rw [hbehind, hopened, List.cons_append]

theorem IsOpen.closer (h : IsOpen callee outer (depth + 1) commas p.opened) (hcloser : isCloser c = true) :
    IsOpen callee outer depth commas (p.openedBehind c) := by
  obtain ⟨inner, hopened, hlength⟩ := h
  obtain ⟨bracket, inner, rfl⟩ := List.exists_cons_of_length_eq_add_one hlength
  refine ⟨inner, ?_, Nat.succ.inj hlength⟩
  rw [openedBehind_closer hcloser, hopened, List.cons_append, List.tail_cons]

/-- A comma counts for the innermost bracket, which is that of the call if no other is open in the list. -/
theorem IsOpen.comma (h : IsOpen callee outer depth commas p.opened) :
    IsOpen callee outer depth (if depth = 0 then commas + 1 else commas) (p.openedBehind ',') := by
  obtain ⟨inner, hopened, hlength⟩ := h
  cases inner with
  | nil =>
    obtain rfl : 0 = depth := hlength
    exact ⟨[], openedBehind_comma hopened, rfl⟩
  | cons bracket inner =>
    have hdepth : depth ≠ 0 := hlength ▸ Nat.succ_ne_zero _
    rw [if_neg hdepth]
    exact ⟨{ bracket with commas := bracket.commas + 1 } :: inner, openedBehind_comma hopened, hlength⟩

/-- The look stands at a place in the list of arguments of a call. -/
structure InList (callee : List Char) (outer : List OpenBracket) (p : CallProgress) (place : ArgumentPlace) : Prop where
  reads : p.Reads place.quoting
  opened : IsOpen callee outer place.depth place.commas p.opened

variable {place place' : ArgumentPlace}

theorem InList.opened_next (h : p.InList callee outer place) (hnext : place.next? c = some place') :
    IsOpen callee outer place'.depth place'.commas (p.next c).opened := by
  obtain ⟨quoting, depth, commas⟩ := place
  obtain ⟨hreads, hopened⟩ := h
  dsimp only at hreads hopened
  by_cases hout : quoting = .outside
  · subst hout
    by_cases hopener : isOpener c = true
    · rw [ArgumentPlace.next?_opener hopener] at hnext
      obtain rfl := Option.some.inj hnext
      rw [hreads.next_outside (isQuote_of_isBracket (isBracket_of_isOpener hopener))]
      exact hopened.opener hopener
    by_cases hcloser : isCloser c = true
    · rw [hreads.next_outside (isQuote_of_isBracket (isBracket_of_isCloser hcloser))]
      cases depth with
      | zero =>
        -- This bracket closes the list.
        rw [ArgumentPlace.next?_end hcloser] at hnext
        cases hnext
      | succ depth =>
        rw [ArgumentPlace.next?_closer hcloser] at hnext
        obtain rfl := Option.some.inj hnext
        exact hopened.closer hcloser
    have hbracket : isBracket c = false := by simp [isBracket, hopener, hcloser]
    by_cases hcomma : c = ','
    · subst hcomma
      have hcommas := hopened.comma
      rw [hreads.next_outside rfl]
      by_cases hdepth : depth = 0
      · subst hdepth
        obtain rfl := Option.some.inj hnext
        exact hcommas
      · rw [if_neg hdepth] at hcommas
        rw [ArgumentPlace.next?_other hbracket fun _ => hdepth] at hnext
        obtain rfl := Option.some.inj hnext
        exact hcommas
    · rw [ArgumentPlace.next?_other hbracket fun hc => absurd hc hcomma] at hnext
      obtain rfl := Option.some.inj hnext
      rw [hreads.opened_other hbracket hcomma]
      exact hopened
  · rw [ArgumentPlace.next?_within hout] at hnext
    obtain rfl := Option.some.inj hnext
    rw [hreads.opened_within hout]
    exact hopened

theorem InList.step (h : p.InList callee outer place) (hnext : place.next? c = some place') :
    (p.next c).InList callee outer place' := by
  refine ⟨?_, h.opened_next hnext⟩
  rw [ArgumentPlace.quoting_of_next? hnext]
  exact h.reads.step c

theorem InList.run (h : p.InList callee outer place) (hafter : place.after? cs = some place') :
    (cs.foldl CallProgress.next p).InList callee outer place' := by
  induction cs generalizing p place with
  | nil =>
    obtain rfl := Option.some.inj hafter
    exact h
  | cons c cs ih =>
    obtain ⟨behind, hnext, hbehind⟩ := Option.bind_eq_some_iff.1 hafter
    exact ih (h.step hnext) hbehind

/-! ## The name called -/

theorem isBlank_eq_false_of_isNameRest (h : isNameRest c = true) : Text.isBlank c = false := by
  by_contra hblank
  simp only [Text.isBlank, Bool.not_eq_false, Bool.or_eq_true, Bool.and_eq_true, decide_eq_true_eq, beq_iff_eq] at hblank
  have hletters : (((decide (c.val ≥ 'A'.val ∧ c.val ≤ 'Z'.val) ||
      (decide (c.val ≥ 'a'.val) && decide (c.val ≤ 'z'.val))) ||
      (decide (c.val ≥ '0'.val) && decide (c.val ≤ '9'.val))) || c == '_' || c == '.') = true := h
  simp only [Bool.or_eq_true, Bool.and_eq_true, decide_eq_true_eq, beq_iff_eq, ge_iff_le, UInt32.le_iff_toNat_le,
    Char.toNat_val, Char.reduceToNat] at hletters
  rcases hletters with (hletters | rfl) | rfl
  · omega
  · exact absurd hblank (by decide)
  · exact absurd hblank (by decide)

theorem isQuote_eq_false_of_isAsciiBlank (h : Text.isAsciiBlank c = true) : isQuote c = false := by
  simp only [Text.isAsciiBlank, Bool.or_eq_true, beq_iff_eq] at h
  rcases h with (((rfl | rfl) | rfl) | rfl) | rfl <;> rfl

/-- Read backwards from the parenthesis, the name called stands between the blanks and the first character that is not
of a name. -/
theorem calleeOf_name {before token blanks : List Char} (htoken : token ≠ []) (hlast : token.getLast? ≠ some '.')
    (hname : ∀ c ∈ token, isNameRest c = true) (hblanks : ∀ c ∈ blanks, Text.isAsciiBlank c = true)
    (hbefore : ∀ c ∈ before.getLast?, isNameRest c = false) :
    calleeOf (before ++ token ++ blanks).reverse = some token := by
  have hreverse : (before ++ token ++ blanks).reverse = blanks.reverse ++ (token.reverse ++ before.reverse) := by
    simp only [List.reverse_append]
  have hdropped : ((before ++ token ++ blanks).reverse).dropWhile Text.isBlank = token.reverse ++ before.reverse := by
    rw [hreverse, List.dropWhile_append_of_pos]
    · cases hrest : token.reverse with
      | nil => exact absurd (List.reverse_eq_nil_iff.1 hrest) htoken
      | cons c cs =>
        have hc : c ∈ token := List.mem_reverse.1 (hrest ▸ List.mem_cons_self)
        rw [List.cons_append, List.dropWhile_cons_of_neg]
        simp [isBlank_eq_false_of_isNameRest (hname c hc)]
    · intro c hc
      exact Text.isBlank_of_isAsciiBlank (hblanks c (List.mem_reverse.1 hc))
  have htaken : (token.reverse ++ before.reverse).takeWhile isNameChar = token.reverse := by
    rw [← List.reverse_append]
    exact Text.takeWhile_reverse_append hbefore hname
  have hcallee : ¬(token.isEmpty || token.getLast? == some '.') = true := by
    simp [htoken, hlast]
  unfold calleeOf
  rw [hdropped, htaken, List.reverse_reverse]
  exact if_neg hcallee

/-- The look before the first character. -/
def start : CallProgress :=
  ⟨[], none, false, []⟩

variable {e typed : List Char} {call : CallSite}

/-- Before the parenthesis of a call, the look is outside of literals, as the built-in reader is. -/
theorem reads_of_layout (l : call.Layout e) : ((l.before ++ l.token ++ l.blanks).foldl next start).Reads .outside := by
  have hstart : start.Reads .outside := ⟨rfl, rfl⟩
  have hreads := hstart.run (l.before ++ l.token ++ l.blanks)
  rw [Quoting.after_append, Quoting.after_append, l.outside, Quoting.after_plain, Quoting.after_plain] at hreads
  · exact hreads
  · intro c hc
    exact isQuote_eq_false_of_isAsciiBlank (l.isAsciiBlank_blanks c hc)
  · intro c hc
    exact isQuote_of_isPlain (isPlain_of_isNameRest (l.isNameRest_token c hc))

/-- Behind the parenthesis of a call, the look is in the list of arguments. -/
theorem inList_of_layout (l : call.Layout e) (hlast : l.token.getLast? ≠ some '.')
    (hbefore : ∀ c ∈ l.before.getLast?, isNameRest c = false) (htyped : ArgumentPlace.first.after? typed = some place) :
    ∃ outer, ((l.before ++ l.token ++ l.blanks ++ '(' :: typed).foldl next start).InList l.token outer place := by
  rw [List.foldl_append, List.foldl_cons]
  generalize hp : (l.before ++ l.token ++ l.blanks).foldl next start = p
  have hreads := hp ▸ reads_of_layout l
  have hpassed := passed_foldl start (l.before ++ l.token ++ l.blanks)
  rw [hp, show start.passed = [] from rfl, List.append_nil] at hpassed
  have hcallee := calleeOf_name l.token_ne hlast l.isNameRest_token l.isAsciiBlank_blanks hbefore
  rw [← hpassed] at hcallee
  have hopened : (p.next '(').opened = ⟨some l.token, 0⟩ :: p.opened := by
    rw [hreads.next_outside rfl, ← hcallee]
    rfl
  have hfirst : (p.next '(').InList l.token p.opened .first := ⟨hreads.step '(', [], hopened, rfl⟩
  exact ⟨p.opened, hfirst.run htyped⟩

end CallProgress

open CallProgress

/-- **In the list of arguments of a call, outside of literals and of inner brackets, signature help finds this call and
the commas of its list. Where the arguments of the call are counted, the list has an end, and one comma less before.** -/
theorem openCall?_of_call (e : List Char) (call : CallSite) (hcall : call ∈ (Expression.scan e).calls) :
    Nonempty (call.Layout e) ∧
      ∀ l : call.Layout e, l.token.getLast? ≠ some '.' → (∀ c ∈ l.before.getLast?, isNameRest c = false) →
        (∀ typed n, typed <+: l.inside → ArgumentPlace.first.after? typed = some ⟨.outside, 0, n⟩ →
          openCall? (l.before ++ l.token ++ l.blanks ++ '(' :: typed) = some (call.name.toList, n)) ∧
        ∀ n, call.argumentCount = some (n + 1) →
          ∃ typed closer rest, l.inside = typed ++ closer :: rest ∧ isCloser closer = true ∧
            ArgumentPlace.first.after? typed = some ⟨.outside, 0, n⟩ ∧
              openCall? (l.before ++ l.token ++ l.blanks ++ '(' :: typed) = some (call.name.toList, n) := by
  refine ⟨Expression.scan_layouts e call hcall, ?_⟩
  intro l hlast hbefore
  have hopen : ∀ typed n, ArgumentPlace.first.after? typed = some ⟨.outside, 0, n⟩ →
      openCall? (l.before ++ l.token ++ l.blanks ++ '(' :: typed) = some (call.name.toList, n) := by
    intro typed n htyped
    obtain ⟨outer, -, inner, hopened, hlength⟩ := inList_of_layout l hlast hbefore htyped
    obtain rfl := List.length_eq_zero_iff.1 hlength
    show List.findSome? _ (List.foldl next start _).opened = _
    rw [hopened, l.name_eq hlast]
    rfl
  constructor
  · intro typed n _ htyped
    exact hopen typed n htyped
  · intro n hcount
    obtain ⟨typed, closer, rest, hinside, hcloser, htyped⟩ := l.endsList hcount
    exact ⟨typed, closer, rest, hinside, hcloser, htyped, hopen typed n htyped⟩

/-- An inner call that is closed again does not hide the outer one, and its comma does not count. -/
theorem openCall?_of_call_secondArgument :
    (⟨"f", .ofSize 0 1, some 2⟩ : CallSite) ∈ (Expression.scan "f(max(a, b), [1, 2])".toList).calls ∧
      openCall? "f(max(a, b), ".toList = some (['f'], 1) := by
  have hcall : (⟨"f", .ofSize 0 1, some 2⟩ : CallSite) ∈ (Expression.scan "f(max(a, b), [1, 2])".toList).calls := by
    decide +kernel
  let l : CallSite.Layout ⟨"f", .ofSize 0 1, some 2⟩ "f(max(a, b), [1, 2])".toList :=
    { before := [], token := ['f'], blanks := [], inside := "max(a, b), [1, 2])".toList
      split := by decide
      start := by decide
      name := by decide
      count := by decide +kernel
      token_ne := by decide
      isNameRest_token := List.forall_mem_singleton.2 rfl
      isAsciiBlank_blanks := List.forall_mem_nil _
      outside := rfl }
  have hplaces := ((openCall?_of_call _ _ hcall).2 l (by decide) fun _ hc => by cases hc).1
  exact ⟨hcall, hplaces "max(a, b), ".toList 1 ⟨"[1, 2])".toList, by decide⟩ (by decide)⟩

end LgLang.Editor
