import LgLang.Proofs.Expression.ArgumentLists

/-!
# How many arguments a call has

Where the list of a call is closed and spreads none of its arguments, they should be counted by the commas of the list:
there is one argument more than there are commas, or none if the list is blank (`ArgumentsCounted`). The built-in reader
counts the commas, and notes beside that whether there is anything else in the list. If there is not, it counts no
arguments, whatever the commas. So the arguments are counted as they should be exactly when every list with a comma
has something else than commas and blanks (`argumentsCounted_iff`).
-/

namespace LgLang.Expression

open Text (isAsciiBlank)

variable {depth inner outer commas commas' : Nat} {content : Bool} {c closer : Char} {cs typed rest inside : List Char}

/-- What stands behind a closed literal does not matter to it. -/
theorem quoted?_append {quote : Char} (h : quoted? quote cs = some (inside, rest)) (more : List Char) :
    quoted? quote (cs ++ more) = some (inside, rest ++ more) := by
  fun_induction quoted? quote cs generalizing inside rest with
  | case1 => cases h
  | case2 => cases h
  | case3 c cs ih =>
    obtain ⟨⟨inner, behind⟩, hinner, heq⟩ := Option.map_eq_some_iff.1 h
    obtain ⟨rfl, rfl⟩ := Prod.mk.inj heq
    rw [List.cons_append, List.cons_append, quoted?, ih hinner]
    rfl
  | case4 c cs hlast hescape hquote =>
    obtain ⟨rfl, rfl⟩ := Prod.mk.inj (Option.some.inj h)
    have hc := Quoting.ne_backslash hlast hescape
    rw [List.cons_append, quoted?, if_pos hquote]
    · exact fun h _ => hc h
    · exact fun _ _ h _ => hc h
  | case5 c cs hlast hescape hquote ih =>
    obtain ⟨⟨inner, behind⟩, hinner, heq⟩ := Option.map_eq_some_iff.1 h
    obtain ⟨rfl, rfl⟩ := Prod.mk.inj heq
    have hc := Quoting.ne_backslash hlast hescape
    rw [List.cons_append, quoted?, if_neg hquote, ih hinner]
    · rfl
    · exact fun h _ => hc h
    · exact fun _ _ h _ => hc h

/-! ## Steps of the count -/

/-- Neither a blank nor a comma. -/
def isFilling (c : Char) : Bool :=
  !isAsciiBlank c && c != ','

theorem isFilling_of_isQuote (h : isQuote c = true) : isFilling c = true := by
  simp only [isQuote, Bool.or_eq_true, beq_iff_eq] at h
  rcases h with (rfl | rfl) | rfl <;> rfl

theorem isFilling_of_isBracket (h : isBracket c = true) : isFilling c = true := by
  simp only [isBracket, isOpener, isCloser, Bool.or_eq_true, beq_iff_eq] at h
  rcases h with ((rfl | rfl) | rfl) | ((rfl | rfl) | rfl) <;> rfl

namespace ArgumentPlace

/-- The arguments as they are counted from a place on that is outside of literals. -/
def count? (p : ArgumentPlace) (content : Bool) (cs : List Char) : Option Nat :=
  argumentsFrom (p.depth + 1) p.commas content cs

variable {p p' p₁ : ArgumentPlace} {read behind : List Char}

theorem count?_end (hcloser : isCloser closer = true) :
    (mk .outside 0 commas).count? content (closer :: cs) = some (if content then commas + 1 else 0) := by
  have hquote := isQuote_of_isBracket (isBracket_of_isCloser hcloser)
  have hopener := isOpener_of_isCloser hcloser
  rw [count?, argumentsFrom, if_neg (by simp [hquote]), if_neg (by simp [hopener]), if_pos hcloser, if_pos rfl]

theorem count?_spread : (mk .outside 0 commas).count? content ('.' :: '.' :: '.' :: cs) = none := by
  rw [count?, argumentsFrom]
  rfl

theorem count?_quote (hquote : isQuote c = true) (hclosed : quoted? c cs = some (inside, rest)) :
    p.count? content (c :: cs) = p.count? true rest := by
  rw [count?, argumentsFrom, if_pos hquote]
  split
  · next h => cases h.symm.trans hclosed
  · next h => cases h.symm.trans hclosed; rfl

/-- The count goes on with each character outside of literals, but not where three dots stand. In inner brackets it has
noted that there is content. -/
theorem count?_next (hnext : (mk .outside inner commas).next? c = some p₁) (hquote : isQuote c = false)
    (hcontent : inner ≠ 0 → content = true) (hspread : c = '.' → inner = 0 → ¬['.', '.'] <+: cs) :
    (mk .outside inner commas).count? content (c :: cs) = p₁.count? (content || isFilling c) cs ∧
      (p₁.depth ≠ 0 → (content || isFilling c) = true) := by
  unfold count?
  rw [argumentsFrom, if_neg (by simp [hquote])]
  dsimp only
  by_cases hopener : isOpener c = true
  · cases (next?_opener hopener).symm.trans hnext
    have hfilled := isFilling_of_isBracket (isBracket_of_isOpener hopener)
    rw [if_pos hopener, hfilled]
    simp
  rw [if_neg hopener]
  by_cases hcloser : isCloser c = true
  · cases inner with
    | zero => cases (next?_end hcloser).symm.trans hnext
    | succ inner =>
      cases (next?_closer hcloser).symm.trans hnext
      rw [if_pos hcloser, if_neg (by omega), hcontent (Nat.succ_ne_zero _)]
      exact ⟨rfl, fun _ => rfl⟩
  rw [if_neg hcloser]
  have hbracket : isBracket c = false := by simp [isBracket, hopener, hcloser]
  by_cases hcomma : c = ',' ∧ inner = 0
  · obtain ⟨rfl, rfl⟩ := hcomma
    cases hnext
    rw [if_pos (by rfl), show isFilling ',' = false from rfl, Bool.or_false]
    exact ⟨rfl, hcontent⟩
  rw [next?_other hbracket fun hc hinner => hcomma ⟨hc, hinner⟩, Quoting.next_other hquote] at hnext
  cases hnext
  rw [if_neg (by simpa using hcomma), if_neg (by simpa using hspread)]
  -- A comma between inner brackets fills nothing, but there is content already.
  by_cases hinner : inner = 0
  · have hother : c ≠ ',' := fun hc => hcomma ⟨hc, hinner⟩
    rw [isFilling, bne_iff_ne.2 hother, Bool.and_true]
    exact ⟨rfl, fun hdepth => absurd hinner hdepth⟩
  · rw [hcontent hinner]
    exact ⟨rfl, fun _ => rfl⟩

/-! ## The count of a whole list -/

/-- From a place on, three dots stand in the list, outside of literals and of inner brackets. -/
def Spreads (p : ArgumentPlace) (cs : List Char) : Prop :=
  ∃ before behind commas, cs = before ++ '.' :: '.' :: '.' :: behind ∧ p.after? before = some ⟨.outside, 0, commas⟩

/-- The count goes on from one place to another, or there is a spread, and no count. -/
def CountsTo (p : ArgumentPlace) (content : Bool) (typed rest : List Char) (p' : ArgumentPlace) : Prop :=
  p.count? content (typed ++ rest) = p'.count? (content || typed.any isFilling) rest ∨
    p.Spreads (typed ++ rest) ∧ p.count? content (typed ++ rest) = none

theorem Spreads.pass (h : p₁.Spreads rest) (hread : p.after? read = some p₁) : p.Spreads (read ++ rest) := by
  obtain ⟨before, behind, commas, rfl, hbefore⟩ := h
  refine ⟨read ++ before, behind, commas, ?_, ?_⟩
  · rw [List.append_assoc]
  · rw [after?_append hread, hbefore]

theorem CountsTo.pass (h : p₁.CountsTo (content || read.any isFilling) behind rest p')
    (hread : p.after? read = some p₁)
    (hcount : p.count? content (read ++ (behind ++ rest)) =
      p₁.count? (content || read.any isFilling) (behind ++ rest)) :
    p.CountsTo content (read ++ behind) rest p' := by
  unfold CountsTo
  rw [List.append_assoc, hcount, List.any_append, ← Bool.or_assoc]
  exact h.imp_right fun ⟨hspreads, hnone⟩ => ⟨hspreads.pass hread, hnone⟩

/-- A literal that is left has been closed. -/
theorem exists_quoted?_of_after? (hquote : isQuote c = true) (h : (mk .outside depth commas).after? (c :: cs) = some p')
    (hout : p'.quoting = .outside) : ∃ parts, quoted? c cs = some parts := by
  have hafter := quoting_of_after? h
  rw [hout, Quoting.after_cons, Quoting.next_quote hquote] at hafter
  cases hquoted : quoted? c cs with
  | none => exact absurd hafter.symm (Quoting.quoted?_unclosed hquoted).1
  | some parts => exact ⟨parts, rfl⟩

/-- Through a list the count goes on, up to the first spread. In inner brackets it has noted that there is content. -/
theorem countsTo_after (h : (mk .outside inner commas).after? typed = some p') (hout : p'.quoting = .outside)
    (hcontent : inner ≠ 0 → content = true) : (mk .outside inner commas).CountsTo content typed rest p' := by
  induction hlength : typed.length using Nat.strong_induction_on generalizing inner commas content typed with
  | _ length ih =>
  cases typed with
  | nil =>
    obtain rfl := Option.some.inj h
    left
    rw [List.any_nil, Bool.or_false, List.nil_append]
  | cons c typed =>
    by_cases hquote : isQuote c = true
    · obtain ⟨⟨inside, behind⟩, hclosed⟩ := exists_quoted?_of_after? hquote h hout
      have hread : (mk .outside inner commas).after? (c :: inside) = some ⟨.outside, inner, commas⟩ :=
        after?_quoted hquote hclosed
      have hsplit : c :: typed = (c :: inside) ++ behind := by
        rw [List.cons_append, append_of_quoted? hclosed]
      have hfilled : (content || (c :: inside).any isFilling) = true := by
        simp [isFilling_of_isQuote hquote]
      have hshorter : behind.length < length := by
        rw [← hlength]
        exact Nat.lt_succ_of_le (length_of_quoted? hclosed)
      rw [hsplit, after?_append hread] at h
      rw [hsplit]
      apply CountsTo.pass (ih behind.length hshorter h (fun _ => hfilled) rfl) hread
      rw [hfilled, List.cons_append, ← List.append_assoc, append_of_quoted? hclosed]
      exact count?_quote hquote (quoted?_append hclosed rest)
    · obtain ⟨p₁, hnext, hafter⟩ := Option.bind_eq_some_iff.1 h
      have hquote : isQuote c = false := by simpa using hquote
      by_cases hdots : c = '.' ∧ inner = 0 ∧ ['.', '.'] <+: typed ++ rest
      · obtain ⟨rfl, rfl, behind, hbehind⟩ := hdots
        have hdots : '.' :: typed ++ rest = '.' :: '.' :: '.' :: behind := congrArg _ hbehind.symm
        right
        rw [hdots]
        exact ⟨⟨[], behind, commas, rfl, rfl⟩, count?_spread⟩
      · have hone : [c].any isFilling = isFilling c := Bool.or_false _
        have hread : (mk .outside inner commas).after? [c] = some p₁ := after?_cons hnext
        have hout := quoting_of_next? hnext
        rw [Quoting.next_other hquote] at hout
        obtain ⟨quoting, inner₁, commas₁⟩ := p₁
        obtain rfl : quoting = .outside := hout
        have hspread : c = '.' → inner = 0 → ¬['.', '.'] <+: typed ++ rest :=
          fun hc hinner hbehind => hdots ⟨hc, hinner, hbehind⟩
        obtain ⟨hcount, hfilled⟩ := count?_next hnext hquote hcontent hspread
        rw [← hone] at hcount hfilled
        exact CountsTo.pass (ih typed.length (hlength ▸ Nat.lt_succ_self _) hafter hfilled rfl) hread hcount

/-- Where something is spread, nothing is counted. -/
theorem count?_of_spreads (h : (mk .outside inner commas).Spreads cs) (hcontent : inner ≠ 0 → content = true) :
    (mk .outside inner commas).count? content cs = none := by
  obtain ⟨before, behind, commas', rfl, hbefore⟩ := h
  have hcounts : (mk .outside inner commas).CountsTo content before ('.' :: '.' :: '.' :: behind) _ :=
    countsTo_after hbefore rfl hcontent
  rcases hcounts with hcount | ⟨-, hnone⟩
  · rw [hcount]
    exact count?_spread
  · exact hnone

/-- Nothing behind the end of the list is spread in it. -/
theorem Spreads.of_append (h : p.Spreads (typed ++ closer :: rest)) (htyped : p.after? typed = some ⟨.outside, 0, commas⟩)
    (hcloser : isCloser closer = true) : p.Spreads typed := by
  obtain ⟨before, behind, commas', hsplit, hbefore⟩ := h
  have hdot : closer ≠ '.' := by
    rintro rfl
    cases hcloser
  rcases List.append_eq_append_iff.1 hsplit with ⟨more, rfl, hmore⟩ | ⟨more, rfl, hmore⟩
  · cases more with
    | nil => exact absurd (List.cons.inj hmore).1 hdot
    | cons d more =>
      -- The list has ended there.
      obtain ⟨rfl, -⟩ := List.cons.inj hmore
      rw [after?_append htyped, after?, List.foldlM_cons, next?_end hcloser] at hbefore
      cases hbefore
  · have hdots : ['.', '.', '.'] ++ behind = more ++ closer :: rest := hmore
    rcases List.append_eq_append_iff.1 hdots with ⟨behind, rfl, -⟩ | ⟨dots, hsame, hend⟩
    · exact ⟨before, behind, commas', rfl, hbefore⟩
    · cases dots with
      | nil =>
        rw [List.append_nil] at hsame
        exact ⟨before, [], commas', hsame ▸ rfl, hbefore⟩
      | cons d dots =>
        obtain ⟨rfl, -⟩ := List.cons.inj hend
        have hmem : closer ∈ ['.', '.', '.'] := by
          rw [hsame]
          exact List.mem_append_right more List.mem_cons_self
        exact absurd (by simpa using hmem) hdot

end ArgumentPlace

/-! ## The count of a call -/

/-- The list of arguments that begins behind a parenthesis: the text up to the bracket that closes it, which has so many
commas outside of literals and of inner brackets. -/
def IsList (inside typed : List Char) (commas : Nat) : Prop :=
  ∃ closer rest, inside = typed ++ closer :: rest ∧ isCloser closer = true ∧
    ArgumentPlace.first.after? typed = some ⟨.outside, 0, commas⟩

/-- The arguments of every call are counted by the commas of its list, if this is closed and spreads none of them. -/
def ArgumentsCounted (cs : List Char) : Prop :=
  ∀ call ∈ (scan cs).calls, ∀ l : call.Layout cs, ∀ typed commas, IsList l.inside typed commas →
    ¬ArgumentPlace.first.Spreads typed →
      call.argumentCount = some (if typed.all isAsciiBlank then 0 else commas + 1)

namespace CallSite.Layout

variable {call : CallSite}

theorem count?_eq (l : call.Layout cs) : call.argumentCount = ArgumentPlace.first.count? false l.inside := by
  rw [l.count, argumentCount?_parenthesis]
  rfl

/-- A list that spreads nothing is counted by its commas, if it is not made of commas and blanks only. -/
theorem argumentCount_eq (l : call.Layout cs) (hlist : IsList l.inside typed commas)
    (hspreads : ¬ArgumentPlace.first.Spreads typed) :
    call.argumentCount = some (if typed.any isFilling then commas + 1 else 0) := by
  obtain ⟨closer, rest, hinside, hcloser, htyped⟩ := hlist
  rw [l.count?_eq, hinside]
  have hcounts : ArgumentPlace.first.CountsTo false typed (closer :: rest) _ :=
    ArgumentPlace.countsTo_after htyped rfl fun h => absurd rfl h
  rcases hcounts with hcount | ⟨hspread, -⟩
  · rw [hcount, ArgumentPlace.count?_end hcloser, Bool.false_or]
  · exact absurd (hspread.of_append htyped hcloser) hspreads

/-- The arguments of a call are counted exactly when its list is closed and spreads none of them. -/
theorem argumentCount_eq_some_iff (l : call.Layout cs) {count : Nat} :
    call.argumentCount = some count ↔
      ∃ typed commas, IsList l.inside typed commas ∧ ¬ArgumentPlace.first.Spreads typed ∧
        count = if typed.any isFilling then commas + 1 else 0 := by
  constructor
  · intro h
    have hcount := h
    rw [l.count?_eq] at hcount
    obtain ⟨commas, ⟨typed, closer, rest, hinside, hcloser, htyped⟩, -⟩ := argumentsFrom_endsList rfl hcount
    have hlist : IsList l.inside typed commas := ⟨closer, rest, hinside, hcloser, htyped⟩
    have hspreads : ¬ArgumentPlace.first.Spreads typed := by
      rintro ⟨before, behind, commas', rfl, hbefore⟩
      have hspread : ArgumentPlace.first.Spreads l.inside :=
        ⟨before, behind ++ closer :: rest, commas', by rw [hinside]; simp, hbefore⟩
      rw [ArgumentPlace.first, ArgumentPlace.count?_of_spreads hspread fun h => absurd rfl h] at hcount
      cases hcount
    rw [l.argumentCount_eq hlist hspreads] at h
    exact ⟨typed, commas, hlist, hspreads, (Option.some.inj h).symm⟩
  · rintro ⟨typed, commas, hlist, hspreads, rfl⟩
    exact l.argumentCount_eq hlist hspreads

end CallSite.Layout

/-- Three dots fill a list. -/
theorem ArgumentPlace.Spreads.filling {p : ArgumentPlace} (h : p.Spreads typed) : typed.any isFilling = true := by
  obtain ⟨before, behind, commas, rfl, -⟩ := h
  exact List.any_eq_true.2 ⟨'.', List.mem_append_right before List.mem_cons_self, rfl⟩

theorem isAsciiBlank_iff : isAsciiBlank c = true ↔ isFilling c = false ∧ c ≠ ',' := by
  constructor
  · intro h
    refine ⟨by rw [isFilling, h]; rfl, ?_⟩
    rintro rfl
    cases h
  · rintro ⟨hfilling, hcomma⟩
    rw [isFilling, bne_iff_ne.2 hcomma, Bool.and_true] at hfilling
    simpa using hfilling

/-- A blank list is one that nothing fills, and without commas. -/
theorem all_isAsciiBlank_iff : typed.all isAsciiBlank = true ↔ typed.any isFilling = false ∧ ',' ∉ typed := by
  simp only [List.all_eq_true, List.any_eq_false, isAsciiBlank_iff, Bool.not_eq_true]
  constructor
  · intro h
    exact ⟨fun c hc => (h c hc).1, fun hcomma => (h ',' hcomma).2 rfl⟩
  · rintro ⟨hfilling, hcomma⟩ c hc
    refine ⟨hfilling c hc, ?_⟩
    rintro rfl
    exact hcomma hc

/-- **The arguments of a call are counted exactly when its list is closed and spreads none of them. They are one more than
the commas of the list if there is anything else in it than commas and blanks, and none otherwise. So they are
counted as they should be exactly when every list with a comma has something else than commas and blanks.** -/
theorem argumentsCounted_iff (cs : List Char) :
    (∀ call ∈ (scan cs).calls, Nonempty (call.Layout cs) ∧ ∀ l : call.Layout cs, ∀ count,
      (call.argumentCount = some count ↔
        ∃ typed commas, IsList l.inside typed commas ∧ ¬ArgumentPlace.first.Spreads typed ∧
          count = if typed.any isFilling then commas + 1 else 0)) ∧
      (ArgumentsCounted cs ↔
        ∀ call ∈ (scan cs).calls, ∀ l : call.Layout cs, ∀ typed commas, IsList l.inside typed commas →
          ',' ∈ typed → typed.any isFilling = true) := by
  refine ⟨fun call hcall => ⟨scan_layouts cs call hcall, fun l count => l.argumentCount_eq_some_iff⟩, ?_, ?_⟩
  · intro h call hcall l typed commas hlist hcomma
    by_contra hfilling
    have hspreads : ¬ArgumentPlace.first.Spreads typed := fun hspreads => hfilling hspreads.filling
    have hblank : ¬typed.all isAsciiBlank = true := fun hblank => (all_isAsciiBlank_iff.1 hblank).2 hcomma
    have hcount := h call hcall l typed commas hlist hspreads
    rw [l.argumentCount_eq hlist hspreads, if_neg hfilling, if_neg hblank] at hcount
    cases hcount
  · intro h call hcall l typed commas hlist hspreads
    rw [l.argumentCount_eq hlist hspreads]
    by_cases hfilling : typed.any isFilling = true
    · have hblank : ¬typed.all isAsciiBlank = true := by
        intro hblank
        rw [(all_isAsciiBlank_iff.1 hblank).1] at hfilling
        cases hfilling
      rw [if_pos hfilling, if_neg hblank]
    · have hcomma : ',' ∉ typed := fun hcomma => hfilling (h call hcall l typed commas hlist hcomma)
      rw [if_neg hfilling, if_pos (all_isAsciiBlank_iff.2 ⟨by simpa using hfilling, hcomma⟩)]

/-- A list with nothing but a comma in it is counted as if it was empty. -/
theorem not_argumentsCounted_commaAlone : ¬ArgumentsCounted "f(,)".toList := by
  intro h
  have hcall : (⟨"f", .ofSize 0 1, some 0⟩ : CallSite) ∈ (scan "f(,)".toList).calls := by decide +kernel
  let l : CallSite.Layout ⟨"f", .ofSize 0 1, some 0⟩ "f(,)".toList :=
    { before := [], token := ['f'], blanks := [], inside := [',', ')']
      split := by decide
      start := by decide
      name := by decide
      count := by decide +kernel
      token_ne := by decide
      isNameRest_token := List.forall_mem_singleton.2 rfl
      isAsciiBlank_blanks := List.forall_mem_nil _
      outside := rfl }
  have hlist : IsList l.inside [','] 1 := ⟨')', [], rfl, rfl, rfl⟩
  have hspreads : ¬ArgumentPlace.first.Spreads [','] := fun hspreads => absurd hspreads.filling (by decide)
  exact absurd (h _ hcall l [','] 1 hlist hspreads) (by decide)

end LgLang.Expression
