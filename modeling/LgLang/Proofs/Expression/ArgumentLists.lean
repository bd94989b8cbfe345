import LgLang.Proofs.Expression.Quoting

/-!
# The calls of an expression and their lists of arguments

A call that the built-in reader notes stands in the expression as a name, with blanks behind it or none, and a parenthesis
(`CallSite.Layout`). Behind the parenthesis each character has a place in the list of arguments, until a bracket closes the
list (`ArgumentPlace`). Where the reader has counted arguments, the list is closed, and there is one argument more than
there are commas (`CallSite.Layout.endsList`).
-/

namespace LgLang.Expression

open Text (byteSize)

/-! ## Places in a list of arguments -/

/-- A place in a list of arguments, behind its parenthesis. -/
structure ArgumentPlace where
  quoting : Quoting
  /-- How many brackets are open there, that of the list aside. -/
  depth : Nat
  /-- How many commas of the list stand before. -/
  commas : Nat
  deriving DecidableEq, Repr

namespace ArgumentPlace

/-- The place behind the parenthesis. -/
def first : ArgumentPlace :=
  ⟨.outside, 0, 0⟩

/-- The place behind a character. There is none behind the bracket that closes the list. -/
def next? (p : ArgumentPlace) (c : Char) : Option ArgumentPlace :=
  let quoting := p.quoting.next c
  if p.quoting ≠ .outside then some ⟨quoting, p.depth, p.commas⟩
  else if isOpener c then some ⟨quoting, p.depth + 1, p.commas⟩
  else if isCloser c then if p.depth = 0 then none else some ⟨quoting, p.depth - 1, p.commas⟩
  else if c = ',' ∧ p.depth = 0 then some ⟨quoting, p.depth, p.commas + 1⟩
  else some ⟨quoting, p.depth, p.commas⟩

/-- The place behind some characters, if they do not close the list. -/
def after? (p : ArgumentPlace) (cs : List Char) : Option ArgumentPlace :=
  cs.foldlM next? p

variable {p p' : ArgumentPlace} {quoting : Quoting} {depth commas : Nat} {c : Char} {cs xs ys inside rest : List Char}

theorem after?_append (h : p.after? xs = some p') : p.after? (xs ++ ys) = p'.after? ys := by
  rw [after?, List.foldlM_append]
  show (p.after? xs).bind _ = _
  rw [h]
  rfl

theorem after?_cons (h : p.next? c = some p') : p.after? (c :: cs) = p'.after? cs := by
  show (p.next? c).bind _ = _
  rw [h]
  rfl

theorem next?_opener (h : isOpener c = true) :
    next? ⟨.outside, depth, commas⟩ c = some ⟨.outside, depth + 1, commas⟩ := by
  have hquoting := Quoting.next_other (isQuote_of_isBracket (isBracket_of_isOpener h))
  simp [next?, h, hquoting]

theorem next?_closer (h : isCloser c = true) :
    next? ⟨.outside, depth + 1, commas⟩ c = some ⟨.outside, depth, commas⟩ := by
  have hquoting := Quoting.next_other (isQuote_of_isBracket (isBracket_of_isCloser h))
  simp [next?, h, isOpener_of_isCloser h, hquoting]

theorem next?_end (h : isCloser c = true) : next? ⟨.outside, 0, commas⟩ c = none := by
  simp [next?, h, isOpener_of_isCloser h]

theorem next?_comma : next? ⟨.outside, 0, commas⟩ ',' = some ⟨.outside, 0, commas + 1⟩ := rfl

theorem next?_other (h : isBracket c = false) (hcomma : c = ',' → depth ≠ 0) :
    next? ⟨.outside, depth, commas⟩ c = some ⟨Quoting.outside.next c, depth, commas⟩ := by
  simp only [isBracket, Bool.or_eq_false_iff] at h
  have hlist : ¬(c = ',' ∧ depth = 0) := fun hc => hcomma hc.1 hc.2
  simp [next?, h.1, h.2, hlist]

theorem next?_within (h : quoting ≠ .outside) :
    next? ⟨quoting, depth, commas⟩ c = some ⟨quoting.next c, depth, commas⟩ :=
  if_pos h

/-- Literals are followed in a list of arguments as everywhere. -/
theorem quoting_of_next? (h : p.next? c = some p') : p'.quoting = p.quoting.next c := by
  unfold next? at h
  dsimp only at h
  split at h
  · rw [← Option.some.inj h]
  · split at h
    · rw [← Option.some.inj h]
    · split at h
      · split at h
        · cases h
        · rw [← Option.some.inj h]
      · split at h <;> rw [← Option.some.inj h]

/-- Literals are followed through a list as everywhere. -/
theorem quoting_of_after? (h : p.after? cs = some p') : p'.quoting = p.quoting.after cs := by
  induction cs generalizing p with
  | nil => rw [← Option.some.inj h]; rfl
  | cons c cs ih =>
    obtain ⟨place, hnext, hrest⟩ := Option.bind_eq_some_iff.1 h
    rw [ih hrest, quoting_of_next? hnext, Quoting.after_cons]

/-- In a literal nothing but the literal goes on. -/
theorem after?_literal (h : quoting.unquoted cs = []) :
    after? ⟨quoting, depth, commas⟩ cs = some ⟨quoting.after cs, depth, commas⟩ := by
  induction cs generalizing quoting with
  | nil => rfl
  | cons c cs ih =>
    have hnext : next? ⟨quoting, depth, commas⟩ c = some ⟨quoting.next c, depth, commas⟩ := by
      by_cases hout : quoting = .outside
      · subst hout
        have hquote : isQuote c = true := by
          by_contra hquote
          rw [Quoting.unquoted_other (by simpa using hquote)] at h
          cases h
        apply next?_other (isBracket_of_isQuote hquote)
        rintro rfl
        cases hquote
      · exact next?_within hout
    rw [after?_cons hnext]
    apply ih
    by_cases hout : quoting = .outside ∧ isQuote c = false
    · rw [Quoting.unquoted, if_pos hout] at h
      cases h
    · rwa [Quoting.unquoted, if_neg hout] at h

/-- A literal is left where it is closed. -/
theorem after?_quoted (hquote : isQuote c = true) (hclosed : quoted? c cs = some (inside, rest)) :
    (mk .outside depth commas).after? (c :: inside) = some ⟨.outside, depth, commas⟩ := by
  obtain ⟨hafter, hunquoted⟩ := Quoting.quoted?_closed hclosed
  rw [after?_literal, Quoting.after_cons, Quoting.next_quote hquote, hafter]
  rwa [Quoting.unquoted_quote hquote]

end ArgumentPlace

/-! ## Counting arguments -/

/-- The end of a list of arguments, from a place in it on: the bracket that closes it, and how many commas of the list are
before this. -/
def EndsList (p : ArgumentPlace) (cs : List Char) (commas : Nat) : Prop :=
  ∃ typed closer rest,
    cs = typed ++ closer :: rest ∧ isCloser closer = true ∧ p.after? typed = some ⟨.outside, 0, commas⟩

theorem EndsList.pass {p p' : ArgumentPlace} {read rest : List Char} {commas : Nat} (h : EndsList p' rest commas)
    (hread : p.after? read = some p') : EndsList p (read ++ rest) commas := by
  obtain ⟨typed, closer, behind, rfl, hcloser, htyped⟩ := h
  refine ⟨read ++ typed, closer, behind, ?_, hcloser, ?_⟩
  · rw [List.append_assoc]
  · rw [ArgumentPlace.after?_append hread, htyped]

theorem EndsList.next {p p' : ArgumentPlace} {c : Char} {cs : List Char} {commas : Nat} (h : EndsList p' cs commas)
    (hnext : p.next? c = some p') : EndsList p (c :: cs) commas := by
  have hread : p.after? [c] = some p' := ArgumentPlace.after?_cons hnext
  exact h.pass hread

theorem EndsList.here {closer : Char} {cs : List Char} {commas : Nat} (h : isCloser closer = true) :
    EndsList ⟨.outside, 0, commas⟩ (closer :: cs) commas :=
  ⟨[], closer, cs, rfl, h, rfl⟩

/-- Where the arguments of a list are counted, the list is closed, and they are one more than its commas, or none. -/
theorem argumentsFrom_endsList {depth inner commas count : Nat} {content : Bool} {cs : List Char}
    (hdepth : depth = inner + 1) (h : argumentsFrom depth commas content cs = some count) :
    ∃ n, EndsList ⟨.outside, inner, commas⟩ cs n ∧ (count = 0 ∨ count = n + 1) := by
  fun_induction argumentsFrom depth commas content cs generalizing inner with
  | case1 => cases h
  | case2 => cases h
  | case3 depth commas content c cs hquote inside rest hquoted ih =>
    obtain ⟨n, hends, hcount⟩ := ih hdepth h
    refine ⟨n, ?_, hcount⟩
    rw [← append_of_quoted? hquoted]
    exact hends.pass (ArgumentPlace.after?_quoted hquote hquoted)
  | case4 depth commas content c cs hquote hopener ih =>
    obtain ⟨n, hends, hcount⟩ := ih (congrArg (· + 1) hdepth) h
    exact ⟨n, hends.next (ArgumentPlace.next?_opener hopener), hcount⟩
  | case5 commas content c cs hquote hopener hcloser =>
    obtain rfl : inner = 0 := by omega
    refine ⟨commas, .here hcloser, ?_⟩
    obtain rfl := Option.some.inj h
    by_cases hcontent : content = true
    · exact Or.inr (if_pos hcontent)
    · exact Or.inl (if_neg hcontent)
  | case6 depth commas content c cs hquote hopener hcloser hlast ih =>
    obtain ⟨outer, rfl⟩ : ∃ outer, inner = outer + 1 := Nat.exists_eq_succ_of_ne_zero (by omega)
    have hless : depth - 1 = outer + 1 := by omega
    obtain ⟨n, hends, hcount⟩ := ih hless h
    exact ⟨n, hends.next (ArgumentPlace.next?_closer hcloser), hcount⟩
  | case7 depth commas content c cs hquote hopener hcloser hcomma ih =>
    simp only [Bool.and_eq_true, beq_iff_eq] at hcomma
    obtain ⟨rfl, rfl⟩ := hcomma
    obtain rfl : inner = 0 := by omega
    obtain ⟨n, hends, hcount⟩ := ih rfl h
    exact ⟨n, hends.next ArgumentPlace.next?_comma, hcount⟩
  | case8 => cases h
  | case9 depth commas content c cs hquote hopener hcloser hcomma hspread ih =>
    obtain ⟨n, hends, hcount⟩ := ih hdepth h
    have hnext : (ArgumentPlace.mk .outside inner commas).next? c = some ⟨.outside, inner, commas⟩ := by
      rw [ArgumentPlace.next?_other, Quoting.next_other (by simpa using hquote)]
      · simp [isBracket, hopener, hcloser]
      · rintro rfl rfl
        exact hcomma (by simp [hdepth])
    exact ⟨n, hends.next hnext, hcount⟩

/-! ## Where the calls stand -/

/-- How a call stands in an expression: as its name, with blanks behind or none, and a parenthesis. -/
structure CallSite.Layout (call : CallSite) (cs : List Char) where
  before : List Char
  /-- The name, with any dots at its end. -/
  token : List Char
  blanks : List Char
  /-- What stands behind the parenthesis. -/
  inside : List Char
  split : cs = before ++ token ++ blanks ++ '(' :: inside
  start : call.span.start = byteSize before
  name : call.name.toList = Scan.withoutFinalDots token
  count : call.argumentCount = argumentCount? ('(' :: inside)
  token_ne : token ≠ []
  isNameRest_token : ∀ c ∈ token, isNameRest c = true
  isAsciiBlank_blanks : ∀ c ∈ blanks, Text.isAsciiBlank c = true
  /-- The call does not stand in a literal. -/
  outside : Quoting.outside.after before = .outside

namespace Scan

variable {s s' : Scan} {call : CallSite} {passed whole : List Char}

/-- What a scan has passed of an expression, and the calls that stand there. -/
structure Traced (whole : List Char) (s : Scan) : Prop where
  passed : ∃ passed, whole = passed ++ s.rest ∧ s.offset = byteSize passed ∧
    (Quoting.outside.after passed = .outside ∨ s.rest = [])
  calls : ∀ call ∈ s.calls, Nonempty (call.Layout whole)

theorem Calls.layout (h : s.Calls call) (hsplit : whole = passed ++ s.rest) (hoffset : s.offset = byteSize passed)
    (houtside : Quoting.outside.after passed = .outside) (htoken : s.rest.takeWhile isNameRest ≠ []) :
    Nonempty (call.Layout whole) := by
  obtain ⟨blanks, inside, hrest, hblanks, hname, hstart, hcount⟩ := h
  refine ⟨passed, s.rest.takeWhile isNameRest, blanks, inside, ?_, hstart.trans hoffset, hname, hcount, htoken, ?_,
    hblanks, houtside⟩
  · rw [hsplit]
    conv_lhs => rw [hrest]
    simp only [List.append_assoc]
  · intro c hc
    exact List.mem_takeWhile_imp hc

/-- A step notes no other call than that of the name it reads. -/
theorem Reads.calls (h : s.Reads s') (hforward : s'.rest.length < s.rest.length) :
    ∀ call ∈ s'.calls, call ∈ s.calls ∨ s.Calls call ∧ s.rest.takeWhile isNameRest ≠ [] := by
  have hsame : ∀ call ∈ s.calls, call ∈ s.calls ∨ s.Calls call ∧ s.rest.takeWhile isNameRest ≠ [] := by
    intro call hcall
    exact Or.inl hcall
  cases h with
  | literal hrest hquote hclosed => exact hsame
  | unclosed hrest hquote hopen message => exact hsame
  | opener hrest hopener => exact hsame
  | closer hrest hopened => exact hsame
  | mismatched hrest hcloser hopened hother message => exact hsame
  | unexpected hrest hcloser hopened message => exact hsame
  | name hrest hstart hcalls =>
    have htoken := ne_nil_of_forward List.takeWhile_append_dropWhile.symm hforward
    intro call hcall
    exact (hcalls call hcall).imp_right fun h => ⟨h, htoken⟩
  | plain hrest hne hplain => exact hsame

theorem Reads.traced (h : s.Reads s') (hforward : s'.rest.length < s.rest.length) (htraced : s.Traced whole) :
    s'.Traced whole := by
  obtain ⟨passed, hsplit, hoffset, houtside⟩ := htraced.passed
  have houtside : Quoting.outside.after passed = .outside := by
    apply houtside.resolve_right
    intro hnil
    rw [hnil] at hforward
    exact Nat.not_lt_zero _ hforward
  obtain ⟨read, hrest, hread, hend⟩ := h.outside
  refine ⟨⟨passed ++ read, ?_, ?_, ?_⟩, ?_⟩
  · rw [hsplit, hrest, List.append_assoc]
  · rw [hread, hoffset, Text.byteSize_append]
  · rwa [Quoting.after_append, houtside]
  · intro call hcall
    rcases h.calls hforward call hcall with hcall | ⟨hcall, htoken⟩
    · exact htraced.calls call hcall
    · exact hcall.layout hsplit hoffset houtside htoken

end Scan

/-- **The calls of an expression stand in it, and not in its literals.** -/
theorem scan_layouts (cs : List Char) : ∀ call ∈ (scan cs).calls, Nonempty (call.Layout cs) := by
  have hstart : (Scan.start cs).Traced cs := ⟨⟨[], rfl, rfl, Or.inl rfl⟩, List.forall_mem_nil _⟩
  have hend := Scan.run_of_reads (fun _ _ hreads hforward => hreads.traced hforward) hstart
  exact hend.calls

/-- The count begins behind the parenthesis. -/
theorem argumentCount?_parenthesis (inside : List Char) :
    argumentCount? ('(' :: inside) = argumentsFrom 1 0 false inside := by
  have hquote : ¬isQuote '(' = true := by decide
  have hopener : isOpener '(' = true := rfl
  rw [argumentCount?, argumentsFrom, if_neg hquote, if_pos hopener]
  rfl

namespace CallSite.Layout

variable {call : CallSite} {cs : List Char}

/-- Where the arguments of a call are counted, its list is closed, and there is one comma less before its end. -/
theorem endsList (l : call.Layout cs) {n : Nat} (h : call.argumentCount = some (n + 1)) :
    EndsList .first l.inside n := by
  rw [l.count, argumentCount?_parenthesis] at h
  obtain ⟨m, hends, hzero | hsucc⟩ := argumentsFrom_endsList rfl h
  · exact absurd hzero (Nat.succ_ne_zero n)
  · obtain rfl := Nat.succ.inj hsucc
    exact hends

/-- A name that does not end in a dot is the name called. -/
theorem name_eq (l : call.Layout cs) (h : l.token.getLast? ≠ some '.') : call.name.toList = l.token := by
  have hfirst : l.token.reverse.head? ≠ some '.' := by
    rwa [List.head?_reverse]
  have hkept : l.token.reverse.dropWhile (· == '.') = l.token.reverse := by
    cases hreverse : l.token.reverse with
    | nil => rfl
    | cons d ds =>
      apply List.dropWhile_cons_of_neg
      rintro hdot
      rw [hreverse, eq_of_beq hdot] at hfirst
      exact hfirst rfl
  rw [l.name, Scan.withoutFinalDots, hkept, List.reverse_reverse]

end CallSite.Layout

end LgLang.Expression
