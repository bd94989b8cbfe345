import LgLang.Proofs.Expression.Calls

/-!
# Inside and outside string literals

At each of its characters an expression is inside a string literal or outside of all (`Quoting`). The built-in reader
passes a whole literal at once, or a bracket, or something else that has no quotes and no brackets (`Scan.Reads`).
Behind each of its steps it is therefore outside of all literals, unless it has read everything
(`Scan.Reads.passes`), and of an expression whose literals are closed it never says that one is not
(`scan_terminated`).
-/

namespace LgLang.Expression

open Text (byteSize)

/-! ## Following the quotes -/

/-- Where a character stands: outside of string literals, or in one with the given quote, there perhaps behind a
backslash that hides it. -/
inductive Quoting where
  | outside
  | inside (quote : Char)
  | hidden (quote : Char)
  deriving DecidableEq, Repr

def isBracket (c : Char) : Bool :=
  isOpener c || isCloser c

namespace Quoting

/-- Where the next character stands. -/
def next : Quoting → Char → Quoting
  | outside, c => if isQuote c then inside c else outside
  | inside quote, c => if c == '\\' then hidden quote else if c == quote then outside else inside quote
  | hidden quote, _ => inside quote

/-- Where what follows some characters stands. -/
def after (q : Quoting) (cs : List Char) : Quoting :=
  cs.foldl next q

/-- The characters outside of string literals. The quotes themselves belong to the literals. -/
def unquoted : Quoting → List Char → List Char
  | _, [] => []
  | q, c :: cs => if q = outside ∧ isQuote c = false then c :: unquoted (q.next c) cs else unquoted (q.next c) cs

variable {q : Quoting} {c quote : Char} {cs xs ys inside rest : List Char}

theorem after_cons : q.after (c :: cs) = (q.next c).after cs := rfl

theorem after_append : q.after (xs ++ ys) = (q.after xs).after ys :=
  List.foldl_append

theorem next_quote (h : isQuote c = true) : outside.next c = .inside c :=
  if_pos h

theorem next_other (h : isQuote c = false) : outside.next c = outside := by
  simp [next, h]

theorem unquoted_other (h : isQuote c = false) : outside.unquoted (c :: cs) = c :: outside.unquoted cs := by
  simp [unquoted, next, h]

theorem unquoted_quote (h : isQuote c = true) : outside.unquoted (c :: cs) = (Quoting.inside c).unquoted cs := by
  simp [unquoted, next, h]

theorem unquoted_within (h : q ≠ outside) : q.unquoted (c :: cs) = (q.next c).unquoted cs := by
  simp [unquoted, h]

theorem unquoted_append : q.unquoted (xs ++ ys) = q.unquoted xs ++ (q.after xs).unquoted ys := by
  induction xs generalizing q with
  | nil => rfl
  | cons c xs ih =>
    rw [List.cons_append, after_cons]
    by_cases hout : q = outside ∧ isQuote c = false
    · simp only [unquoted, if_pos hout, ih, List.cons_append]
    · simp only [unquoted, if_neg hout, ih]

theorem next_closing (h : c ≠ '\\') (hquote : c = quote) : (Quoting.inside quote).next c = outside := by
  obtain rfl := hquote
  simp [next, h]

theorem next_inside (h : c ≠ '\\') (hquote : c ≠ quote) : (Quoting.inside quote).next c = .inside quote := by
  simp [next, h, hquote]

/-- In the last two cases of `quoted?` no backslash stands first. -/
theorem ne_backslash (hlast : c = '\\' → cs = [] → False)
    (hescape : ∀ (d : Char) (ds : List Char), c = '\\' → cs = d :: ds → False) : c ≠ '\\' := by
  intro hc
  cases cs with
  | nil => exact hlast hc rfl
  | cons d ds => exact hescape d ds hc rfl

/-- A literal that is closed is left behind its closing quote. -/
theorem quoted?_closed (h : quoted? quote cs = some (inside, rest)) :
    (Quoting.inside quote).after inside = outside ∧ (Quoting.inside quote).unquoted inside = [] := by
  fun_induction quoted? quote cs generalizing inside rest with
  | case1 => cases h
  | case2 => cases h
  | case3 c cs ih =>
    obtain ⟨⟨inner, behind⟩, hinner, heq⟩ := Option.map_eq_some_iff.1 h
    obtain ⟨rfl, rfl⟩ := Prod.mk.inj heq
    have hinside := ih hinner
    exact hinside
  | case4 c cs hlast hescape hquote =>
    obtain ⟨rfl, rfl⟩ := Prod.mk.inj (Option.some.inj h)
    exact ⟨next_closing (ne_backslash hlast hescape) (eq_of_beq hquote), rfl⟩
  | case5 c cs hlast hescape hquote ih =>
    obtain ⟨⟨inner, behind⟩, hinner, heq⟩ := Option.map_eq_some_iff.1 h
    obtain ⟨rfl, rfl⟩ := Prod.mk.inj heq
    have hnext : (Quoting.inside quote).next c = .inside quote := by
      apply next_inside (ne_backslash hlast hescape)
      simpa using hquote
    rw [after_cons, unquoted_within, hnext]
    · exact ih hinner
    · exact Quoting.noConfusion

/-- A literal that is not closed is never left. -/
theorem quoted?_unclosed (h : quoted? quote cs = none) :
    (Quoting.inside quote).after cs ≠ outside ∧ (Quoting.inside quote).unquoted cs = [] := by
  fun_induction quoted? quote cs with
  | case1 => exact ⟨Quoting.noConfusion, rfl⟩
  | case2 => exact ⟨Quoting.noConfusion, rfl⟩
  | case3 c cs ih => exact ih (Option.map_eq_none_iff.1 h)
  | case4 c cs hlast hescape hquote => cases h
  | case5 c cs hlast hescape hquote ih =>
    have hnext : (Quoting.inside quote).next c = .inside quote := by
      apply next_inside (ne_backslash hlast hescape)
      simpa using hquote
    rw [after_cons, unquoted_within, hnext]
    · exact ih (Option.map_eq_none_iff.1 h)
    · exact Quoting.noConfusion

/-- Without quotes, nothing is in a literal. -/
theorem after_plain (h : ∀ c ∈ cs, isQuote c = false) : outside.after cs = outside := by
  induction cs with
  | nil => rfl
  | cons c cs ih =>
    obtain ⟨hc, hcs⟩ := List.forall_mem_cons.1 h
    rw [after_cons, next_other hc]
    exact ih hcs

theorem unquoted_plain (h : ∀ c ∈ cs, isQuote c = false) : outside.unquoted cs = cs := by
  induction cs with
  | nil => rfl
  | cons c cs ih =>
    obtain ⟨hc, hcs⟩ := List.forall_mem_cons.1 h
    rw [unquoted_other hc, ih hcs]

end Quoting

/-! ## What a step reads -/

/-- A character that is no quote and no bracket. -/
def isPlain (c : Char) : Bool :=
  !isQuote c && !isBracket c

theorem isPlain_of_isNameRest {c : Char} (h : isNameRest c = true) : isPlain c = true := by
  by_contra hplain
  simp only [isPlain, isQuote, isBracket, isOpener, isCloser, Bool.and_eq_true, Bool.not_eq_true', Bool.or_eq_false_iff,
    beq_eq_false_iff_ne, not_and_or, not_not] at hplain
  rcases hplain with ((rfl | rfl) | rfl) | (((rfl | rfl) | rfl) | ((rfl | rfl) | rfl)) <;> exact absurd h (by decide)

/-- An at sign or a dollar sign does not go on with a name. -/
theorem ne_mark_of_isNameRest {c : Char} (h : isNameRest c = true) : c ≠ '@' ∧ c ≠ '$' := by
  constructor
  · rintro rfl
    exact absurd h (by decide)
  · rintro rfl
    exact absurd h (by decide)

theorem isQuote_of_isBracket {c : Char} (h : isBracket c = true) : isQuote c = false := by
  simp only [isBracket, isOpener, isCloser, Bool.or_eq_true, beq_iff_eq] at h
  rcases h with ((rfl | rfl) | rfl) | ((rfl | rfl) | rfl) <;> rfl

theorem isBracket_of_isQuote {c : Char} (h : isQuote c = true) : isBracket c = false := by
  by_contra hbracket
  rw [isQuote_of_isBracket (by simpa using hbracket)] at h
  cases h

theorem isOpener_of_isCloser {c : Char} (h : isCloser c = true) : isOpener c = false := by
  simp only [isCloser, Bool.or_eq_true, beq_iff_eq] at h
  rcases h with (rfl | rfl) | rfl <;> rfl

theorem isBracket_of_isOpener {c : Char} (h : isOpener c = true) : isBracket c = true := by
  simp [isBracket, h]

theorem isBracket_of_isCloser {c : Char} (h : isCloser c = true) : isBracket c = true := by
  simp [isBracket, h]

theorem isCloser_closerOf (opener : Char) : isCloser (closerOf opener) = true := by
  unfold closerOf
  split
  · rfl
  · split <;> rfl

theorem isQuote_of_isPlain {c : Char} (h : isPlain c = true) : isQuote c = false := by
  simp only [isPlain, Bool.and_eq_true, Bool.not_eq_true'] at h
  exact h.1

/-- What is said of a literal that is not closed. -/
def unterminated : String :=
  "unterminated string literal"

namespace Scan

/-- The call of the name that the scan has come to: blanks and the parenthesis of a list of arguments follow the name. -/
def Calls (s : Scan) (call : CallSite) : Prop :=
  ∃ blanks inside,
    s.rest = s.rest.takeWhile isNameRest ++ blanks ++ '(' :: inside ∧ (∀ b ∈ blanks, Text.isAsciiBlank b = true) ∧
      call.name.toList = withoutFinalDots (s.rest.takeWhile isNameRest) ∧ call.span.start = s.offset ∧
        call.argumentCount = argumentCount? ('(' :: inside)

/-- What one step of a scan reads, and what it notes about that. -/
inductive Reads (s : Scan) : Scan → Prop
  | literal {quote : Char} {cs inside rest : List Char} (hrest : s.rest = quote :: cs) (hquote : isQuote quote = true)
      (hclosed : quoted? quote cs = some (inside, rest)) : Reads s (s.pass (quote :: inside) rest)
  | unclosed {quote : Char} {cs : List Char} (hrest : s.rest = quote :: cs) (hquote : isQuote quote = true)
      (hopen : quoted? quote cs = none) (message : String) :
      Reads s ((s.mistake message (.ofSize s.offset (byteSize (quote :: cs)))).pass (quote :: cs) [])
  | opener {c : Char} {cs : List Char} (hrest : s.rest = c :: cs) (hopener : isOpener c = true) :
      Reads s ({ s with opened := (c, s.offset) :: s.opened }.pass [c] cs)
  | closer {opener : Char} {place : Nat} {outer : List (Char × Nat)} {cs : List Char}
      (hrest : s.rest = closerOf opener :: cs) (hopened : s.opened = (opener, place) :: outer) :
      Reads s ({ s with opened := outer }.pass [closerOf opener] cs)
  | mismatched {c opener : Char} {place : Nat} {outer : List (Char × Nat)} {cs : List Char} (hrest : s.rest = c :: cs)
      (hcloser : isCloser c = true) (hopened : s.opened = (opener, place) :: outer) (hother : closerOf opener ≠ c)
      (message : String) (hmessage : message ≠ unterminated) :
      Reads s (({ s with opened := outer }.mistake message (.between place (s.offset + 1))).pass [c] cs)
  | unexpected {c : Char} {cs : List Char} (hrest : s.rest = c :: cs) (hcloser : isCloser c = true)
      (hopened : s.opened = []) (message : String) (hmessage : message ≠ unterminated) :
      Reads s ((s.mistake message (.ofSize s.offset 1)).pass [c] cs)
  | name {c : Char} {cs : List Char} {calls : List CallSite} (hrest : s.rest = c :: cs) (hstart : isNameStart c = true)
      (hcalls : ∀ call ∈ calls, call ∈ s.calls ∨ s.Calls call) :
      Reads s { s.pass (s.rest.takeWhile isNameRest) (s.rest.dropWhile isNameRest) with calls := calls }
  | plain {read rest : List Char} (hrest : s.rest = read ++ rest) (hne : read ≠ [])
      (hplain : ∀ c ∈ read, isPlain c = true) (hmark : ∀ c ∈ read, c ≠ '@' ∧ c ≠ '$') : Reads s (s.pass read rest)

variable {s : Scan} {c : Char} {cs : List Char}

theorem passName_reads (hrest : s.rest = c :: cs) (hstart : isNameStart c = true) : s.Reads s.passName := by
  unfold passName
  dsimp only
  split
  · next hcall =>
    have hnoted : ∀ call ∈ s.calls, call ∈ s.calls ∨ s.Calls call := fun call h => Or.inl h
    refine .name hrest hstart (List.forall_mem_append.2 ⟨hnoted, List.forall_mem_singleton.2 (Or.inr ?_)⟩)
    have hparenthesis := eq_of_beq (Bool.and_eq_true_iff.1 hcall).2
    obtain ⟨inside, hinside⟩ := List.head?_eq_some_iff.1 hparenthesis
    refine ⟨(s.rest.dropWhile isNameRest).takeWhile Text.isAsciiBlank, inside, ?_, ?_, String.toList_ofList, rfl, ?_⟩
    · rw [← hinside, List.append_assoc, List.takeWhile_append_dropWhile, List.takeWhile_append_dropWhile]
    · intro b hb
      exact List.mem_takeWhile_imp hb
    · show argumentCount? _ = _
      rw [hinside]
  · exact .name hrest hstart fun call h => Or.inl h

/-- No other message begins as the one about literals does. -/
theorem ne_unterminated {message : String} (h : message.toList.take 3 ≠ ['u', 'n', 't']) : message ≠ unterminated := by
  rintro rfl
  exact h (by decide)

theorem unexpected_ne (closer : Char) : s!"unexpected '{closer}'" ≠ unterminated :=
  ne_unterminated (by simp [toString])

theorem mismatched_ne (closer opener : Char) : s!"'{closer}' does not match '{opener}'" ≠ unterminated :=
  ne_unterminated (by simp [toString])

theorem unclosed_ne (opener : Char) : s!"unclosed '{opener}'" ≠ unterminated :=
  ne_unterminated (by simp [toString])

theorem step_reads (hrest : s.rest = c :: cs) : s.Reads s.step := by
  unfold step
  rw [hrest]
  dsimp only
  by_cases hquote : isQuote c = true
  · rw [if_pos hquote, passString]
    cases hquoted : quoted? c cs with
    | none => exact .unclosed hrest hquote hquoted _
    | some parts => exact .literal hrest hquote hquoted
  rw [if_neg hquote]
  by_cases hopener : isOpener c = true
  · rw [if_pos hopener]
    exact .opener hrest hopener
  rw [if_neg hopener]
  by_cases hcloser : isCloser c = true
  · rw [if_pos hcloser, passCloser]
    cases hopened : s.opened with
    | nil => exact .unexpected hrest hcloser hopened _ (unexpected_ne c)
    | cons top outer =>
      obtain ⟨opener, place⟩ := top
      dsimp only
      by_cases hmatch : closerOf opener = c
      · subst hmatch
        rw [if_pos (beq_self_eq_true _)]
        exact .closer hrest hopened
      · rw [if_neg (by simpa using hmatch)]
        exact .mismatched hrest hcloser hopened hmatch _ (mismatched_ne c opener)
  rw [if_neg hcloser]
  by_cases hstart : isNameStart c = true
  · rw [if_pos hstart]
    exact passName_reads hrest hstart
  rw [if_neg hstart]
  by_cases hdigit : c.isDigit = true
  · rw [if_pos hdigit]
    have hnumber : ∀ d ∈ s.rest.takeWhile fun d => d.isAlphanum || d == '.', isNameRest d = true := by
      intro d hd
      have hd := List.mem_takeWhile_imp hd
      simp only [isNameRest, Bool.or_eq_true] at hd ⊢
      exact hd.imp_left Or.inl
    rw [hrest] at hnumber
    apply Reads.plain
    · rw [hrest, List.takeWhile_append_dropWhile]
    · rw [List.takeWhile_cons_of_pos (by simp [Char.isAlphanum, hdigit])]
      exact List.cons_ne_nil _ _
    · intro d hd
      exact isPlain_of_isNameRest (hnumber d hd)
    · intro d hd
      exact ne_mark_of_isNameRest (hnumber d hd)
  · rw [if_neg hdigit]
    have hsplit : s.rest = [c] ++ cs := hrest
    apply Reads.plain hsplit (List.cons_ne_nil _ _)
    · intro d hd
      obtain rfl := List.mem_singleton.1 hd
      simp [isPlain, isBracket, hquote, hopener, hcloser]
    · intro d hd
      obtain rfl := List.mem_singleton.1 hd
      constructor
      · rintro rfl
        exact hstart rfl
      · rintro rfl
        exact hstart rfl

/-- No at sign and no dollar sign stands outside of literals in what a step reads. It ends outside of literals if it begins
there, or else at the end of the expression. -/
theorem Reads.passes {s' : Scan} (h : s.Reads s') :
    ∃ read, s.rest = read ++ s'.rest ∧ s'.offset = s.offset + byteSize read ∧
      (∀ c ∈ Quoting.outside.unquoted read, c ≠ '@' ∧ c ≠ '$') ∧
        (Quoting.outside.after read = .outside ∨ s'.rest = []) := by
  have hbracket : ∀ {c}, isBracket c = true →
      (∀ d ∈ Quoting.outside.unquoted [c], d ≠ '@' ∧ d ≠ '$') ∧ Quoting.outside.after [c] = .outside := by
    intro c hc
    refine ⟨?_, Quoting.next_other (isQuote_of_isBracket hc)⟩
    intro d hd
    rw [Quoting.unquoted_other (isQuote_of_isBracket hc)] at hd
    obtain rfl := List.mem_singleton.1 hd
    constructor
    · rintro rfl
      cases hc
    · rintro rfl
      cases hc
  have hquoted : ∀ {quote : Char} {inside : List Char}, isQuote quote = true →
      (Quoting.inside quote).unquoted inside = [] → ∀ d ∈ Quoting.outside.unquoted (quote :: inside), d ≠ '@' ∧ d ≠ '$' := by
    intro quote inside hquote hinside d hd
    rw [Quoting.unquoted_quote hquote, hinside] at hd
    cases hd
  have hplains : ∀ {read : List Char}, (∀ d ∈ read, isPlain d = true) → (∀ d ∈ read, d ≠ '@' ∧ d ≠ '$') →
      (∀ d ∈ Quoting.outside.unquoted read, d ≠ '@' ∧ d ≠ '$') ∧ Quoting.outside.after read = .outside := by
    intro read hplain hmark
    have hquote : ∀ d ∈ read, isQuote d = false := fun d hd => isQuote_of_isPlain (hplain d hd)
    rw [Quoting.unquoted_plain hquote]
    exact ⟨hmark, Quoting.after_plain hquote⟩
  cases h with
  | @literal quote cs inside rest hrest hquote hclosed =>
    obtain ⟨hafter, hinside⟩ := Quoting.quoted?_closed hclosed
    refine ⟨quote :: inside, ?_, rfl, hquoted hquote hinside, Or.inl ?_⟩
    · rw [hrest, ← append_of_quoted? hclosed]
      rfl
    · rw [Quoting.after_cons, Quoting.next_quote hquote]
      exact hafter
  | unclosed hrest hquote hopen message =>
    exact ⟨_, hrest.trans (List.append_nil _).symm, rfl, hquoted hquote (Quoting.quoted?_unclosed hopen).2, Or.inr rfl⟩
  | opener hrest hopener =>
    obtain ⟨hmark, hafter⟩ := hbracket (isBracket_of_isOpener hopener)
    exact ⟨_, hrest, rfl, hmark, Or.inl hafter⟩
  | closer hrest hopened =>
    obtain ⟨hmark, hafter⟩ := hbracket (isBracket_of_isCloser (isCloser_closerOf _))
    exact ⟨_, hrest, rfl, hmark, Or.inl hafter⟩
  | mismatched hrest hcloser hopened hother message =>
    obtain ⟨hmark, hafter⟩ := hbracket (isBracket_of_isCloser hcloser)
    exact ⟨_, hrest, rfl, hmark, Or.inl hafter⟩
  | unexpected hrest hcloser hopened message =>
    obtain ⟨hmark, hafter⟩ := hbracket (isBracket_of_isCloser hcloser)
    exact ⟨_, hrest, rfl, hmark, Or.inl hafter⟩
  | name hrest hstart hcalls =>
    have hword : ∀ d ∈ s.rest.takeWhile isNameRest, isNameRest d = true := fun d hd => List.mem_takeWhile_imp hd
    obtain ⟨hmark, hafter⟩ := hplains (fun d hd => isPlain_of_isNameRest (hword d hd))
      (fun d hd => ne_mark_of_isNameRest (hword d hd))
    exact ⟨_, List.takeWhile_append_dropWhile.symm, rfl, hmark, Or.inl hafter⟩
  | plain hrest hne hplain hmark =>
    obtain ⟨hmark, hafter⟩ := hplains hplain hmark
    exact ⟨_, hrest, rfl, hmark, Or.inl hafter⟩

theorem Reads.outside {s' : Scan} (h : s.Reads s') :
    ∃ read, s.rest = read ++ s'.rest ∧ s'.offset = s.offset + byteSize read ∧
      (Quoting.outside.after read = .outside ∨ s'.rest = []) := by
  obtain ⟨read, hrest, hoffset, -, hbehind⟩ := h.passes
  exact ⟨read, hrest, hoffset, hbehind⟩

/-! ## The whole scan -/

/-- What all steps that move forward preserve, the whole scan preserves. -/
theorem run_of_reads {P : Scan → Prop}
    (hstep : ∀ s s' : Scan, s.Reads s' → s'.rest.length < s.rest.length → P s → P s') (h : P s) : P s.run := by
  fun_induction run s with
  | case1 s next hforward ih =>
    obtain ⟨c, cs, hrest⟩ := List.exists_cons_of_length_pos (Nat.zero_lt_of_lt hforward)
    exact ih (hstep s next (step_reads hrest) hforward h)
  | case2 s next hstop => exact h

/-- The scan stops where a step does not move forward. -/
theorem run_stops (s : Scan) : ¬s.run.step.rest.length < s.run.rest.length := by
  fun_induction run s with
  | case1 s next hforward ih => exact ih
  | case2 s next hstop => exact hstop

/-! ## Literals that are not closed -/

/-- All literals that are still to be read are closed, and so are those that have been read. -/
structure Terminated (s : Scan) : Prop where
  closed : Quoting.outside.after s.rest = .outside
  mistakes : ∀ m ∈ s.mistakes, m.message ≠ unterminated

theorem Reads.terminated {s' : Scan} (h : s.Reads s') (hs : s.Terminated) : s'.Terminated := by
  constructor
  · obtain ⟨read, hrest, -, hout | hend⟩ := h.outside
    · have hclosed := hs.closed
      rwa [hrest, Quoting.after_append, hout] at hclosed
    · rw [hend]
      rfl
  · cases h with
    | unclosed hrest hquote hopen message =>
      have hclosed := hs.closed
      rw [hrest, Quoting.after_cons, Quoting.next_quote hquote] at hclosed
      exact absurd hclosed (Quoting.quoted?_unclosed hopen).1
    | mismatched hrest hcloser hopened hother message hmessage =>
      exact List.forall_mem_append.2 ⟨hs.mistakes, List.forall_mem_singleton.2 hmessage⟩
    | unexpected hrest hcloser hopened message hmessage =>
      exact List.forall_mem_append.2 ⟨hs.mistakes, List.forall_mem_singleton.2 hmessage⟩
    | _ => exact hs.mistakes

end Scan

/-- Where all literals are closed, none is said not to be. -/
theorem scan_terminated {cs : List Char} (h : Quoting.outside.after cs = .outside) :
    ∀ m ∈ (scan cs).mistakes, m.message ≠ unterminated := by
  have hstart : (Scan.start cs).Terminated := ⟨h, List.forall_mem_nil _⟩
  have hend := Scan.run_of_reads (fun _ _ hreads _ hs => hreads.terminated hs) hstart
  apply List.forall_mem_append.2 ⟨hend.mistakes, ?_⟩
  intro m hm
  obtain ⟨⟨opener, place⟩, -, rfl⟩ := List.mem_map.1 hm
  exact Scan.unclosed_ne opener

end LgLang.Expression
