import LgLang.Syntax.BulletBody
import LgLang.Proofs.Syntax.Groups
import LgLang.Proofs.Syntax.Tokens

/-!
# Where the parts of a body stand

A body keeps texts, segments, references and the spans of its branches. They stand in the text between the offsets of
the lines that were read, segments and references one behind the other (`Body.Placed`). Each group of lines adds to the
end of what is kept and covers its branch (`Body.Extends`), which is why the order of the lines is that of the body,
whatever keywords are dropped (`bulletBody_placed`).
-/

namespace LgLang.Syntax

open Text (Stands byteSize)

variable {cs xs : List Char} {start lo mid hi : Nat}

/-! ## Tokens of several texts -/

namespace TokensPlaced

variable {ts us : List Token}

theorem append (ht : TokensPlaced cs lo mid ts) (hu : TokensPlaced cs mid hi us) (hlo : lo ≤ mid) (hhi : mid ≤ hi) :
    TokensPlaced cs lo hi (ts ++ us) := by
  refine ⟨List.forall_mem_append.2 ⟨ht.located, hu.located⟩, List.forall_mem_append.2 ⟨?_, ?_⟩, ?_⟩
  · intro t hmem
    have hwithin := ht.within t hmem
    omega
  · intro u hmem
    have hwithin := hu.within u hmem
    omega
  · refine List.pairwise_append.2 ⟨ht.ordered, hu.ordered, fun t htmem u humem => ?_⟩
    have htwithin := ht.within t htmem
    have huwithin := hu.within u humem
    show t.span.stop ≤ u.span.start
    omega

theorem mono {lo' hi' : Nat} (h : TokensPlaced cs lo hi ts) (hlo : lo' ≤ lo) (hhi : hi ≤ hi') :
    TokensPlaced cs lo' hi' ts := by
  refine ⟨h.located, fun t ht => ?_, h.ordered⟩
  have hwithin := h.within t ht
  omega

theorem sublist (h : TokensPlaced cs lo hi ts) (hsub : us.Sublist ts) : TokensPlaced cs lo hi us :=
  ⟨fun t ht => h.located t (hsub.subset ht), fun t ht => h.within t (hsub.subset ht), h.ordered.sublist hsub⟩

end TokensPlaced

namespace Token

variable {t : Token} {ts : List Token} {s : Segment} {r : Reference}

theorem eq_of_segment? (h : t.segment? = some s) : t = .segment s := by
  cases t with
  | segment s' => exact congrArg Token.segment (Option.some.inj h)
  | reference r => cases h
  | unterminated span => cases h

theorem eq_of_reference? (h : t.reference? = some r) : t = .reference r := by
  cases t with
  | segment s => cases h
  | reference r' => exact congrArg Token.reference (Option.some.inj h)
  | unterminated span => cases h

theorem mem_of_mem_segments (h : s ∈ ts.filterMap segment?) : .segment s ∈ ts := by
  obtain ⟨t, ht, hsegment⟩ := List.mem_filterMap.1 h
  rwa [eq_of_segment? hsegment] at ht

theorem mem_of_mem_references (h : r ∈ ts.filterMap reference?) : .reference r ∈ ts := by
  obtain ⟨t, ht, hreference⟩ := List.mem_filterMap.1 h
  rwa [eq_of_reference? hreference] at ht

end Token

/-! ## What a body keeps -/

/-- The span lies between two offsets. -/
def Within (lo hi : Nat) (s : Span) : Prop :=
  lo ≤ s.start ∧ s.stop ≤ hi

/-- Texts and segments, as a body keeps them, that stand in the text between two offsets: the segments, and the
references of the texts, are tokens found one behind the other. -/
structure Kept (cs : List Char) (lo hi : Nat) (lines : List TextLine) (segments : List Segment) : Prop where
  texts : ∀ l ∈ lines, l.span.Holds cs l.text.toList ∧ Within lo hi l.span
  tokens : ∃ ts, TokensPlaced cs lo hi ts ∧ ts.filterMap Token.segment? = segments ∧
    ts.filterMap Token.reference? = lines.flatMap (·.references)

namespace Kept

variable {lines more : List TextLine} {segments others : List Segment}

theorem nil : Kept cs lo hi [] [] :=
  ⟨fun _ h => absurd h List.not_mem_nil, [], .nil, rfl, rfl⟩

theorem append (h : Kept cs lo mid lines segments) (h' : Kept cs mid hi more others) (hlo : lo ≤ mid) (hhi : mid ≤ hi) :
    Kept cs lo hi (lines ++ more) (segments ++ others) := by
  obtain ⟨ts, hts, rfl, hreferences⟩ := h.tokens
  obtain ⟨us, hus, rfl, hreferences'⟩ := h'.tokens
  refine ⟨List.forall_mem_append.2 ⟨?_, ?_⟩, ts ++ us, hts.append hus hlo hhi, List.filterMap_append, ?_⟩
  · intro l hl
    obtain ⟨hholds, hstart, hstop⟩ := h.texts l hl
    exact ⟨hholds, hstart, Nat.le_trans hstop hhi⟩
  · intro l hl
    obtain ⟨hholds, hstart, hstop⟩ := h'.texts l hl
    exact ⟨hholds, Nat.le_trans hlo hstart, hstop⟩
  · rw [List.filterMap_append, List.flatMap_append, hreferences, hreferences']

theorem mono {lo' hi' : Nat} (h : Kept cs lo hi lines segments) (hlo : lo' ≤ lo) (hhi : hi ≤ hi') :
    Kept cs lo' hi' lines segments := by
  obtain ⟨ts, hts, hsegments, hreferences⟩ := h.tokens
  refine ⟨fun l hl => ?_, ts, hts.mono hlo hhi, hsegments, hreferences⟩
  obtain ⟨hholds, hstart, hstop⟩ := h.texts l hl
  exact ⟨hholds, Nat.le_trans hlo hstart, Nat.le_trans hstop hhi⟩

/-- A text with its tokens. -/
theorem ofText (h : Stands cs start xs) :
    Kept cs start (start + byteSize xs) [.ofText start xs] (TextLine.ofText start xs).segments := by
  refine ⟨fun l hl => ?_, tokensFrom start xs, tokensFrom_placed h, rfl, ?_⟩
  · obtain rfl := List.mem_singleton.1 hl
    refine ⟨?_, Nat.le_refl _, Nat.le_refl _⟩
    show (Span.ofSize start (byteSize xs)).Holds cs (String.ofList xs).toList
    rw [String.toList_ofList]
    exact Span.holds_ofSize h
  · rw [List.flatMap_singleton]
    rfl

theorem segments_located (h : Kept cs lo hi lines segments) : ∀ s ∈ segments, s.Located cs ∧ Within lo hi s.span := by
  obtain ⟨ts, hts, rfl, -⟩ := h.tokens
  intro s hs
  have hmem := Token.mem_of_mem_segments hs
  exact ⟨hts.located _ hmem, hts.within _ hmem⟩

theorem references_located (h : Kept cs lo hi lines segments) :
    ∀ r ∈ lines.flatMap (·.references), r.Located cs ∧ Within lo hi r.span := by
  obtain ⟨ts, hts, -, hreferences⟩ := h.tokens
  intro r hr
  rw [← hreferences] at hr
  have hmem := Token.mem_of_mem_references hr
  exact ⟨(hts.located _ hmem).1, hts.within _ hmem⟩

theorem segments_ordered (h : Kept cs lo hi lines segments) : segments.Pairwise fun s s' => s.span.Before s'.span := by
  obtain ⟨ts, hts, rfl, -⟩ := h.tokens
  refine hts.ordered.filterMap Token.segment? ?_
  intro t u htu s hs s' hs'
  obtain rfl := Token.eq_of_segment? hs
  obtain rfl := Token.eq_of_segment? hs'
  exact htu

/-- The brackets around them keep references apart. -/
theorem references_apart (h : Kept cs lo hi lines segments) :
    (lines.flatMap (·.references)).Pairwise fun r r' => r.span.stop < r'.span.start := by
  obtain ⟨ts, hts, -, hreferences⟩ := h.tokens
  rw [← hreferences]
  have hlocated : ts.Pairwise fun t u => t.Located cs ∧ u.Located cs ∧ t.span.Before u.span :=
    hts.ordered.imp_of_mem fun ht hu htu => ⟨hts.located _ ht, hts.located _ hu, htu⟩
  refine hlocated.filterMap Token.reference? ?_
  rintro t u ⟨ht, hu, htu⟩ r hr r' hr'
  obtain rfl := Token.eq_of_reference? hr
  obtain rfl := Token.eq_of_reference? hr'
  exact Nat.lt_of_le_of_ne htu (hu.1.start_ne ht.2).symm

theorem references_ordered (h : Kept cs lo hi lines segments) :
    (lines.flatMap (·.references)).Pairwise fun r r' => r.span.Before r'.span :=
  h.references_apart.imp Nat.le_of_lt

/-- Segments and references do not overlap. -/
theorem separate (h : Kept cs lo hi lines segments) :
    ∀ s ∈ segments, ∀ r ∈ lines.flatMap (·.references), s.span.Before r.span ∨ r.span.Before s.span := by
  obtain ⟨ts, hts, rfl, hreferences⟩ := h.tokens
  intro s hs r hr
  rw [← hreferences] at hr
  exact Span.before_or_before hts.ordered (Token.mem_of_mem_segments hs) (Token.mem_of_mem_references hr)
    Token.noConfusion

end Kept

/-- The expression that a keyword carries is one of the segments behind the keyword. -/
theorem Kept.branchExpression (k : Keyword) (span : Span) (h : Stands cs start xs) :
    Kept cs start (start + byteSize xs) [] (branchExpression k start xs span).1.toList := by
  have hplaced := tokensFrom_placed h
  simp only [Syntax.branchExpression]
  split
  · split
    · next s ss hsegments =>
      have hmem : Token.segment s ∈ tokensFrom start xs := Token.mem_of_mem_segments (by simp [hsegments])
      exact ⟨fun _ hl => absurd hl List.not_mem_nil, [.segment s], hplaced.sublist (List.singleton_sublist.2 hmem),
        rfl, rfl⟩
    · split <;> exact .nil
  · split <;> exact .nil

/-- The spans of the branches of a body. -/
def Body.branchSpans : Body → List Span
  | .text _ => []
  | .structured _ => []
  | .conditional bs => bs.map (·.span)
  | .switch b => b.cases.map (·.span) ++ (b.fallback.map (·.span)).toList

/-- A body whose parts stand in the text between two offsets. -/
structure Body.Placed (cs : List Char) (lo hi : Nat) (b : Body) : Prop where
  kept : Kept cs lo hi b.textLines b.keptSegments
  branches : ∀ s ∈ b.branchSpans, s.Fits cs ∧ Within lo hi s

/-- A body that keeps more at its end, where the branches are old ones, one at a new place, or old ones grown to cover
that place. -/
structure Body.Extends (old new : Body) (lines : List TextLine) (segments : List Segment) (place : Span) : Prop where
  lines : new.textLines = old.textLines ++ lines
  segments : new.keptSegments = old.keptSegments ++ segments
  branches : ∀ s ∈ new.branchSpans, s ∈ old.branchSpans ∨ s = place ∨ ∃ t ∈ old.branchSpans, s = t.cover place

namespace Body

variable {b old new : Body} {lines : List TextLine} {segments : List Segment} {place : Span}

theorem Placed.mono (h : b.Placed cs lo mid) (hhi : mid ≤ hi) : b.Placed cs lo hi :=
  ⟨h.kept.mono (Nat.le_refl lo) hhi, fun s hs =>
    ⟨(h.branches s hs).1, (h.branches s hs).2.1, Nat.le_trans (h.branches s hs).2.2 hhi⟩⟩

theorem Placed.extends (h : old.Placed cs lo mid) (hext : old.Extends new lines segments place)
    (hkept : Kept cs mid hi lines segments) (hplace : place.Fits cs) (hwithin : Within mid hi place) (hlo : lo ≤ mid) :
    new.Placed cs lo hi := by
  obtain ⟨hstart, hstop⟩ := hwithin
  have hspan := place.start_le_stop
  have hhi : mid ≤ hi := by omega
  refine ⟨?_, fun s hs => ?_⟩
  · rw [hext.lines, hext.segments]
    exact h.kept.append hkept hlo hhi
  · rcases hext.branches s hs with hold | rfl | ⟨t, ht, rfl⟩
    · obtain ⟨hfits, hlo', hhi'⟩ := h.branches s hold
      exact ⟨hfits, hlo', Nat.le_trans hhi' hhi⟩
    · exact ⟨hplace, Nat.le_trans hlo hstart, hstop⟩
    · obtain ⟨hfits, hlo', hhi'⟩ := h.branches t ht
      have ht := t.start_le_stop
      refine ⟨hfits.cover hplace, ?_, ?_⟩
      · show lo ≤ min t.start place.start
        omega
      · show max (min t.start place.start) (max t.stop place.stop) ≤ hi
        omega

end Body

/-! ## Bodies as they are read -/

theorem mapLast_append_singleton {α : Type} (f : α → α) (as : List α) (a : α) : mapLast f (as ++ [a]) = as ++ [f a] := by
  induction as with
  | nil => rfl
  | cons b as ih =>
    cases as with
    | nil => rfl
    | cons c as => exact congrArg (b :: ·) ih

theorem mapLast_map {α β : Type} {f : α → α} {g : β → β} {h : α → β} (hfg : ∀ a, g (h a) = h (f a)) (as : List α) :
    mapLast g (as.map h) = (mapLast f as).map h := by
  fun_induction mapLast f as with
  | case1 => rfl
  | case2 a => exact congrArg (fun b => [b]) (hfg a)
  | case3 a b as ih => exact congrArg (h a :: ·) ih

namespace Draft

variable {d : Draft} {k : Keyword}

theorem addToSwitch?_extends {b b' : SwitchBody} {line : TextLine} (h : addToSwitch? b line = some b') :
    (Body.switch b).Extends (.switch b') [line] line.segments line.span := by
  unfold addToSwitch? at h
  split at h
  · next f hfallback =>
    obtain rfl := Option.some.inj h
    refine ⟨?_, ?_, fun s hs => ?_⟩
    · simp [Body.textLines, hfallback]
    · simp [Body.keptSegments, hfallback]
    · simp only [Body.branchSpans, hfallback, List.mem_append, Option.map_some, Option.toList_some,
        List.mem_singleton] at hs ⊢
      rcases hs with hs | rfl
      · exact Or.inl (Or.inl hs)
      · exact Or.inr (Or.inr ⟨f.span, Or.inr rfl, rfl⟩)
  · next hfallback =>
    split at h
    · cases h
    · next hcases =>
      obtain rfl := Option.some.inj h
      obtain ⟨init, c, hinit⟩ : ∃ init c, b.cases = init ++ [c] :=
        (List.eq_nil_or_concat' b.cases).resolve_left (by simpa using hcases)
      refine ⟨?_, ?_, fun s hs => ?_⟩
      · simp [Body.textLines, hfallback, hinit, mapLast_append_singleton]
      · simp [Body.keptSegments, hfallback, hinit, mapLast_append_singleton]
      · simp only [Body.branchSpans, hfallback, hinit, mapLast_append_singleton, List.map_append, List.map_cons,
          List.map_nil, List.mem_append, List.mem_singleton, Option.map_none, Option.toList_none, List.not_mem_nil,
          or_false] at hs ⊢
        rcases hs with hs | rfl
        · exact Or.inl (Or.inl hs)
        · exact Or.inr (Or.inr ⟨c.span, Or.inr rfl, rfl⟩)

/-- A text goes to the end of the body, unless there is no place for it. -/
theorem addText_extends (d : Draft) (line : TextLine) :
    (d.addText line).1 = d ∨ d.body.Extends (d.addText line).1.body [line] line.segments line.span := by
  cases d with
  | undecided => exact Or.inr ⟨rfl, by simp [addText, body, Body.keptSegments], fun s hs => absurd hs List.not_mem_nil⟩
  | text ls =>
    exact Or.inr ⟨rfl, by simp [addText, body, Body.keptSegments], fun s hs => absurd hs List.not_mem_nil⟩
  | conditional bs =>
    rcases List.eq_nil_or_concat' bs with rfl | ⟨init, b, rfl⟩
    · exact Or.inl rfl
    · refine Or.inr ⟨?_, ?_, fun s hs => ?_⟩
      · simp [addText, body, Body.textLines, mapLast_append_singleton]
      · simp [addText, body, Body.keptSegments, mapLast_append_singleton]
      · simp only [addText, body, Body.branchSpans, mapLast_append_singleton, List.map_append, List.map_cons,
          List.map_nil, List.mem_append, List.mem_singleton] at hs ⊢
        rcases hs with hs | rfl
        · exact Or.inl (Or.inl hs)
        · exact Or.inr (Or.inr ⟨b.span, Or.inr rfl, rfl⟩)
  | switch b =>
    simp only [addText]
    split
    · next b' hadd => exact Or.inr (addToSwitch?_extends hadd)
    · exact Or.inl rfl

theorem addBranch_extends (bs : List Branch) (kind : BranchKind) (condition : Option Segment) (span : Span) :
    (conditional bs).body.Extends ((conditional bs).addBranch kind condition span).body [] condition.toList span := by
  refine ⟨?_, ?_, fun s hs => ?_⟩
  · simp [addBranch, body, Body.textLines]
  · simp [addBranch, body, Body.keptSegments]
  · simp only [addBranch, body, Body.branchSpans, List.map_append, List.map_cons, List.map_nil, List.mem_append,
      List.mem_singleton] at hs ⊢
    exact hs.imp_right Or.inl

theorem addCase_extends {b : SwitchBody} (hfallback : b.fallback = none) (value : Option Segment) (span : Span) :
    (Body.switch b).Extends (.switch { b with cases := b.cases ++ [⟨value, [], span⟩] }) [] value.toList span := by
  refine ⟨?_, ?_, fun s hs => ?_⟩
  · simp [Body.textLines, hfallback]
  · simp [Body.keptSegments, hfallback]
  · simp only [Body.branchSpans, hfallback, List.map_append, List.map_cons, List.map_nil, List.mem_append,
      List.mem_singleton, Option.map_none, Option.toList_none, List.not_mem_nil, or_false] at hs ⊢
    exact hs.imp_right Or.inl

theorem addFallback_extends {b : SwitchBody} (hfallback : b.fallback = none) (span : Span) :
    (Body.switch b).Extends (.switch { b with fallback := some ⟨[], span⟩ }) [] [] span := by
  refine ⟨?_, ?_, fun s hs => ?_⟩
  · simp [Body.textLines, hfallback]
  · simp [Body.keptSegments, hfallback]
  · simp only [Body.branchSpans, hfallback, List.mem_append, Option.map_some, Option.toList_some, List.mem_singleton,
      Option.map_none, Option.toList_none, List.not_mem_nil, or_false] at hs ⊢
    exact hs.imp_right Or.inl

/-- Whether a keyword is dropped with its expression: it is misplaced and opens no branch. -/
def Drops (d : Draft) (k : Keyword) : Prop :=
  ((d.misplacement? k).isSome && !d.admitsMisplaced k) = true

/-- Behind a DEFAULT nothing more is added to a switch block. -/
theorem fallback_eq_none_of_not_drops {b : SwitchBody} (hk : k = .case ∨ k = .fallback) (hkept : ¬(switch b).Drops k) :
    b.fallback = none := by
  cases hfallback : b.fallback with
  | none => rfl
  | some f =>
    refine absurd ?_ hkept
    rcases hk with rfl | rfl <;> simp [Drops, misplacement?, admitsMisplaced, hfallback]

/-- A keyword that is not dropped opens a branch at the end of the body, or sets the subject of an empty one. -/
theorem addKeyword_extends (expression : Option Segment) (span : Span) (hexpression : k = .fallback → expression = none)
    (hkept : ¬d.Drops k) : d.body.Extends (d.addKeyword k expression span).body [] expression.toList span := by
  cases d with
  | undecided =>
    cases k <;> refine ⟨?_, ?_, ?_⟩ <;>
      simp_all [addKeyword, addBranch, updateSwitch, body, Body.textLines, Body.keptSegments, Body.branchSpans]
  | text ls => exact absurd rfl hkept
  | conditional bs =>
    cases k with
    | elseWhen => exact addBranch_extends bs .elseWhen expression span
    | otherwise => exact addBranch_extends bs .otherwise expression span
    | when => exact absurd rfl hkept
    | switch => exact absurd rfl hkept
    | case => exact absurd rfl hkept
    | fallback => exact absurd rfl hkept
  | switch b =>
    cases k with
    | case => exact addCase_extends (fallback_eq_none_of_not_drops (Or.inl rfl) hkept) expression span
    | fallback =>
      rw [hexpression rfl]
      exact addFallback_extends (fallback_eq_none_of_not_drops (Or.inr rfl) hkept) span
    | when => exact absurd rfl hkept
    | elseWhen => exact absurd rfl hkept
    | otherwise => exact absurd rfl hkept
    | switch => exact absurd rfl hkept

end Draft

/-! ## Keywords of bullets -/

namespace Keyword

variable {spelling word rest blanks after : List Char} {k : Keyword} {size : Nat}

theorem append_splitSpelling? (h : splitSpelling? spelling cs = some (word, rest)) : cs = word ++ rest := by
  fun_induction splitSpelling? spelling cs generalizing word with
  | case1 cs =>
    obtain ⟨rfl, rfl⟩ := Prod.mk.inj (Option.some.inj h)
    rfl
  | case2 => cases h
  | case3 l ls c cs _ ih =>
    obtain ⟨⟨word', rest'⟩, hsplit, heq⟩ := Option.map_eq_some_iff.1 h
    obtain ⟨rfl, rfl⟩ := Prod.mk.inj heq
    exact congrArg (c :: ·) (ih hsplit)
  | case4 => cases h

theorem append_splitMarker? (h : splitMarker? spelling cs = some (word, blanks, after)) :
    cs = word ++ blanks ++ ':' :: after := by
  unfold splitMarker? at h
  split at h
  · cases h
  · next word' rest hsplit =>
    split at h
    · next after' hcolon =>
      obtain ⟨rfl, hrest⟩ := Prod.mk.inj (Option.some.inj h)
      obtain ⟨rfl, rfl⟩ := Prod.mk.inj hrest
      have hbehind := List.takeWhile_append_dropWhile (p := Text.isBlank) (l := rest)
      rw [hcolon] at hbehind
      rw [append_splitSpelling? hsplit, List.append_assoc, hbehind]
    · cases h

/-- A keyword with its colon takes up the bytes that are told, and what is told to follow it follows. -/
theorem exists_append_of_detect? (h : detect? cs = some (k, size, rest)) :
    ∃ marker, cs = marker ++ rest ∧ byteSize marker = size := by
  obtain ⟨⟨word, blanks, after⟩, hfound, heq⟩ := Option.map_eq_some_iff.1 h
  obtain ⟨-, hrest⟩ := Prod.mk.inj heq
  obtain ⟨rfl, rfl⟩ := Prod.mk.inj hrest
  obtain ⟨spelling, -, hsplit⟩ := List.exists_of_findSome?_eq_some hfound
  have hcolon : byteSize [':'] = 1 := rfl
  refine ⟨word ++ blanks ++ [':'], ?_, ?_⟩
  · rw [append_splitMarker? hsplit]
    simp
  · rw [Text.byteSize_append, Text.byteSize_append, hcolon]

end Keyword

/-! ## Findings -/

/-- All findings of a list are about places in the text. -/
def FindingsFit (cs : List Char) (ds : List Diagnostic) : Prop :=
  ∀ d ∈ ds, d.span.Fits cs

namespace FindingsFit

variable {ds es : List Diagnostic} {d : Diagnostic}

theorem nil : FindingsFit cs [] :=
  fun _ h => absurd h List.not_mem_nil

theorem append (hd : FindingsFit cs ds) (he : FindingsFit cs es) : FindingsFit cs (ds ++ es) :=
  List.forall_mem_append.2 ⟨hd, he⟩

theorem singleton (h : d.span.Fits cs) : FindingsFit cs [d] :=
  List.forall_mem_singleton.2 h

end FindingsFit

theorem textDiagnostics_fit (h : Stands cs start xs) : FindingsFit cs (textDiagnostics start xs) := by
  intro d hd
  obtain ⟨t, ht, hdiagnostic⟩ := List.mem_filterMap.1 hd
  have hlocated := (tokensFrom_placed h).located t ht
  cases t with
  | segment s => cases hdiagnostic
  | reference r => cases hdiagnostic
  | unterminated span =>
    obtain rfl := Option.some.inj hdiagnostic
    exact hlocated

theorem branchExpression_fit (k : Keyword) {span : Span} (h : Stands cs start xs) (hspan : span.Fits cs) :
    FindingsFit cs (branchExpression k start xs span).2 := by
  have hscan := textDiagnostics_fit h
  simp only [branchExpression]
  split
  · split
    · exact hscan
    · split
      · exact .singleton hspan
      · exact hscan
  · split
    · exact hscan
    · exact hscan.append (.singleton hspan)

theorem branchExpression_eq_none {k : Keyword} {span : Span} (hk : k.takesExpression = false) :
    (branchExpression k start xs span).1 = none := by
  simp only [branchExpression, hk, Bool.false_eq_true, if_false]
  split <;> rfl

/-! ## Reading the groups of a body -/

namespace Draft

variable {d : Draft}

theorem addText_fit {line : TextLine} (h : line.span.Fits cs) : FindingsFit cs (d.addText line).2 := by
  cases d with
  | undecided => exact .nil
  | text _ => exact .nil
  | conditional _ => exact .nil
  | switch b =>
    simp only [addText]
    split
    · exact .nil
    · exact .singleton h

/-- One more group of lines: the body keeps what is in it, and the findings are about it. -/
theorem add_placed {item : BodyItem} (h : d.body.Placed cs lo mid) (hitem : item.Placed cs) (hlo : lo ≤ mid)
    (hmid : mid ≤ item.start) : (d.add item).1.body.Placed cs lo item.stop ∧ FindingsFit cs (d.add item).2 := by
  have hitemStop := item.start_le_stop
  have hold : d.body.Placed cs lo item.stop := h.mono (Nat.le_trans hmid hitemStop)
  cases item with
  | stray span => exact ⟨hold, .singleton hitem⟩
  | bullet start content =>
    have hstands : Stands cs start content := hitem
    have hspan := Span.holds_ofSize hstands
    have hwithin : Within mid (BodyItem.bullet start content).stop (.ofSize start (byteSize content)) :=
      ⟨hmid, Nat.le_refl _⟩
    simp only [add]
    split
    · refine ⟨?_, (textDiagnostics_fit hstands).append (addText_fit hspan.fits)⟩
      rcases d.addText_extends (.ofText start content) with hsame | hext
      · rwa [hsame]
      · exact h.extends hext ((Kept.ofText hstands).mono hmid (Nat.le_refl _)) hspan.fits hwithin hlo
    · next k size rest hdetect =>
      have hreports : FindingsFit cs ((d.misplacement? k).map fun m =>
          Diagnostic.error .misplacedKeyword (.ofSize start (byteSize content)) m.message).toList := by
        cases d.misplacement? k with
        | none => exact .nil
        | some m => exact .singleton hspan.fits
      split
      · exact ⟨hold, hreports⟩
      · next hkept =>
        obtain ⟨marker, rfl, rfl⟩ := Keyword.exists_append_of_detect? hdetect
        have hrest := hstands.right
        refine ⟨?_, hreports.append (branchExpression_fit k hrest hspan.fits)⟩
        have hexpression : k = .fallback →
            (branchExpression k (start + byteSize marker) rest (.ofSize start (byteSize (marker ++ rest)))).1 = none := by
          rintro rfl
          exact branchExpression_eq_none rfl
        refine h.extends (addKeyword_extends _ _ hexpression hkept) ?_ hspan.fits hwithin hlo
        refine (Kept.branchExpression k _ hrest).mono (Nat.le_trans hmid (Nat.le_add_right _ _)) ?_
        show start + byteSize marker + byteSize rest ≤ start + byteSize (marker ++ rest)
        rw [Text.byteSize_append]
        omega

theorem addAll_placed {items : List BodyItem} (h : d.body.Placed cs lo mid) (hitems : Grouped cs hi mid items)
    (hlo : lo ≤ mid) (hhi : mid ≤ hi) :
    (d.addAll items).1.body.Placed cs lo hi ∧ FindingsFit cs (d.addAll items).2 := by
  induction items generalizing d mid with
  | nil => exact ⟨h.mono hhi, .nil⟩
  | cons item items ih =>
    cases hitems with
    | cons hplaced hmid hstop hrest =>
      obtain ⟨hnext, hfit⟩ := add_placed h hplaced hlo hmid
      have hitem := item.start_le_stop
      obtain ⟨hfinal, hmore⟩ := ih hnext hrest (by omega) hstop
      exact ⟨hfinal, hfit.append hmore⟩

theorem emptyBranches_fit (h : d.body.Placed cs lo hi) : FindingsFit cs d.emptyBranches := by
  cases d with
  | undecided => exact .nil
  | text _ => exact .nil
  | conditional bs =>
    intro e he
    obtain ⟨b, hb, rfl⟩ := List.mem_map.1 he
    exact (h.branches b.span (List.mem_map_of_mem (List.mem_of_mem_filter hb))).1
  | switch b =>
    intro e he
    rcases List.mem_append.1 he with he | he
    · obtain ⟨c, hc, rfl⟩ := List.mem_map.1 he
      refine (h.branches c.span (List.mem_append_left _ ?_)).1
      exact List.mem_map_of_mem (List.mem_of_mem_filter hc)
    · obtain ⟨f, hf, rfl⟩ := Option.map_eq_some_iff.1 (Option.mem_toList.1 he)
      refine (h.branches f.span (List.mem_append_right _ ?_)).1
      rw [(Option.filter_eq_some_iff.1 hf).1]
      exact List.mem_singleton_self _

end Draft

/-- **The parts of a body made of bullets stand in the text, in order.** -/
theorem bulletBody_placed {items : List BodyItem} (h : Grouped cs hi lo items) (hle : lo ≤ hi) :
    (bulletBody items).1.Placed cs lo hi ∧ FindingsFit cs (bulletBody items).2 := by
  have hempty : Draft.undecided.body.Placed cs lo lo := ⟨.nil, fun _ hs => absurd hs List.not_mem_nil⟩
  obtain ⟨hplaced, hfit⟩ := Draft.addAll_placed hempty h (Nat.le_refl lo) hle
  exact ⟨hplaced, hfit.append (Draft.emptyBranches_fit hplaced)⟩

end LgLang.Syntax
