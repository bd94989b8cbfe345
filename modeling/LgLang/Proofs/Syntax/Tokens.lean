import LgLang.Syntax.Scan
import LgLang.Proofs.Text.Place

/-!
# Where the tokens of a text stand

`tokensFrom` reads a text that stands somewhere in a file and counts its offsets from there. Every token it finds stands
in the file where its spans say (`Token.Located`), and the tokens come in the order of the text without overlapping
(`tokensFrom_placed`).
-/

namespace LgLang.Syntax

open Text (Stands byteSize)

variable {cs xs : List Char} {start lo mid hi : Nat}

/-! ## The end of an expression -/

/-- What the look for the end of an expression has passed and what it has left make up the text. -/
theorem append_expressionEnd (depth : Nat) (quote : Option Char) (cs : List Char) :
    (expressionEnd depth quote cs).content ++
        ((if (expressionEnd depth quote cs).closed then ['\x7d'] else []) ++
          (expressionEnd depth quote cs).rest) = cs := by
  fun_induction expressionEnd depth quote cs with
  | case1 => rfl
  | case2 => rfl
  | case3 depth c cs _ _ ih => exact congrArg (c :: ·) ih
  | case4 depth c cs _ _ _ ih => exact congrArg (c :: ·) ih
  | case5 c cs _ _ _ hclose =>
    rw [eq_of_beq hclose]
    rfl
  | case6 depth c cs _ _ _ _ _ ih => exact congrArg (c :: ·) ih
  | case7 depth c cs _ _ _ _ ih => exact congrArg (c :: ·) ih
  | case8 depth q c cs _ ih => exact congrArg (c :: ·) ih
  | case9 => rfl
  | case10 => rfl
  | case11 depth q c _ _ _ d ds ih => exact congrArg (c :: d :: ·) ih
  | case12 depth q c cs _ _ _ ih => exact congrArg (c :: ·) ih

/-- Brackets with nothing but their content between them. -/
theorem append_splitBracket? {name after : List Char} (h : splitBracket? cs = some (name, after)) :
    '[' :: cs = ('[' :: (name ++ [']'])) ++ after := by
  unfold splitBracket? at h
  split at h
  · next rest hdrop =>
    obtain ⟨rfl, rfl⟩ := Prod.mk.inj (Option.some.inj h)
    rw [List.cons_append, List.append_assoc, List.cons_append, List.nil_append, ← hdrop, List.takeWhile_append_dropWhile]
  · cases h

/-! ## Sizes of what the reader passes at once -/

theorem byteSize_opened (xs : List Char) : byteSize ('$' :: '\x7b' :: xs) = byteSize xs + 2 := by
  have hdollar : ('$' : Char).utf8Size = 1 := rfl
  have hopen : ('\x7b' : Char).utf8Size = 1 := rfl
  simp only [Text.byteSize_cons, hdollar, hopen]
  omega

theorem byteSize_closed (xs : List Char) : byteSize ('$' :: '\x7b' :: (xs ++ ['\x7d'])) = byteSize xs + 3 := by
  have hclose : ('\x7d' : Char).utf8Size = 1 := rfl
  rw [byteSize_opened, Text.byteSize_append, Text.byteSize_cons, Text.byteSize_nil, hclose]

theorem byteSize_bracketed (xs : List Char) : byteSize ('[' :: (xs ++ [']'])) = byteSize xs + 2 := by
  have hleft : ('[' : Char).utf8Size = 1 := rfl
  have hright : (']' : Char).utf8Size = 1 := rfl
  simp only [Text.byteSize_cons, Text.byteSize_append, Text.byteSize_nil, hleft, hright]
  omega

/-! ## Located tokens -/

/-- A segment has its expression in the text, and around it the marks that make it a segment. -/
structure Segment.Located (cs : List Char) (s : Segment) : Prop where
  content : s.contentSpan.Holds cs s.expression.toList
  whole : s.span.Holds cs ('$' :: '\x7b' :: (s.expression.toList ++ ['\x7d']))
  inside : s.contentSpan.start = s.span.start + 2

/-- A reference has its name in the text, and this is one that a template can have. -/
structure Reference.Located (cs : List Char) (r : Reference) : Prop where
  name : r.span.Holds cs r.name.toList
  isName : isTemplateName r.name.toList = true

/-- Where a closing bracket stands no reference begins. -/
theorem Reference.Located.start_ne {r : Reference} (hr : r.Located cs) (h : Stands cs start [']']) :
    r.span.start ≠ start := by
  rintro rfl
  have hstands := (Span.holds_iff.1 hr.name).1
  have hname := hr.isName
  cases hchars : r.name.toList with
  | nil =>
    rw [hchars] at hname
    cases hname
  | cons c rest =>
    rw [hchars] at hstands hname
    obtain rfl := hstands.head_eq h
    cases hname

/-- A token stands where its spans say, and behind the name of a reference stands the closing bracket. -/
def Token.Located (cs : List Char) : Token → Prop
  | .segment s => s.Located cs
  | .reference r => r.Located cs ∧ Stands cs r.span.stop [']']
  | .unterminated span => span.Fits cs

/-- The span that a token takes up. -/
def Token.span : Token → Span
  | .segment s => s.span
  | .reference r => r.span
  | .unterminated span => span

theorem segmentAt_located (h : Stands cs start ('$' :: '\x7b' :: (xs ++ ['\x7d']))) :
    (segmentAt start xs).Located cs := by
  have hcontent : Stands cs (start + 2) xs := h.tail.tail.left
  have hwhole := Span.holds_ofSize h
  rw [byteSize_closed] at hwhole
  refine ⟨?_, ?_, rfl⟩
  · simp only [segmentAt, String.toList_ofList]
    exact Span.holds_ofSize hcontent
  · simp only [segmentAt, String.toList_ofList]
    exact hwhole

theorem unterminatedSpan_fits (h : Stands cs start ('$' :: '\x7b' :: xs)) : (unterminatedSpan start xs).Fits cs := by
  obtain ⟨rest, hsplit⟩ := Text.stripReturn_prefix xs
  have hsplit' : '$' :: '\x7b' :: xs = ('$' :: '\x7b' :: Text.stripReturn xs) ++ rest := by
    rw [List.cons_append, List.cons_append, hsplit]
  rw [hsplit'] at h
  have hfits := (Span.holds_ofSize h.left).fits
  rwa [byteSize_opened, Nat.add_comm] at hfits

/-- Tokens that stand in the text between two offsets, one behind the other. -/
structure TokensPlaced (cs : List Char) (lo hi : Nat) (ts : List Token) : Prop where
  located : ∀ t ∈ ts, t.Located cs
  within : ∀ t ∈ ts, lo ≤ t.span.start ∧ t.span.stop ≤ hi
  ordered : ts.Pairwise fun t u => t.span.Before u.span

namespace TokensPlaced

variable {t : Token} {ts : List Token} {passed : List Char}

theorem nil : TokensPlaced cs lo hi [] :=
  ⟨fun _ h => absurd h List.not_mem_nil, fun _ h => absurd h List.not_mem_nil, .nil⟩

theorem cons (ht : t.Located cs) (hlo : lo ≤ t.span.start) (hmid : t.span.stop ≤ mid) (hhi : mid ≤ hi)
    (h : TokensPlaced cs mid hi ts) : TokensPlaced cs lo hi (t :: ts) := by
  have hspan := t.span.start_le_stop
  refine ⟨fun u hu => ?_, fun u hu => ?_, List.pairwise_cons.2 ⟨fun u hu => ?_, h.ordered⟩⟩
  · rcases List.mem_cons.1 hu with rfl | hu
    · exact ht
    · exact h.located u hu
  · rcases List.mem_cons.1 hu with rfl | hu
    · exact ⟨hlo, Nat.le_trans hmid hhi⟩
    · have hwithin := h.within u hu
      exact ⟨by omega, hwithin.2⟩
  · exact Nat.le_trans hmid (h.within u hu).1

/-- Tokens found behind what was passed without a token. -/
theorem skip (hnext : start + byteSize passed = mid) (h : TokensPlaced cs mid (mid + byteSize xs) ts) :
    TokensPlaced cs start (start + byteSize (passed ++ xs)) ts := by
  subst hnext
  rw [Text.byteSize_append, ← Nat.add_assoc]
  refine ⟨h.located, fun t ht => ?_, h.ordered⟩
  have hwithin := h.within t ht
  exact ⟨by omega, hwithin.2⟩

/-- Tokens found behind a token in what was passed. -/
theorem pass (hnext : start + byteSize passed = mid) (ht : t.Located cs) (hlo : start ≤ t.span.start)
    (hstop : t.span.stop ≤ mid) (h : TokensPlaced cs mid (mid + byteSize xs) ts) :
    TokensPlaced cs start (start + byteSize (passed ++ xs)) (t :: ts) := by
  subst hnext
  rw [Text.byteSize_append, ← Nat.add_assoc]
  exact .cons ht hlo hstop (Nat.le_add_right _ _) h

end TokensPlaced

/-- **The tokens of a text stand in it, in order.** -/
theorem tokensFrom_placed (h : Stands cs start xs) : TokensPlaced cs start (start + byteSize xs) (tokensFrom start xs) := by
  fun_induction tokensFrom start xs with
  | case1 => exact .nil
  | case2 => exact .nil
  | case3 start c rest ih =>
    have hnext : start + byteSize ['\\', c] = start + 1 + c.utf8Size := (Nat.add_assoc _ _ _).symm
    show TokensPlaced cs start (start + byteSize (['\\', c] ++ rest)) _
    exact .skip hnext (ih h.tail.tail)
  | case4 start rest hlength found hclosed ih =>
    -- The expression and its closing brace come before what the look has left.
    have hsplit : '$' :: '\x7b' :: rest = ('$' :: '\x7b' :: (found.content ++ ['\x7d'])) ++ found.rest := by
      have happend := append_expressionEnd 1 none rest
      rw [if_pos hclosed] at happend
      rw [List.cons_append, List.cons_append, List.append_assoc, happend]
    have hnext : start + byteSize ('$' :: '\x7b' :: (found.content ++ ['\x7d'])) = start + byteSize found.content + 3 := by
      rw [byteSize_closed, Nat.add_assoc]
    rw [hsplit] at h ⊢
    have hbehind := h.right
    rw [hnext] at hbehind
    exact .pass hnext (segmentAt_located h.left) (Nat.le_refl _) (Nat.le_of_eq (Nat.add_assoc _ _ _).symm) (ih hbehind)
  | case5 start rest hlength found hclosed ih =>
    have hsplit : '$' :: '\x7b' :: rest = ('$' :: '\x7b' :: found.content) ++ found.rest := by
      have happend := append_expressionEnd 1 none rest
      rw [if_neg hclosed, List.nil_append] at happend
      rw [List.cons_append, List.cons_append, happend]
    have hnext : start + byteSize ('$' :: '\x7b' :: found.content) = start + byteSize found.content + 2 := by
      rw [byteSize_opened, Nat.add_assoc]
    have hvisible := Text.byteSize_stripReturn_le found.content
    rw [hsplit] at h ⊢
    have hbehind := h.right
    rw [hnext] at hbehind
    refine .pass hnext (unterminatedSpan_fits h.left) (Nat.le_refl _) ?_ (ih hbehind)
    simp only [Token.span, unterminatedSpan, Span.ofSize_stop]
    omega
  | case6 start rest name after hbracket hlength tail hname ih =>
    have hnext : start + byteSize ('[' :: (name ++ [']'])) = start + byteSize name + 2 := by
      rw [byteSize_bracketed, Nat.add_assoc]
    rw [append_splitBracket? hbracket] at h ⊢
    have hbehind := h.right
    rw [hnext] at hbehind
    have hnameStands : Stands cs (start + 1) name := h.left.tail.left
    refine .pass hnext ⟨⟨?_, ?_⟩, h.left.tail.right⟩ (Nat.le_add_right _ _) ?_ (ih hbehind)
    · rw [String.toList_ofList]
      exact Span.holds_ofSize hnameStands
    · rw [String.toList_ofList]
      exact (Bool.and_eq_true_iff.1 hname).1
    · show start + 1 + byteSize name ≤ start + byteSize name + 2
      omega
  | case7 start rest name after hbracket hlength tail hname ih =>
    have hnext : start + byteSize ('[' :: (name ++ [']'])) = start + byteSize name + 2 := by
      rw [byteSize_bracketed, Nat.add_assoc]
    rw [append_splitBracket? hbracket] at h ⊢
    have hbehind := h.right
    rw [hnext] at hbehind
    exact .skip hnext (ih hbehind)
  | case8 start rest hbracket ih =>
    show TokensPlaced cs start (start + byteSize (['['] ++ rest)) _
    exact .skip rfl (ih h.tail)
  | case9 start c rest _ _ _ _ ih =>
    show TokensPlaced cs start (start + byteSize ([c] ++ rest)) _
    exact .skip rfl (ih h.tail)

end LgLang.Syntax
