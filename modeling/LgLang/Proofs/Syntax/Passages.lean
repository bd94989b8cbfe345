import LgLang.Proofs.Syntax.Bodies
import LgLang.Proofs.Syntax.Scanning
import LgLang.Syntax.Parser

/-!
# The texts of a body

A body is read from bullets or, when it is structured, from the values of its properties. Either is a text with an
offset (`Passage`), and what expressions it holds can be told from the text alone. Of a bullet whose keyword carries an
expression the reader keeps the first one only (`Passage.kept`).
-/

namespace LgLang.Syntax

open Text (Line byteSize)

variable {start size : Nat} {c : Char} {cs rest marker : List Char} {k : Keyword}

/-! ## Text without marks -/

/-- A character that means nothing to a reader of tokens, whatever follows it. -/
structure Ordinary (c : Char) : Prop where
  noEscape : c ≠ '\\'
  noExpression : c ≠ '$'
  noBracket : c ≠ '['

theorem Ordinary.plain (h : Ordinary c) (rest : List Char) : Plain c rest :=
  ⟨h.noEscape, fun hc => absurd hc h.noExpression, fun hc => absurd hc h.noBracket⟩

/-- Nothing is found in ordinary characters. -/
theorem tokensFrom_ordinary (h : ∀ c ∈ marker, Ordinary c) (start : Nat) (rest : List Char) :
    tokensFrom start (marker ++ rest) = tokensFrom (start + byteSize marker) rest := by
  induction marker generalizing start with
  | nil => rfl
  | cons c marker ih =>
    obtain ⟨hc, hmarker⟩ := List.forall_mem_cons.1 h
    rw [List.cons_append, tokensFrom_plain (hc.plain _), ih hmarker, Text.byteSize_cons, Nat.add_assoc]

theorem ordinary_of_isBlank (h : Text.isBlank c = true) : Ordinary c := by
  refine ⟨?_, ?_, ?_⟩ <;>
  · rintro rfl
    exact absurd h (by decide)

theorem tokensFrom_blank (h : Text.allBlank cs = true) (start : Nat) : tokensFrom start cs = [] := by
  have hall : ∀ c ∈ cs, Ordinary c := fun c hc => ordinary_of_isBlank (List.all_eq_true.1 h c hc)
  rw [← List.append_nil cs, tokensFrom_ordinary hall, tokensFrom]

/-! ## Keywords -/

namespace Keyword

variable {letter : Char} {spelling word blanks after : List Char}

/-- A character that is its own upper case stands for itself only, and for the two letters that fold to others. -/
theorem eq_of_foldsTo (h : foldsTo letter c = true) (hupper : c.toUpper = c) (hs : c ≠ '\u017f') (hk : c ≠ '\u212a') :
    c = letter := by
  simpa [foldsTo, hupper, hs, hk] using h

theorem ordinary_of_foldsTo (hletter : Ordinary letter) (h : foldsTo letter c = true) : Ordinary c := by
  refine ⟨?_, ?_, ?_⟩
  · rintro rfl
    exact hletter.noEscape (eq_of_foldsTo h (by decide) (by decide) (by decide)).symm
  · rintro rfl
    exact hletter.noExpression (eq_of_foldsTo h (by decide) (by decide) (by decide)).symm
  · rintro rfl
    exact hletter.noBracket (eq_of_foldsTo h (by decide) (by decide) (by decide)).symm

theorem ordinary_of_splitSpelling? (hspelling : ∀ l ∈ spelling, Ordinary l)
    (h : splitSpelling? spelling cs = some (word, rest)) : ∀ c ∈ word, Ordinary c := by
  fun_induction splitSpelling? spelling cs generalizing word with
  | case1 cs =>
    obtain ⟨rfl, -⟩ := Prod.mk.inj (Option.some.inj h)
    exact List.forall_mem_nil _
  | case2 => cases h
  | case3 l ls c cs hfolds ih =>
    obtain ⟨hl, hls⟩ := List.forall_mem_cons.1 hspelling
    obtain ⟨⟨word', rest'⟩, hsplit, heq⟩ := Option.map_eq_some_iff.1 h
    obtain ⟨rfl, rfl⟩ := Prod.mk.inj heq
    exact List.forall_mem_cons.2 ⟨ordinary_of_foldsTo hl hfolds, ih hls hsplit⟩
  | case4 => cases h

theorem ordinary_of_mem_spellings : ∀ spelling ∈ spellings, ∀ l ∈ spelling, Ordinary l := by
  have hletters : ∀ spelling ∈ spellings, ∀ l ∈ spelling, l ≠ '\\' ∧ l ≠ '$' ∧ l ≠ '[' := by
    simp [spellings]
  intro spelling hspelling l hl
  obtain ⟨hescape, hexpression, hbracket⟩ := hletters spelling hspelling l hl
  exact ⟨hescape, hexpression, hbracket⟩

theorem ordinary_of_splitMarker? (hspelling : ∀ l ∈ spelling, Ordinary l)
    (h : splitMarker? spelling cs = some (word, blanks, after)) : ∀ c ∈ word ++ blanks ++ [':'], Ordinary c := by
  unfold splitMarker? at h
  split at h
  · cases h
  · next word' rest hsplit =>
    split at h
    · obtain ⟨rfl, hrest⟩ := Prod.mk.inj (Option.some.inj h)
      obtain ⟨rfl, rfl⟩ := Prod.mk.inj hrest
      have hblanks : ∀ c ∈ rest.takeWhile Text.isBlank, Ordinary c :=
        fun c hc => ordinary_of_isBlank (List.mem_takeWhile_imp hc)
      have hcolon : Ordinary ':' := ⟨by decide, by decide, by decide⟩
      exact List.forall_mem_append.2 ⟨List.forall_mem_append.2 ⟨ordinary_of_splitSpelling? hspelling hsplit, hblanks⟩,
        List.forall_mem_singleton.2 hcolon⟩
    · cases h

/-- What is found in a bullet is found behind its keyword. -/
theorem tokensFrom_of_detect? (h : detect? cs = some (k, size, rest)) (start : Nat) :
    tokensFrom start cs = tokensFrom (start + size) rest := by
  obtain ⟨⟨word, blanks, after⟩, hfound, heq⟩ := Option.map_eq_some_iff.1 h
  obtain ⟨-, hrest⟩ := Prod.mk.inj heq
  obtain ⟨rfl, rfl⟩ := Prod.mk.inj hrest
  obtain ⟨spelling, hspelling, hsplit⟩ := List.exists_of_findSome?_eq_some hfound
  have hordinary := ordinary_of_splitMarker? (ordinary_of_mem_spellings spelling hspelling) hsplit
  have hsize : byteSize (word ++ blanks ++ [':']) = byteSize word + byteSize blanks + 1 := by
    rw [Text.byteSize_append, Text.byteSize_append]
    rfl
  have hcs : cs = word ++ blanks ++ [':'] ++ after := by
    rw [append_splitMarker? hsplit]
    simp
  rw [hcs, tokensFrom_ordinary hordinary, hsize]

end Keyword

/-! ## Passages -/

/-- What is found wrong with a text is that an expression in it is not closed. -/
theorem textDiagnostics_unterminated {start : Nat} {cs : List Char} :
    ∀ f ∈ textDiagnostics start cs, .unterminated f.span ∈ tokensFrom start cs := by
  intro f hf
  obtain ⟨t, ht, hdiagnostic⟩ := List.mem_filterMap.1 hf
  cases t with
  | segment s => cases hdiagnostic
  | reference r => cases hdiagnostic
  | unterminated span =>
    obtain rfl := Option.some.inj hdiagnostic
    exact ht

/-- The text of a bullet or the value of a property, with the offset at which it begins. -/
structure Passage where
  start : Nat
  text : List Char
  deriving DecidableEq, Repr

namespace Passage

def span (p : Passage) : Span :=
  .ofSize p.start (byteSize p.text)

def tokens (p : Passage) : List Token :=
  tokensFrom p.start p.text

/-- The expressions in the text. -/
def segments (p : Passage) : List Segment :=
  p.tokens.filterMap Token.segment?

/-- Whether the text is that of a bullet whose keyword carries an expression. -/
def takesExpression (p : Passage) : Bool :=
  match Keyword.detect? p.text with
  | some (k, _, _) => k.takesExpression
  | none => false

/-- The expressions that are kept of a bullet: one where a keyword carries it, else all. -/
def kept (p : Passage) : List Segment :=
  if p.takesExpression then p.segments.take 1 else p.segments

variable {p : Passage} {t : Token} {s : Segment}

theorem kept_subset (p : Passage) : ∀ s ∈ p.kept, s ∈ p.segments := by
  unfold kept
  split
  · exact fun s hs => List.mem_of_mem_take hs
  · exact fun s hs => hs

/-- Tokens lie in the text, -/
theorem covers_token (h : t ∈ p.tokens) : p.span.Covers t.span := by
  obtain ⟨whole, hplaced⟩ := exists_tokensPlaced p.start p.text
  exact hplaced.within t h

theorem covers_segment (h : s ∈ p.segments) : p.span.Covers s.span :=
  covers_token (Token.mem_of_mem_segments h)

/-- one behind the other. -/
theorem tokens_pairwise (p : Passage) : p.tokens.Pairwise fun t u => t.span.Before u.span :=
  tokensFrom_pairwise p.start p.text

theorem segments_pairwise (p : Passage) : p.segments.Pairwise fun s s' => s.span.Before s'.span := by
  refine p.tokens_pairwise.filterMap Token.segment? ?_
  intro t u htu s hs s' hs'
  obtain rfl := Token.eq_of_segment? hs
  obtain rfl := Token.eq_of_segment? hs'
  exact htu

/-- A segment is at least as long as its marks. -/
theorem segment_lt (h : s ∈ p.segments) : s.span.start < s.span.stop := by
  obtain ⟨start, rest, -, -, rfl⟩ := exists_reaches_of_segment (Token.mem_of_mem_segments h)
  simp only [segmentAt, Span.ofSize_start, Span.ofSize_stop]
  omega

/-- No segment lies in an expression that is not closed. -/
theorem not_covers_segment {place : Span} (h : .unterminated place ∈ p.tokens) (hs : s ∈ p.segments) :
    ¬ place.Covers s.span := by
  intro hcovers
  have heq := Span.eq_of_covers p.tokens_pairwise h (Token.mem_of_mem_segments hs) hcovers (.refl _) (segment_lt hs)
  cases heq

end Passage

/-- The text of a bullet. -/
def BodyItem.passage? : BodyItem → Option Passage
  | .bullet start text => some ⟨start, text⟩
  | .stray _ => none

/-- The value in a property line. -/
def propertyValue? (l : Line) : Option Passage :=
  (splitProperty? l.content).map fun found => ⟨l.contentStart + found.2.2, found.2.1⟩

/-- Whether body lines are read as a structure: the first that says anything begins with a bracket. -/
def isStructured (ls : List Line) : Bool :=
  match ls.dropWhile isSilent with
  | [] => false
  | first :: _ => first.content.head? == some '['

/-- The bullets among body lines. -/
def bullets (ls : List Line) : List Passage :=
  if isStructured ls then [] else (groupLines ls).filterMap BodyItem.passage?

/-- The property values among body lines. -/
def propertyValues (ls : List Line) : List Passage :=
  if isStructured ls then (ls.dropWhile isSilent).tail.filterMap propertyValue? else []

end LgLang.Syntax
