import LgLang.Editor.Hover
import LgLang.Proofs.Editor.Navigation
import LgLang.Proofs.Syntax.Located
import LgLang.Proofs.Text.Position

/-!
# What the range of a hover is about

A definition, a template or a function is shown for a span that the offset touches, and the built-in engine shows the
name around the offset. Such a name may have digits or dots in front of it, which it then does not begin with. An offset
among these, or before them, is not in the name that is shown (`Expression.StandsBeforeName`), and these are the only
offsets that the range of a hover leaves out (`hoversInPlace_iff`).
-/

namespace LgLang.Expression

open Text (byteSize)

/-! ## The name at an offset -/

variable {before left after e word : List Char} {offset start : Nat} {name : String} {span : Span}

/-- The name in a word that begins at `start`: it goes from the first character that can start a name to the end. -/
def nameIn? (start : Nat) (word : List Char) : Option (String × Span) :=
  let name := word.dropWhile (!isNameStart ·)
  if name.isEmpty then none
  else some (String.ofList name, .ofSize (start + byteSize (word.takeWhile (!isNameStart ·))) (byteSize name))

/-- The name at an offset is the one in the word around it. -/
theorem nameAt?_eq (hbefore : ∀ c ∈ before.getLast?, isNameRest c = false) (hleft : ∀ c ∈ left, isNameRest c = true) :
    nameAt? (before ++ left ++ after) (byteSize (before ++ left)) =
      nameIn? (byteSize before) (left ++ after.takeWhile isNameRest) := by
  have hmin : min (byteSize (before ++ left)) (byteSize (before ++ left ++ after)) = byteSize (before ++ left) := by
    rw [Text.byteSize_append _ after]
    exact Nat.min_eq_left (Nat.le_add_right _ _)
  have hstart : byteSize (before ++ left) - byteSize left.reverse = byteSize before := by
    rw [Text.byteSize_append, Text.byteSize_reverse, Nat.add_sub_cancel]
  simp only [nameAt?, hmin, Text.takeBytes?_byteSize_append, Text.dropBytes?_byteSize_append,
    Text.takeWhile_reverse_append hbefore hleft, List.reverse_reverse, hstart, nameIn?]

theorem nameIn?_append {skipped name : List Char} {c : Char} (hskipped : ∀ d ∈ skipped, isNameStart d = false)
    (hc : isNameStart c = true) : nameIn? start (skipped ++ c :: name) =
      some (String.ofList (c :: name), .ofSize (start + byteSize skipped) (byteSize (c :: name))) := by
  have hpos : ∀ d ∈ skipped, (!isNameStart d) = true := fun d hd => by rw [hskipped d hd]; rfl
  have hneg : ¬(!isNameStart c) = true := by simp [hc]
  have hname : (skipped ++ c :: name).dropWhile (!isNameStart ·) = c :: name := by
    rw [List.dropWhile_append_of_pos hpos]
    exact List.dropWhile_cons_of_neg hneg
  have hfront : (skipped ++ c :: name).takeWhile (!isNameStart ·) = skipped := by
    rw [List.takeWhile_append_of_pos hpos, List.append_right_eq_self]
    exact List.takeWhile_cons_of_neg hneg
  rw [nameIn?, hname, hfront]
  rfl

theorem exists_of_nameIn? (h : nameIn? start word = some (name, span)) : ∃ skipped c rest, word = skipped ++ c :: rest ∧
    (∀ d ∈ skipped, isNameStart d = false) ∧ isNameStart c = true ∧
      span = .ofSize (start + byteSize skipped) (byteSize (c :: rest)) := by
  have hskipped : ∀ d ∈ word.takeWhile (!isNameStart ·), isNameStart d = false := by
    intro d hd
    simpa using List.all_eq_true.1 List.all_takeWhile d hd
  have hstop := List.head?_dropWhile_not (!isNameStart ·) word
  have hword := List.takeWhile_append_dropWhile (p := (!isNameStart ·)) (l := word)
  rw [nameIn?] at h
  cases hname : word.dropWhile (!isNameStart ·) with
  | nil =>
    rw [hname] at h
    cases h
  | cons c rest =>
    rw [hname] at h hstop hword
    obtain ⟨-, rfl⟩ := Prod.mk.inj (Option.some.inj h)
    exact ⟨_, c, rest, hword.symm, hskipped, by simpa using hstop, rfl⟩

/-- Characters that can go on a name, but not start it, stand behind the offset and in front of a name, and before the
offset there are no others of the name. -/
def StandsBeforeName (e : List Char) (offset : Nat) : Prop :=
  ∃ before left skipped c rest, e = before ++ left ++ (skipped ++ c :: rest) ∧ offset = byteSize (before ++ left) ∧
    (∀ d ∈ before.getLast?, isNameRest d = false) ∧
    (∀ d ∈ left ++ skipped, isNameRest d = true ∧ isNameStart d = false) ∧ skipped ≠ [] ∧
    isNameRest c = true ∧ isNameStart c = true

/-- The name at an offset begins behind it if the offset stands before the name. -/
theorem StandsBeforeName.lt_start (h : StandsBeforeName e offset) : ∃ name span, nameAt? e offset = some (name, span) ∧
    offset < span.start ∧ Text.isBoundary e span.start = true := by
  obtain ⟨before, left, skipped, c, rest, rfl, rfl, hbefore, hword, hne, hc, hstart⟩ := h
  have hleft : ∀ d ∈ left, isNameRest d = true := fun d hd => (hword d (List.mem_append_left _ hd)).1
  have hskipped : ∀ d ∈ skipped, isNameRest d = true := fun d hd => (hword d (List.mem_append_right _ hd)).1
  have hname : nameAt? (before ++ left ++ (skipped ++ c :: rest)) (byteSize (before ++ left)) = _ :=
    nameAt?_eq hbefore hleft
  rw [List.takeWhile_append_of_pos hskipped, List.takeWhile_cons_of_pos hc, ← List.append_assoc left,
    nameIn?_append (fun d hd => (hword d hd).2) hstart] at hname
  have hpos : 0 < byteSize skipped := Nat.pos_of_ne_zero fun hzero => hne (Text.byteSize_eq_zero.1 hzero)
  refine ⟨_, _, hname, ?_, Text.isBoundary_iff.2 ⟨before ++ (left ++ skipped), c :: rest, by simp, ?_⟩⟩
  · simp only [Span.ofSize_start, Text.byteSize_append]
    omega
  · simp only [Span.ofSize_start, Text.byteSize_append]

/-- Any other name is around its offset. -/
theorem contains_of_nameAt? (hoffset : Text.isBoundary e offset = true) (h : nameAt? e offset = some (name, span))
    (hnot : ¬StandsBeforeName e offset) : span.contains offset = true := by
  obtain ⟨text, after, rfl, rfl⟩ := Text.isBoundary_iff.1 hoffset
  obtain ⟨before, left, rfl, hbefore, hleft⟩ := Text.exists_word_append isNameRest text
  rw [nameAt?_eq hbefore hleft] at h
  obtain ⟨skipped, c, rest, hword, hskipped, hc, rfl⟩ := exists_of_nameIn? h
  have hsize := congrArg byteSize hword
  rw [Span.contains_iff, Span.ofSize_start, Span.ofSize_stop]
  simp only [Text.byteSize_append] at hsize ⊢
  refine ⟨?_, by omega⟩
  rcases List.append_eq_append_iff.1 hword with ⟨gap, hgap, hright⟩ | ⟨tail, htail, -⟩
  · -- The name begins behind the offset: nothing may stand between them.
    have hgap' : gap = [] := by
      refine Classical.byContradiction fun hne => hnot ?_
      have hall : ∀ d ∈ after.takeWhile isNameRest, isNameRest d = true := List.all_eq_true.1 List.all_takeWhile
      have hafter := List.takeWhile_append_dropWhile (p := isNameRest) (l := after)
      rw [hright] at hall hafter
      refine ⟨before, left, gap, c, rest ++ after.dropWhile isNameRest, ?_, rfl, hbefore, fun d hd => ?_, hne, ?_, hc⟩
      · conv_lhs => rw [← hafter]
        simp
      · refine ⟨?_, hskipped d (hgap ▸ hd)⟩
        rcases List.mem_append.1 hd with hd | hd
        · exact hleft d hd
        · exact hall d (List.mem_append_left _ hd)
      · exact hall c (List.mem_append_right _ List.mem_cons_self)
    rw [hgap, hgap', List.append_nil]
  · rw [htail, Text.byteSize_append]
    omega

end LgLang.Expression

namespace LgLang.Editor

open Analyzer (builtinContext)
open Text (AtMost position)

/-! ## Ranges -/

/-- The position is in the range or at one of its ends. -/
def Range.Has (r : Range) (p : Position) : Prop :=
  AtMost r.start p ∧ AtMost p r.stop

theorem Range.has_ofSpan {text : String} {s : Span} {offset : Nat} (h : s.contains offset = true) :
    (Range.ofSpan text s).Has (position text.toList offset) := by
  obtain ⟨hstart, hstop⟩ := Span.contains_iff.1 h
  exact ⟨Text.position_mono hstart, Text.position_mono hstop⟩

/-- A range that begins behind an offset does not have its position. -/
theorem Range.not_has_ofSpan {text : String} {s : Span} {offset : Nat}
    (hoffset : Text.isBoundary text.toList offset = true) (hstart : Text.isBoundary text.toList s.start = true)
    (hlt : offset < s.start) : ¬(Range.ofSpan text s).Has (position text.toList offset) :=
  fun hhas => Text.not_atMost_position hoffset hstart hlt hhas.1

/-! ## Hovers -/

section Lookups

variable {a : Analysis} {functions : Registry} {offset : Nat} {span : Span} {segment : Syntax.Segment}

/-- A template is shown for a name that the offset touches. -/
theorem contains_of_nameSpanAt? (h : nameSpanAt? a offset = some span) : span.contains offset = true := by
  rw [nameSpanAt?] at h
  split at h
  · next symbol hdefined =>
    obtain rfl := Option.some.inj h
    have hfound := List.find?_some hdefined
    exact (Bool.and_eq_true_iff.1 hfound).2
  · obtain ⟨r, hr, rfl⟩ := Option.map_eq_some_iff.1 h
    have hfound := List.find?_some hr
    exact (Bool.and_eq_true_iff.1 hfound).2

/-- A function is shown for a call whose name the offset touches. -/
theorem contains_of_functionAt? {f : Function} (h : functionAt? a functions offset = some (f, span)) :
    span.contains offset = true := by
  rw [functionAt?] at h
  split at h
  · next r hr =>
    split at h
    · obtain ⟨f', -, hpair⟩ := Option.map_eq_some_iff.1 h
      obtain ⟨-, rfl⟩ := Prod.mk.inj hpair
      have hfound := List.find?_some hr
      exact (Bool.and_eq_true_iff.1 hfound).2
    · cases h
  · cases h

theorem segmentAt?_located {text : String} (h : (Syntax.parse text).file.segmentAt? offset = some segment) :
    segment.Located text.toList := by
  obtain ⟨t, ht, hsegment⟩ := List.mem_flatMap.1 (List.mem_of_find?_eq_some h)
  exact (((Syntax.parse_placed text).templates t (List.mem_filter.1 ht).1).segments segment hsegment).1

end Lookups

/-- The offset is in an expression, but on no template or function, and stands before a name that is shown for it. -/
def ShowsNext (a : Analysis) (functions : Registry) (offset : Nat) : Prop :=
  a.symbolAt? offset = none ∧ functionAt? a functions offset = none ∧
    ∃ segment, a.file.segmentAt? offset = some segment ∧ segment.contentSpan.contains offset = true ∧
      Expression.StandsBeforeName segment.expression.toList (offset - segment.contentSpan.start)

/-- The range of what is shown at an offset has the position of the offset. -/
def HoversInPlace (a : Analysis) (functions : Registry) (offset : Nat) : Prop :=
  ∀ h r, hoverAt? a functions Expression.builtinEngine offset = some h → h.range = some r →
    r.Has (position a.text.toList offset)

section Expressions

variable {a : Analysis} {offset : Nat} {segment : Syntax.Segment}

/-- An offset in an expression is a place in its text. -/
theorem isBoundary_content (hlocated : segment.Located a.text.toList)
    (hoffset : Text.isBoundary a.text.toList offset = true) (hin : segment.contentSpan.contains offset = true) :
    Text.isBoundary segment.expression.toList (offset - segment.contentSpan.start) = true := by
  obtain ⟨hstands, hstop⟩ := Span.holds_iff.1 hlocated.content
  obtain ⟨hstart, hle⟩ := Span.contains_iff.1 hin
  refine hstands.isBoundary_part ?_ (by omega)
  rwa [Nat.add_sub_cancel' hstart]

/-- What the built-in engine shows is in place where the offset does not stand before its name. -/
theorem has_of_expressionHoverAt? {shown : Hover} {r : Range}
    (hlocated : ∀ segment, a.file.segmentAt? offset = some segment → segment.Located a.text.toList)
    (hoffset : Text.isBoundary a.text.toList offset = true)
    (h : expressionHoverAt? a Expression.builtinEngine offset = some shown) (hr : shown.range = some r)
    (hnot : ∀ segment, a.file.segmentAt? offset = some segment → segment.contentSpan.contains offset = true →
      ¬Expression.StandsBeforeName segment.expression.toList (offset - segment.contentSpan.start)) :
    r.Has (position a.text.toList offset) := by
  unfold expressionHoverAt? at h
  split at h
  · cases h
  · next segment hsegment =>
    split at h
    · next hin =>
      obtain ⟨inner, hinner, rfl⟩ := Option.map_eq_some_iff.1 h
      obtain ⟨⟨name, span⟩, hname, rfl⟩ := Option.map_eq_some_iff.1 hinner
      obtain rfl := Option.some.inj hr
      have hboundary := isBoundary_content (hlocated segment hsegment) hoffset hin
      have hcontains := Expression.contains_of_nameAt? hboundary hname (hnot segment hsegment hin)
      refine Range.has_ofSpan (Span.contains_iff.2 ?_)
      obtain ⟨hstart, hstop⟩ := Span.contains_iff.1 hcontains
      have hbase := (Span.contains_iff.1 hin).1
      rw [Span.shift_start, Span.shift_stop]
      omega
    · cases h

/-- Before a name the built-in engine shows the name, whose range begins behind the offset. -/
theorem ShowsNext.not_has {functions : Registry}
    (hlocated : ∀ segment, a.file.segmentAt? offset = some segment → segment.Located a.text.toList)
    (hoffset : Text.isBoundary a.text.toList offset = true) (h : ShowsNext a functions offset) :
    ∃ shown r, hoverAt? a functions Expression.builtinEngine offset = some shown ∧ shown.range = some r ∧
      ¬r.Has (position a.text.toList offset) := by
  obtain ⟨hsymbol, hfunction, segment, hsegment, hin, hbefore⟩ := h
  obtain ⟨name, span, hname, hlt, hstart⟩ := hbefore.lt_start
  have hstands := (Span.holds_iff.1 (hlocated segment hsegment).content).1
  have hshown : Expression.builtinEngine.hover segment.expression (offset - segment.contentSpan.start) =
      some ⟨"\x60" ++ name ++ "\x60", some span⟩ := by
    show (Expression.nameAt? _ _).map _ = _
    rw [hname]
    rfl
  refine ⟨⟨"\x60" ++ name ++ "\x60", some (.ofSpan a.text (span.shift segment.contentSpan.start))⟩, _, ?_, rfl, ?_⟩
  · rw [hoverAt?, hsymbol, hfunction]
    simp only [expressionHoverAt?, hsegment, hin, if_true, hshown, Option.map_some]
  · refine Range.not_has_ofSpan hoffset (hstands.part_isBoundary hstart) ?_
    have hbase := (Span.contains_iff.1 hin).1
    rw [Span.shift_start]
    omega

end Expressions

variable (sources : Sources) (known functions : Registry) (uri : Uri) (text : String) {offset : Nat}

/-- **Hovers are in place exactly where no name is shown that the offset stands before.** -/
theorem hoversInPlace_iff (hoffset : Text.isBoundary text.toList offset = true) :
    HoversInPlace (analyzeDocument (builtinContext sources known) uri text) functions offset ↔
      ¬ShowsNext (analyzeDocument (builtinContext sources known) uri text) functions offset := by
  have htext : (analyzeDocument (builtinContext sources known) uri text).text = text := rfl
  have hfile : (analyzeDocument (builtinContext sources known) uri text).file = (Syntax.parse text).file := rfl
  generalize analyzeDocument (builtinContext sources known) uri text = a at htext hfile ⊢
  subst htext
  have hlocated : ∀ segment, a.file.segmentAt? offset = some segment → segment.Located a.text.toList := by
    rw [hfile]
    exact fun segment => segmentAt?_located
  constructor
  · intro hplace hnext
    obtain ⟨shown, r, hshown, hr, hnot⟩ := hnext.not_has hlocated hoffset
    exact hnot (hplace shown r hshown hr)
  · intro hnext shown r hshown hr
    unfold hoverAt? at hshown
    split at hshown
    · -- A template is shown.
      obtain rfl := Option.some.inj hshown
      obtain ⟨span, hspan, rfl⟩ := Option.map_eq_some_iff.1 hr
      exact Range.has_ofSpan (contains_of_nameSpanAt? hspan)
    · next hsymbol =>
      split at hshown
      · next f span hfunction =>
        obtain rfl := Option.some.inj hshown
        obtain rfl := Option.some.inj hr
        exact Range.has_ofSpan (contains_of_functionAt? hfunction)
      · next hfunction =>
        refine has_of_expressionHoverAt? hlocated hoffset hshown hr fun segment hsegment hin hbefore => hnext ?_
        exact ⟨hsymbol, hfunction, segment, hsegment, hin, hbefore⟩

/-- A document in which a digit stands in front of a name. -/
def digitBeforeName : Analysis :=
  analyzeDocument (builtinContext greetings .builtin) ⟨"file:///project/main.lg"⟩ "# T\n- $\x7b1a\x7d"

/-- Between the digit and the name, the name is shown in place. -/
theorem hoversInPlace_iff_behindDigit :
    Text.isBoundary "# T\n- $\x7b1a\x7d".toList 9 = true ∧
      hoverAt? digitBeforeName .builtin Expression.builtinEngine 9 = some ⟨"\x60a\x60", some ⟨⟨1, 5⟩, ⟨1, 6⟩⟩⟩ ∧
      HoversInPlace digitBeforeName .builtin 9 := by
  refine ⟨by decide, by decide +kernel, (hoversInPlace_iff _ _ _ _ _ (by decide)).2 ?_⟩
  rintro ⟨-, -, segment, hsegment, -, hbefore⟩
  have hfound : digitBeforeName.file.segmentAt? 9 = some ⟨"1a", .ofSize 6 5, .ofSize 8 2⟩ := by
    decide +kernel
  obtain rfl := Option.some.inj (hfound.symm.trans hsegment)
  obtain ⟨name, span, hshown, hlt, -⟩ := hbefore.lt_start
  have hname : Expression.nameAt? "1a".toList 1 = some ("a", .ofSize 1 1) := by
    decide
  obtain ⟨-, rfl⟩ := Prod.mk.inj (Option.some.inj (hname.symm.trans hshown))
  exact absurd hlt (by decide)

/-- In front of the digit, the name is shown that begins behind it. -/
theorem not_hoversInPlace_digitBeforeName :
    Text.isBoundary "# T\n- $\x7b1a\x7d".toList 8 = true ∧ ¬HoversInPlace digitBeforeName .builtin 8 := by
  refine ⟨by decide, fun hplace => ?_⟩
  have hshown : hoverAt? digitBeforeName .builtin Expression.builtinEngine 8 =
      some ⟨"\x60a\x60", some ⟨⟨1, 5⟩, ⟨1, 6⟩⟩⟩ := by
    decide +kernel
  have hposition : position digitBeforeName.text.toList 8 = ⟨1, 4⟩ := by
    decide +kernel
  have hhas := hplace _ _ hshown rfl
  rw [hposition] at hhas
  obtain ⟨hline | ⟨-, hcharacter⟩, -⟩ := hhas
  · exact absurd hline (by decide)
  · exact absurd hcharacter (by decide)

end LgLang.Editor
