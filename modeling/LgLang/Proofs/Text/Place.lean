import LgLang.Span
import LgLang.Syntax.Name
import LgLang.Text.Line
import LgLang.Proofs.Text.Position
import Mathlib.Data.List.Chain
import Mathlib.Data.List.TakeWhile

/-!
# Where a text stands in another

Readers cut a text into parts and keep with each part the offset at which it stands (`Stands`). Parts of a part stand
where the sizes of what precedes them say (`Stands.left`, `Stands.right`), and parts that follow one another make up a
longer one (`Stands.append`). A span has exactly the text that stands there (`slice?_eq_some_iff`), so that a reader
which keeps its offsets in step records what the spans hold.

The lines of a text stand in it one below the other (`consecutive_lines`).
-/

namespace LgLang

namespace Text

variable {cs xs ys zs : List Char} {n m : Nat}

/-- The text `xs` stands in `cs` from byte offset `n` on. -/
def Stands (cs : List Char) (n : Nat) (xs : List Char) : Prop :=
  ∃ before after, cs = before ++ xs ++ after ∧ n = byteSize before

namespace Stands

theorem self (cs : List Char) : Stands cs 0 cs :=
  ⟨[], [], by simp, rfl⟩

theorem left (h : Stands cs n (xs ++ ys)) : Stands cs n xs := by
  obtain ⟨before, after, rfl, rfl⟩ := h
  exact ⟨before, ys ++ after, by simp, rfl⟩

theorem right (h : Stands cs n (xs ++ ys)) : Stands cs (n + byteSize xs) ys := by
  obtain ⟨before, after, rfl, rfl⟩ := h
  exact ⟨before ++ xs, after, by simp, by rw [byteSize_append]⟩

/-- The part between two others. -/
theorem middle (h : Stands cs n (xs ++ ys ++ zs)) : Stands cs (n + byteSize xs) ys :=
  h.left.right

theorem tail {c : Char} (h : Stands cs n (c :: xs)) : Stands cs (n + c.utf8Size) xs := by
  have happend : Stands cs n ([c] ++ xs) := h
  simpa using happend.right

/-- Two parts that follow one another are one part. -/
theorem append (hx : Stands cs n xs) (hy : Stands cs (n + byteSize xs) ys) : Stands cs n (xs ++ ys) := by
  obtain ⟨before, after, rfl, rfl⟩ := hx
  obtain ⟨before', after', heq, hsize⟩ := hy
  rw [List.append_assoc before' ys after'] at heq
  rw [← byteSize_append] at hsize
  obtain ⟨-, rfl⟩ := append_inj_of_byteSize heq hsize
  exact ⟨before, after', by simp, rfl⟩

/-- A part of a part. -/
theorem trans (hx : Stands cs n xs) (hy : Stands xs m ys) : Stands cs (n + m) ys := by
  obtain ⟨before, after, rfl, rfl⟩ := hy
  exact hx.middle

theorem isBoundary (h : Stands cs n xs) : Text.isBoundary cs n = true := by
  obtain ⟨before, after, rfl, rfl⟩ := h
  exact isBoundary_iff.2 ⟨before, xs ++ after, by simp, rfl⟩

/-- What stands in a text ends where the text can be cut. -/
theorem stop_isBoundary (h : Stands cs n xs) : Text.isBoundary cs (n + byteSize xs) = true := by
  have hend : Stands cs n (xs ++ []) := by simpa using h
  exact hend.right.isBoundary

/-- Where a part can be cut, the text can be cut. -/
theorem part_isBoundary (h : Stands cs n xs) (hm : Text.isBoundary xs m = true) :
    Text.isBoundary cs (n + m) = true := by
  obtain ⟨before, after, rfl, rfl⟩ := isBoundary_iff.1 hm
  exact h.right.isBoundary

/-- Where the text can be cut within a part, the part can be cut. -/
theorem isBoundary_part (h : Stands cs n xs) (hm : Text.isBoundary cs (n + m) = true) (hle : m ≤ byteSize xs) :
    Text.isBoundary xs m = true := by
  obtain ⟨before, after, rfl, rfl⟩ := h
  obtain ⟨front, back, hcut, hsize⟩ := isBoundary_iff.1 hm
  rw [List.append_assoc] at hcut
  obtain ⟨mid, rfl, hrest⟩ := exists_between_of_byteSize_le hcut (hsize ▸ Nat.le_add_right _ _)
  rw [byteSize_append, Nat.add_left_cancel_iff] at hsize
  subst hsize
  obtain ⟨rest, rfl, -⟩ := exists_between_of_byteSize_le hrest.symm hle
  exact isBoundary_iff.2 ⟨mid, rest, rfl, rfl⟩

theorem le_byteSize (h : Stands cs n xs) : n + byteSize xs ≤ byteSize cs := by
  obtain ⟨before, after, rfl, rfl⟩ := h
  simp only [byteSize_append]
  omega

/-- Two parts that begin at one offset begin with one character. -/
theorem head_eq {c d : Char} (hx : Stands cs n (c :: xs)) (hy : Stands cs n (d :: ys)) : c = d := by
  obtain ⟨before, after, rfl, rfl⟩ := hx
  obtain ⟨before', after', heq, hsize⟩ := hy
  rw [List.append_assoc, List.append_assoc] at heq
  obtain ⟨-, hbehind⟩ := append_inj_of_byteSize heq hsize
  exact (List.cons.inj hbehind).1

end Stands

theorem takeBytes?_eq_some_iff : takeBytes? cs n = some xs ↔ ∃ ys, cs = xs ++ ys ∧ n = byteSize xs := by
  constructor
  · fun_induction takeBytes? cs n generalizing xs with
    | case1 cs =>
      intro h
      obtain rfl := Option.some.inj h
      exact ⟨cs, rfl, rfl⟩
    | case2 n => exact fun h => by cases h
    | case3 c cs n hle ih =>
      intro h
      obtain ⟨rest, hrest, rfl⟩ := Option.map_eq_some_iff.1 h
      obtain ⟨ys, rfl, hn⟩ := ih hrest
      refine ⟨ys, rfl, ?_⟩
      rw [byteSize_cons]
      omega
    | case4 c cs n hle => exact fun h => by cases h
  · rintro ⟨ys, rfl, rfl⟩
    exact takeBytes?_byteSize_append xs ys

end Text

open Text (Stands byteSize)

/-! ## Spans of a text -/

namespace Span

variable {cs xs : List Char} {s t : Span} {n : Nat}

/-- The span lies in the text, and both its ends are character boundaries there. -/
structure Fits (cs : List Char) (s : Span) : Prop where
  start : Text.isBoundary cs s.start = true
  stop : Text.isBoundary cs s.stop = true
  stop_le : s.stop ≤ byteSize cs

/-- The span lies in the text and has exactly those characters of it. -/
structure Holds (cs : List Char) (s : Span) (xs : List Char) : Prop where
  fits : s.Fits cs
  slice : s.slice? cs = some xs

/-- The first span ends before the second begins, or where it begins. -/
def Before (s t : Span) : Prop :=
  s.stop ≤ t.start

/-- The second span lies inside the first. -/
def Covers (s t : Span) : Prop :=
  s.start ≤ t.start ∧ t.stop ≤ s.stop

theorem Covers.refl (s : Span) : s.Covers s :=
  ⟨Nat.le_refl _, Nat.le_refl _⟩

theorem Covers.trans {u : Span} (h : s.Covers t) (h' : t.Covers u) : s.Covers u :=
  ⟨Nat.le_trans h.1 h'.1, Nat.le_trans h'.2 h.2⟩

theorem Covers.contains (h : s.Covers t) (hn : t.contains n = true) : s.contains n = true := by
  obtain ⟨hstart, hstop⟩ := contains_iff.1 hn
  exact contains_iff.2 ⟨Nat.le_trans h.1 hstart, Nat.le_trans hstop h.2⟩

instance (s t : Span) : Decidable (Before s t) :=
  inferInstanceAs (Decidable (_ ≤ _))

instance (s t : Span) : Decidable (Covers s t) :=
  inferInstanceAs (Decidable (_ ∧ _))

/-- **A span has the text that stands there.** -/
theorem slice?_eq_some_iff : s.slice? cs = some xs ↔ Stands cs s.start xs ∧ s.stop = s.start + byteSize xs := by
  have hle := s.start_le_stop
  unfold slice? Text.slice?
  rw [if_pos hle, Option.bind_eq_some_iff]
  constructor
  · rintro ⟨rest, hdrop, htake⟩
    obtain ⟨before, rfl, hstart⟩ := Text.dropBytes?_eq_some_iff.1 hdrop
    obtain ⟨after, rfl, hsize⟩ := Text.takeBytes?_eq_some_iff.1 htake
    exact ⟨⟨before, after, by simp, hstart⟩, by omega⟩
  · rintro ⟨⟨before, after, rfl, hstart⟩, hstop⟩
    refine ⟨xs ++ after, Text.dropBytes?_eq_some_iff.2 ⟨before, by simp, hstart⟩, ?_⟩
    exact Text.takeBytes?_eq_some_iff.2 ⟨after, rfl, by omega⟩

theorem fits_of_boundaries (hstart : Text.isBoundary cs s.start = true) (hstop : Text.isBoundary cs s.stop = true) :
    s.Fits cs := by
  refine ⟨hstart, hstop, ?_⟩
  obtain ⟨xs, ys, rfl, hsize⟩ := Text.isBoundary_iff.1 hstop
  rw [Text.byteSize_append]
  omega

theorem fits_of_slice? (h : s.slice? cs = some xs) : s.Fits cs := by
  obtain ⟨hstands, hstop⟩ := slice?_eq_some_iff.1 h
  exact fits_of_boundaries hstands.isBoundary (hstop ▸ hstands.stop_isBoundary)

theorem holds_iff : s.Holds cs xs ↔ Stands cs s.start xs ∧ s.stop = s.start + byteSize xs := by
  rw [← slice?_eq_some_iff]
  exact ⟨Holds.slice, fun h => ⟨fits_of_slice? h, h⟩⟩

theorem holds_ofSize (h : Stands cs n xs) : (ofSize n (byteSize xs)).Holds cs xs :=
  holds_iff.2 ⟨h, rfl⟩

theorem fits_between {m : Nat} (hn : Text.isBoundary cs n = true) (hm : Text.isBoundary cs m = true) :
    (between n m).Fits cs := by
  refine fits_of_boundaries hn ?_
  rw [between_stop]
  rcases Nat.le_total n m with hle | hle
  · rwa [Nat.max_eq_right hle]
  · rwa [Nat.max_eq_left hle]

/-- A span of a part is a span of the text. -/
theorem Fits.shift (hs : s.Fits xs) (h : Stands cs n xs) : (s.shift n).Fits cs :=
  fits_of_boundaries (h.part_isBoundary hs.start) (h.part_isBoundary hs.stop)

theorem Fits.cover (hs : s.Fits cs) (ht : t.Fits cs) : (s.cover t).Fits cs := by
  unfold Span.cover
  refine fits_between ?_ ?_
  · rcases Nat.le_total s.start t.start with hle | hle
    · rw [Nat.min_eq_left hle]
      exact hs.start
    · rw [Nat.min_eq_right hle]
      exact ht.start
  · rcases Nat.le_total s.stop t.stop with hle | hle
    · rw [Nat.max_eq_right hle]
      exact ht.stop
    · rw [Nat.max_eq_left hle]
      exact hs.stop

/-- Of spans that come one before the other, any two different ones do. -/
theorem before_or_before {α : Type} {place : α → Span} {as : List α} {a b : α}
    (h : as.Pairwise fun a b => (place a).Before (place b)) (ha : a ∈ as) (hb : b ∈ as) (hne : a ≠ b) :
    (place a).Before (place b) ∨ (place b).Before (place a) := by
  have hapart : as.Pairwise fun a b => (place a).Before (place b) ∨ (place b).Before (place a) := h.imp Or.inl
  have hsymm : Std.Symm fun a b => (place a).Before (place b) ∨ (place b).Before (place a) := ⟨fun _ _ hab => hab.symm⟩
  exact hapart.forall ha hb hne

/-- Of spans that come one before the other, at most one covers a span that is not empty. -/
theorem eq_of_covers {α : Type} {place : α → Span} {as : List α} {a b : α}
    (h : as.Pairwise fun a b => (place a).Before (place b)) (ha : a ∈ as) (hb : b ∈ as)
    (hsa : (place a).Covers s) (hsb : (place b).Covers s) (hs : s.start < s.stop) : a = b := by
  obtain ⟨hstart, hstop⟩ := hsa
  obtain ⟨hstart', hstop'⟩ := hsb
  by_contra hne
  rcases before_or_before h ha hb hne with hbefore | hbefore
  · have hle : (place a).stop ≤ (place b).start := hbefore
    omega
  · have hle : (place b).stop ≤ (place a).start := hbefore
    omega

/-! ### Spans that do not touch -/

/-- No offset is on both spans, their ends included. -/
def Apart (s t : Span) : Prop :=
  s.stop < t.start ∨ t.stop < s.start

theorem Apart.symm (h : s.Apart t) : t.Apart s :=
  Or.symm h

theorem Apart.of_covers {u v : Span} (h : u.stop < v.start) (hs : u.Covers s) (ht : v.Covers t) : s.Apart t :=
  Or.inl (Nat.lt_of_le_of_lt hs.2 (Nat.lt_of_lt_of_le h ht.1))

theorem Apart.not_contains (h : s.Apart t) (hs : s.contains n = true) : t.contains n ≠ true := by
  intro ht
  have hs := contains_iff.1 hs
  have ht := contains_iff.1 ht
  unfold Apart at h
  omega

theorem contains_start (s : Span) : s.contains s.start = true :=
  contains_iff.2 ⟨Nat.le_refl _, s.start_le_stop⟩

/-- Of places that do not touch, at most one touches an offset. -/
theorem eq_of_contains {α : Type} {place : α → Span} {as : List α} {a b : α}
    (h : as.Pairwise fun a b => (place a).Apart (place b)) (ha : a ∈ as) (hb : b ∈ as)
    (hna : (place a).contains n = true) (hnb : (place b).contains n = true) : a = b := by
  have hsymm : Std.Symm fun a b => (place a).Apart (place b) := ⟨fun _ _ hab => hab.symm⟩
  by_contra hne
  exact (h.forall ha hb hne).not_contains hna hnb

/-- Places that do not touch are different. -/
theorem eq_of_place_eq {α : Type} {place : α → Span} {as : List α} {a b : α}
    (h : as.Pairwise fun a b => (place a).Apart (place b)) (ha : a ∈ as) (hb : b ∈ as) (heq : place a = place b) :
    a = b :=
  eq_of_contains h ha hb (heq ▸ contains_start (place b)) (contains_start (place b))

theorem length_filter_contains_le_one {ss : List Span} (h : ss.Pairwise Apart) (n : Nat) :
    (ss.filter (·.contains n)).length ≤ 1 := by
  have hfilter := h.filter (·.contains n)
  have hall : ∀ s ∈ ss.filter (·.contains n), s.contains n = true := fun s hs => (List.mem_filter.1 hs).2
  generalize ss.filter (·.contains n) = found at hfilter hall ⊢
  cases found with
  | nil => exact Nat.zero_le 1
  | cons s rest =>
    cases rest with
    | nil => exact Nat.le_refl 1
    | cons t rest =>
      have hapart : s.Apart t := (List.pairwise_cons.1 hfilter).1 t List.mem_cons_self
      exact absurd (hall t (by simp)) (hapart.not_contains (hall s (by simp)))

end Span

namespace Text

variable {cs : List Char} {l m : Line} {ls ms : List Line}

/-! ## Blanks around a content -/

/-- Trimming at the end takes off blanks. -/
theorem exists_trimEnd_append (cs : List Char) : ∃ blanks, cs = trimEnd cs ++ blanks ∧ ∀ c ∈ blanks, isBlank c = true := by
  refine ⟨(cs.reverse.takeWhile isBlank).reverse, ?_, ?_⟩
  · rw [trimEnd, ← List.reverse_append, List.takeWhile_append_dropWhile, List.reverse_reverse]
  · intro c hc
    exact List.mem_takeWhile_imp (List.mem_reverse.1 hc)

/-- Trimming on both sides leaves the part behind the first blanks. -/
theorem exists_trim_append (cs : List Char) :
    ∃ blanks, cs = cs.takeWhile isBlank ++ trim cs ++ blanks ∧ ∀ c ∈ blanks, isBlank c = true := by
  obtain ⟨blanks, hblanks, hall⟩ := exists_trimEnd_append (trimStart cs)
  refine ⟨blanks, ?_, hall⟩
  rw [trim, List.append_assoc, ← hblanks, takeWhile_append_trimStart]

theorem Stands.trimEnd {n : Nat} {xs : List Char} (h : Stands cs n xs) : Stands cs n (trimEnd xs) := by
  obtain ⟨blanks, hsplit, -⟩ := exists_trimEnd_append xs
  rw [hsplit] at h
  exact h.left

theorem Stands.trim {n : Nat} {xs : List Char} (h : Stands cs n xs) :
    Stands cs (n + byteSize (xs.takeWhile isBlank)) (trim xs) := by
  obtain ⟨blanks, hsplit, -⟩ := exists_trim_append xs
  rw [hsplit] at h
  exact h.middle

/-! ## Lines of a text -/

/-- The offset just past all characters of a line, visible or not. -/
def Line.rawStop (l : Line) : Nat :=
  l.start + byteSize l.raw

/-- A line is its first blanks, its content, and blanks. -/
theorem Line.exists_raw_eq (l : Line) :
    ∃ blanks, l.raw = l.text.takeWhile isBlank ++ l.content ++ blanks ∧ ∀ c ∈ blanks, isBlank c = true := by
  obtain ⟨blanks, hsplit, hall⟩ := exists_trim_append l.text
  have hreturn : l.raw = l.text ∨ l.raw = l.text ++ ['\r'] := by
    unfold Line.text stripReturn
    split
    · next hlast => exact Or.inr (List.dropLast_append_getLast? _ hlast).symm
    · exact Or.inl rfl
  rcases hreturn with hraw | hraw
  · exact ⟨blanks, hraw.trans hsplit, hall⟩
  · refine ⟨blanks ++ ['\r'], ?_, ?_⟩
    · calc l.raw = l.text ++ ['\r'] := hraw
        _ = (l.text.takeWhile isBlank ++ l.content ++ blanks) ++ ['\r'] := congrArg (· ++ ['\r']) hsplit
        _ = l.text.takeWhile isBlank ++ l.content ++ (blanks ++ ['\r']) := List.append_assoc _ _ _
    · intro c hc
      rcases List.mem_append.1 hc with hc | hc
      · exact hall c hc
      · rw [List.mem_singleton.1 hc]
        decide

theorem Stands.content (h : Stands cs l.start l.raw) : Stands cs l.contentStart l.content := by
  obtain ⟨blanks, hraw, -⟩ := l.exists_raw_eq
  rw [hraw] at h
  exact h.middle

theorem Line.start_le_contentStart (l : Line) : l.start ≤ l.contentStart :=
  Nat.le_add_right _ _

theorem Line.contentStop_le_rawStop (l : Line) : l.contentStop ≤ l.rawStop := by
  obtain ⟨blanks, hraw, -⟩ := l.exists_raw_eq
  unfold Line.contentStop Line.contentStart Line.rawStop
  rw [hraw]
  simp only [byteSize_append]
  omega

theorem Line.contentStart_le_contentStop (l : Line) : l.contentStart ≤ l.contentStop :=
  Nat.le_add_right _ _

/-- The visible part of a line stands where the line does. -/
theorem Stands.text (h : Stands cs l.start l.raw) : Stands cs l.start l.text := by
  obtain ⟨rest, hraw⟩ := stripReturn_prefix l.raw
  rw [← hraw] at h
  exact h.left

theorem Line.contentStart_le_stop (l : Line) : l.contentStart ≤ l.stop := by
  obtain ⟨rest, htext⟩ := List.takeWhile_prefix (p := isBlank) (l := l.text)
  unfold Line.contentStart Line.stop
  rw [← congrArg byteSize htext, byteSize_append]
  omega

theorem Line.contentStop_le_stop (l : Line) : l.contentStop ≤ l.stop := by
  obtain ⟨blanks, hsplit, -⟩ := exists_trim_append l.text
  have hsize := congrArg byteSize hsplit
  simp only [byteSize_append] at hsize
  show l.start + byteSize (l.text.takeWhile isBlank) + byteSize (trim l.text) ≤ l.start + byteSize l.text
  omega

theorem byteSize_stripReturn_le (cs : List Char) : byteSize (stripReturn cs) ≤ byteSize cs := by
  obtain ⟨rest, hsplit⟩ := stripReturn_prefix cs
  rw [← congrArg byteSize hsplit, byteSize_append]
  exact Nat.le_add_right _ _

theorem Line.stop_le_rawStop (l : Line) : l.stop ≤ l.rawStop :=
  Nat.add_le_add_left (byteSize_stripReturn_le l.raw) l.start

/-- The second line begins in the text right behind the line feed that ends the first. -/
def Line.RightAbove (cs : List Char) (l m : Line) : Prop :=
  Stands cs l.rawStop ['\n'] ∧ m.start = l.rawStop + 1

/-- The lines stand in the text one below the other. -/
structure Consecutive (cs : List Char) (ls : List Line) : Prop where
  stands : ∀ l ∈ ls, Stands cs l.start l.raw
  chain : ls.IsChain (Line.RightAbove cs)

namespace Consecutive

theorem left (h : Consecutive cs (ls ++ ms)) : Consecutive cs ls :=
  ⟨fun l hl => h.stands l (List.mem_append_left ms hl), h.chain.left_of_append⟩

theorem right (h : Consecutive cs (ls ++ ms)) : Consecutive cs ms :=
  ⟨fun l hl => h.stands l (List.mem_append_right ls hl), h.chain.right_of_append⟩

theorem tail (h : Consecutive cs (l :: ls)) : Consecutive cs ls := by
  have happend : Consecutive cs ([l] ++ ls) := h
  exact happend.right

theorem dropWhile (h : Consecutive cs ls) (p : Line → Bool) : Consecutive cs (ls.dropWhile p) := by
  rw [← List.takeWhile_append_dropWhile (p := p) (l := ls)] at h
  exact h.right

theorem head (h : Consecutive cs (l :: ls)) : Stands cs l.start l.raw :=
  h.stands l List.mem_cons_self

theorem rightAbove (h : Consecutive cs (l :: m :: ls)) : l.RightAbove cs m :=
  h.chain.rel

/-- Every line ends before the ones below it begin. -/
theorem pairwise (h : Consecutive cs ls) : ls.Pairwise fun l m => l.rawStop < m.start := by
  have hchain : ls.IsChain fun l m : Line => l.rawStop < m.start := by
    refine h.chain.imp ?_
    intro l m hlm
    have hstart := hlm.2
    omega
  have htrans : Trans (fun l m : Line => l.rawStop < m.start) (fun l m : Line => l.rawStop < m.start)
      (fun l m : Line => l.rawStop < m.start) := by
    refine ⟨?_⟩
    intro a b c hab hbc
    have hb : b.start ≤ b.rawStop := Nat.le_add_right _ _
    omega
  exact hchain.pairwise

theorem rawStop_lt (h : Consecutive cs (l :: ls)) : ∀ m ∈ ls, l.rawStop < m.start :=
  (List.pairwise_cons.1 h.pairwise).1

end Consecutive

theorem consecutive_linesFrom {whole : List Char} {start : Nat} {cs : List Char} (h : Stands whole start cs) :
    Consecutive whole (linesFrom start cs) := by
  fun_induction linesFrom start cs with
  | case1 start cs raw hdrop =>
    refine ⟨fun l hl => ?_, .singleton _⟩
    obtain rfl := List.mem_singleton.1 hl
    rw [← takeWhile_ne_eq_self hdrop] at h
    exact h
  | case2 start cs raw c rest hdrop ih =>
    obtain ⟨rfl, hsplit⟩ := takeWhile_ne_append hdrop
    rw [← hsplit] at h
    have hbelow := ih h.right.tail
    refine ⟨fun l hl => ?_, hbelow.chain.cons fun m hm => ?_⟩
    · rcases List.mem_cons.1 hl with rfl | hl
      · exact h.left
      · exact hbelow.stands l hl
    · have hm' := linesFrom_head (start + byteSize raw + 1) rest
      rw [← List.head?_eq_getElem?] at hm'
      obtain rfl := Option.some.inj (hm'.symm.trans hm)
      have hbehind : Stands whole (start + byteSize raw) (['\n'] ++ rest) := h.right
      exact ⟨hbehind.left, rfl⟩

/-- **The lines of a text stand in it one below the other.** -/
theorem consecutive_lines (cs : List Char) : Consecutive cs (lines cs) :=
  consecutive_linesFrom (Stands.self cs)

end Text

end LgLang
