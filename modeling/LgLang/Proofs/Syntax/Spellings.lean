import LgLang.Proofs.Syntax.Bodies
import Mathlib.Tactic.SplitIfs

/-!
# Spellings of keywords

A bullet opens a branch when it begins with the letters of a keyword, blanks and a colon (`Keyword.Marked`). Case does not
matter to the letters, by simple case folding: each stands for its two ASCII forms, and S for the long s too
(`foldsTo_iff`). At most one keyword begins a bullet (`Marked.unique`), so that the order in which the spellings are tried
does not matter either.

But the keyword is told by the ASCII upper case of its letters, and the long s has none. A keyword with a long s is taken
for DEFAULT (`detect?_eq_some_iff`, `ofLetters_eq`). So keywords are told as they are spelled exactly in bullets that
begin with no such spelling (`toldAsSpelled_iff`).
-/

namespace LgLang.Syntax.Keyword

open Text (byteSize isBlank)

/-! ## Case -/

/-- The simple case folding of the characters that fold to ASCII letters: these letters, the long s and the sign for
kelvin. -/
def foldCase (c : Char) : Char :=
  if c = '\u017f' then 's' else if c = '\u212a' then 'k' else c.toLower

variable {c l : Char} {k k' : Keyword} {size : Nat} {content word blanks after rest : List Char}

theorem toNat_toLower (c : Char) :
    c.toLower.toNat = if 65 ≤ c.toNat ∧ c.toNat ≤ 90 then c.toNat + 32 else c.toNat := by
  unfold Char.toLower
  split
  · next h =>
    have hupper : 65 ≤ c.toNat ∧ c.toNat ≤ 90 := h
    rw [if_pos hupper]
    show (c.val + 32).toNat = c.val.toNat + 32
    have hle : c.val.toNat ≤ 90 := hupper.2
    rw [UInt32.toNat_add]
    exact Nat.mod_eq_of_lt (by simp; omega)
  · next h => exact (if_neg h).symm

theorem toNat_toUpper (c : Char) :
    c.toUpper.toNat = if 97 ≤ c.toNat ∧ c.toNat ≤ 122 then c.toNat - 32 else c.toNat := by
  unfold Char.toUpper
  split
  · next h =>
    have hlower : 97 ≤ c.toNat ∧ c.toNat ≤ 122 := h
    rw [if_pos hlower]
    -- Taking 32 away is adding its complement.
    show (c.val + 4294967264).toNat = c.val.toNat - 32
    have hge : 97 ≤ c.val.toNat := hlower.1
    have hle : c.val.toNat ≤ 122 := hlower.2
    rw [UInt32.toNat_add]
    simp
    omega
  · next h => exact (if_neg h).symm

/-- A character is read as an upper-case letter exactly when the two fold to the same one. -/
theorem foldsTo_iff (h : l.isUpper = true) : foldsTo l c = true ↔ foldCase c = foldCase l := by
  have hl : 65 ≤ l.toNat ∧ l.toNat ≤ 90 := of_decide_eq_true h
  have hlong : ('\u017f' : Char).toNat = 383 := rfl
  have hkelvin : ('\u212a' : Char).toNat = 8490 := rfl
  unfold foldsTo foldCase
  simp only [Bool.or_eq_true, Bool.and_eq_true, beq_iff_eq, ← Char.toNat_inj, apply_ite Char.toNat, toNat_toUpper,
    toNat_toLower, hlong, hkelvin, Char.reduceToNat]
  split_ifs <;> omega

/-- Folding does not change the upper case of a character that has one in ASCII. -/
theorem toUpper_foldCase (hlong : c ≠ '\u017f') (hkelvin : c ≠ '\u212a') : (foldCase c).toUpper = c.toUpper := by
  rw [foldCase, if_neg hlong, if_neg hkelvin, ← Char.toNat_inj]
  simp only [toNat_toUpper, toNat_toLower]
  split_ifs <;> omega

/-! ## Letters -/

/-- The word has the letters of the keyword, in any case. -/
def Spells (word : List Char) (k : Keyword) : Prop :=
  word.map foldCase = k.label.toList.map foldCase

theorem isUpper_of_mem_label (k : Keyword) : ∀ l ∈ k.label.toList, l.isUpper = true := by
  have hall : k.label.toList.all Char.isUpper = true := by cases k <;> decide
  exact List.all_eq_true.1 hall

theorem Spells.mem_label (h : Spells word k) (hc : c ∈ word) : foldCase c ∈ k.label.toList.map foldCase :=
  h ▸ List.mem_map_of_mem hc

/-- No two keywords have the same letters. -/
theorem Spells.unique (h : Spells word k) (h' : Spells word k') : k = k' := by
  have hlabels : k.label.toList.map foldCase = k'.label.toList.map foldCase := h.symm.trans h'
  revert hlabels
  cases k <;> cases k' <;> decide

/-- No letter is a blank or a colon. -/
theorem Spells.letter (h : Spells word k) (hc : c ∈ word) : isBlank c = false ∧ c ≠ ':' := by
  have hall : (k.label.toList.map foldCase).all (fun d => decide (97 ≤ d.toNat ∧ d.toNat ≤ 122)) = true := by
    cases k <;> decide
  have hlower : ∀ d ∈ k.label.toList.map foldCase, 97 ≤ d.toNat ∧ d.toNat ≤ 122 :=
    fun d hd => of_decide_eq_true (List.all_eq_true.1 hall d hd)
  have hfold := hlower _ (h.mem_label hc)
  unfold foldCase at hfold
  split at hfold
  · next hlong =>
    subst hlong
    decide
  split at hfold
  · next hkelvin =>
    subst hkelvin
    decide
  rw [toNat_toLower] at hfold
  have hcolon : (':' : Char).toNat = 58 := rfl
  rw [Ne, ← Char.toNat_inj, hcolon]
  simp only [isBlank, Bool.or_eq_false_iff, Bool.and_eq_false_iff, decide_eq_false_iff_not, beq_eq_false_iff_ne]
  split at hfold <;> omega

/-! ## Markers -/

/-- The text begins with a spelling of the keyword, blanks and a colon. -/
structure Marked (content : List Char) (k : Keyword) (word blanks after : List Char) : Prop where
  split : content = word ++ blanks ++ ':' :: after
  spells : Spells word k
  blank : ∀ b ∈ blanks, isBlank b = true

namespace Marked

variable {word' blanks' after' : List Char}

theorem takeWhile_word (h : Marked content k word blanks after) :
    content.takeWhile (fun c => !isBlank c && c != ':') = word := by
  have hword : ∀ c ∈ word, (!isBlank c && c != ':') = true := by
    intro c hc
    obtain ⟨hblank, hcolon⟩ := h.spells.letter hc
    simp [hblank, hcolon]
  rw [h.split, List.append_assoc, List.takeWhile_append_of_pos hword]
  -- A blank or the colon comes next.
  cases blanks with
  | nil => simp
  | cons b blanks => simp [h.blank b List.mem_cons_self]

/-- A text begins with one keyword at most. -/
theorem unique (h : Marked content k word blanks after) (h' : Marked content k' word' blanks' after') :
    k = k' ∧ word = word' ∧ blanks = blanks' ∧ after = after' := by
  obtain rfl : word = word' := h.takeWhile_word.symm.trans h'.takeWhile_word
  have hbehind : blanks ++ ':' :: after = blanks' ++ ':' :: after' := by
    have hsplit := h.split.symm.trans h'.split
    rwa [List.append_assoc, List.append_assoc, List.append_cancel_left_eq] at hsplit
  have hcolon : isBlank ':' = false := rfl
  have htake : blanks = blanks' := by
    have htake := congrArg (List.takeWhile isBlank) hbehind
    rwa [List.takeWhile_append_of_pos h.blank, List.takeWhile_append_of_pos h'.blank,
      List.takeWhile_cons_of_neg (by simp [hcolon]), List.takeWhile_cons_of_neg (by simp [hcolon]), List.append_nil,
      List.append_nil] at htake
  subst htake
  obtain ⟨-, hafter⟩ := List.cons.inj (List.append_cancel_left hbehind)
  exact ⟨h.spells.unique h'.spells, rfl, rfl, hafter⟩

end Marked

/-- The letters of a spelling are split off exactly where the text begins with them, in any case. -/
theorem splitSpelling?_eq_some_iff {ls cs : List Char} (hls : ∀ l ∈ ls, l.isUpper = true) :
    splitSpelling? ls cs = some (word, rest) ↔ cs = word ++ rest ∧ word.map foldCase = ls.map foldCase := by
  induction ls generalizing cs word with
  | nil =>
    constructor
    · intro h
      obtain ⟨rfl, rfl⟩ := Prod.mk.inj (Option.some.inj h)
      exact ⟨rfl, rfl⟩
    · rintro ⟨rfl, hword⟩
      obtain rfl := List.map_eq_nil_iff.1 hword
      rfl
  | cons l ls ih =>
    obtain ⟨hl, hls⟩ := List.forall_mem_cons.1 hls
    cases cs with
    | nil =>
      constructor
      · intro h
        cases h
      · rintro ⟨hnil, hword⟩
        obtain ⟨rfl, -⟩ := List.append_eq_nil_iff.1 hnil.symm
        cases hword
    | cons c cs =>
      constructor
      · intro h
        rw [splitSpelling?] at h
        split at h
        · next hfolds =>
          obtain ⟨⟨word', rest'⟩, hsplit, heq⟩ := Option.map_eq_some_iff.1 h
          obtain ⟨rfl, rfl⟩ := Prod.mk.inj heq
          obtain ⟨rfl, hword⟩ := (ih hls).1 hsplit
          refine ⟨rfl, ?_⟩
          rw [List.map_cons, List.map_cons, hword, (foldsTo_iff hl).1 hfolds]
        · cases h
      · rintro ⟨hcs, hword⟩
        cases word with
        | nil => cases hword
        | cons d word =>
          obtain ⟨rfl, hbehind⟩ : c = d ∧ cs = word ++ rest := List.cons.inj hcs
          obtain ⟨hc, hletters⟩ := List.cons.inj hword
          rw [splitSpelling?, if_pos ((foldsTo_iff hl).2 hc), (ih hls).2 ⟨hbehind, hletters⟩]
          rfl

theorem splitMarker?_eq_some_iff :
    splitMarker? k.label.toList content = some (word, blanks, after) ↔ Marked content k word blanks after := by
  constructor
  · intro h
    have hsplit := append_splitMarker? h
    unfold splitMarker? at h
    split at h
    · cases h
    · next word' rest hspelling =>
      split at h
      · obtain ⟨rfl, hrest⟩ := Prod.mk.inj (Option.some.inj h)
        obtain ⟨rfl, -⟩ := Prod.mk.inj hrest
        refine ⟨?_, ((splitSpelling?_eq_some_iff (isUpper_of_mem_label k)).1 hspelling).2, ?_⟩
        · simpa using hsplit
        · intro b hb
          exact List.mem_takeWhile_imp hb
      · cases h
  · rintro ⟨rfl, hspells, hblank⟩
    have hspelling : splitSpelling? k.label.toList (word ++ blanks ++ ':' :: after) = some (word, blanks ++ ':' :: after) :=
      (splitSpelling?_eq_some_iff (isUpper_of_mem_label k)).2 ⟨List.append_assoc _ _ _, hspells⟩
    have hcolon : ¬isBlank ':' = true := by decide
    have hdrop : (blanks ++ ':' :: after).dropWhile isBlank = ':' :: after := by
      rw [List.dropWhile_append_of_pos hblank, List.dropWhile_cons_of_neg hcolon]
    have htake : (blanks ++ ':' :: after).takeWhile isBlank = blanks := by
      rw [List.takeWhile_append_of_pos hblank, List.takeWhile_cons_of_neg hcolon, List.append_nil]
    simp only [splitMarker?, hspelling, hdrop, htake]

theorem mem_spellings_iff {spelling : List Char} : spelling ∈ spellings ↔ ∃ k : Keyword, k.label.toList = spelling := by
  constructor
  · intro h
    have hall : ∀ spelling ∈ spellings, ∃ k ∈ [when, elseWhen, otherwise, switch, case, fallback],
        k.label.toList = spelling := by
      decide
    obtain ⟨k, -, hk⟩ := hall spelling h
    exact ⟨k, hk⟩
  · rintro ⟨k, rfl⟩
    cases k <;> decide

/-- In whatever order the spellings are tried, the keyword that begins the text is found. -/
theorem findSome?_spellings_iff :
    spellings.findSome? (splitMarker? · content) = some (word, blanks, after) ↔
      ∃ k, Marked content k word blanks after := by
  constructor
  · intro h
    obtain ⟨spelling, hspelling, hsplit⟩ := List.exists_of_findSome?_eq_some h
    obtain ⟨k, rfl⟩ := mem_spellings_iff.1 hspelling
    exact ⟨k, splitMarker?_eq_some_iff.1 hsplit⟩
  · rintro ⟨k, hmarked⟩
    have hsome : (spellings.findSome? (splitMarker? · content)).isSome = true := by
      rw [List.findSome?_isSome_iff]
      exact ⟨_, mem_spellings_iff.2 ⟨k, rfl⟩, by rw [splitMarker?_eq_some_iff.2 hmarked]; rfl⟩
    obtain ⟨⟨word', blanks', after'⟩, hfound⟩ := Option.isSome_iff_exists.1 hsome
    obtain ⟨spelling, hspelling, hsplit⟩ := List.exists_of_findSome?_eq_some hfound
    obtain ⟨k', rfl⟩ := mem_spellings_iff.1 hspelling
    obtain ⟨-, rfl, rfl, rfl⟩ := hmarked.unique (splitMarker?_eq_some_iff.1 hsplit)
    exact hfound

/-! ## What keywords are told -/

/-- A keyword is told by its letters, unless there is a long s among them. -/
theorem ofLetters_eq (h : Spells word k) : ofLetters word = if 'ſ' ∈ word then fallback else k := by
  split
  · next hlong =>
    have hmem : 'ſ' ∈ (String.ofList (word.map Char.toUpper)).toList := by
      rw [String.toList_ofList]
      exact List.mem_map.2 ⟨_, hlong, by decide⟩
    unfold ofLetters
    split
    case h_6 => rfl
    all_goals
      next heq =>
        rw [heq] at hmem
        exact absurd hmem (by decide)
  · next hlong =>
    have hkelvin : 'K' ∉ word := by
      intro hmem
      have hletter := h.mem_label hmem
      revert hletter
      cases k <;> decide
    have hupper : word.map Char.toUpper = k.label.toList := by
      calc
        word.map Char.toUpper = (word.map foldCase).map Char.toUpper := by
          rw [List.map_map]
          apply List.map_congr_left
          intro c hc
          refine (toUpper_foldCase ?_ ?_).symm
          · rintro rfl
            exact hlong hc
          · rintro rfl
            exact hkelvin hc
        _ = (k.label.toList.map foldCase).map Char.toUpper := by rw [h]
        _ = k.label.toList := by cases k <;> decide
    unfold ofLetters
    rw [hupper, String.ofList_toList]
    cases k <;> rfl

theorem detect?_eq_some_iff :
    detect? content = some (k, size, rest) ↔
      ∃ k' word blanks, Marked content k' word blanks rest ∧ size = byteSize word + byteSize blanks + 1 ∧
        k = if 'ſ' ∈ word then fallback else k' := by
  constructor
  · intro h
    obtain ⟨⟨word, blanks, after⟩, hfound, heq⟩ := Option.map_eq_some_iff.1 h
    obtain ⟨rfl, hrest⟩ := Prod.mk.inj heq
    obtain ⟨rfl, rfl⟩ := Prod.mk.inj hrest
    obtain ⟨k', hmarked⟩ := findSome?_spellings_iff.1 hfound
    exact ⟨k', word, blanks, hmarked, rfl, ofLetters_eq hmarked.spells⟩
  · rintro ⟨k', word, blanks, hmarked, rfl, rfl⟩
    rw [← ofLetters_eq hmarked.spells, detect?, findSome?_spellings_iff.2 ⟨k', hmarked⟩]
    rfl

/-- The keyword and the bytes up to its colon are told exactly when the text begins with a spelling of this very keyword. -/
def ToldAsSpelled (content : List Char) : Prop :=
  ∀ k size, (∃ rest, detect? content = some (k, size, rest)) ↔
    ∃ word blanks after, Marked content k word blanks after ∧ size = byteSize word + byteSize blanks + 1

/-- **A keyword is told exactly when a text begins with a spelling of one, which it is unless there is a long s in the
spelling, and otherwise DEFAULT. So keywords are told as they are spelled exactly when the text begins with no spelling that
has a long s.** -/
theorem toldAsSpelled_iff (content : List Char) :
    (∀ k size, (∃ rest, detect? content = some (k, size, rest)) ↔
      ∃ k' word blanks after, Marked content k' word blanks after ∧ size = byteSize word + byteSize blanks + 1 ∧
        k = if 'ſ' ∈ word then fallback else k') ∧
      (ToldAsSpelled content ↔ ∀ k word blanks after, Marked content k word blanks after → 'ſ' ∉ word) := by
  refine ⟨?_, ?_, ?_⟩
  · intro k size
    simp only [detect?_eq_some_iff]
    constructor
    · rintro ⟨rest, k', word, blanks, h⟩
      exact ⟨k', word, blanks, rest, h⟩
    · rintro ⟨k', word, blanks, after, h⟩
      exact ⟨after, k', word, blanks, h⟩
  · intro htold k word blanks after hmarked hlong
    obtain ⟨rest, hdetect⟩ := (htold k _).2 ⟨word, blanks, after, hmarked, rfl⟩
    obtain ⟨k', word', blanks', hmarked', -, hk⟩ := detect?_eq_some_iff.1 hdetect
    obtain ⟨rfl, rfl, -, -⟩ := hmarked.unique hmarked'
    rw [if_pos hlong] at hk
    subst hk
    -- There is no S in DEFAULT.
    exact absurd (hmarked.spells.mem_label hlong) (by decide)
  · intro hshort k size
    constructor
    · rintro ⟨rest, hdetect⟩
      obtain ⟨k', word, blanks, hmarked, hsize, hk⟩ := detect?_eq_some_iff.1 hdetect
      rw [if_neg (hshort k' word blanks rest hmarked)] at hk
      subst hk
      exact ⟨word, blanks, rest, hmarked, hsize⟩
    · rintro ⟨word, blanks, after, hmarked, hsize⟩
      refine ⟨after, detect?_eq_some_iff.2 ⟨k, word, blanks, hmarked, hsize, ?_⟩⟩
      rw [if_neg (hshort k word blanks after hmarked)]

/-- With a long s, ELSE is taken for DEFAULT. -/
theorem not_toldAsSpelled_longS : ¬ToldAsSpelled "ELſE:".toList := by
  intro h
  have hmarked : Marked "ELſE:".toList otherwise "ELſE".toList [] [] :=
    ⟨by decide, by unfold Spells; decide, List.forall_mem_nil _⟩
  obtain ⟨rest, hdetect⟩ := (h otherwise 6).2 ⟨_, _, _, hmarked, by decide⟩
  have hfallback : (detect? "ELſE:".toList).map Prod.fst = some fallback := by decide +kernel
  rw [hdetect] at hfallback
  cases hfallback

end LgLang.Syntax.Keyword
