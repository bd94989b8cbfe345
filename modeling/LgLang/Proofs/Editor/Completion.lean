import LgLang.Editor.Completion
import LgLang.Proofs.Analysis.Symbols
import LgLang.Proofs.Editor.Navigation
import LgLang.Proofs.Sorting
import LgLang.Proofs.Text.Bytes
import Mathlib.Data.List.TakeWhile
import Mathlib.Data.String.Basic

/-!
# Completion lists

Behind a word without dots, or in brackets, the candidates are the visible templates and the functions that begin with
what is typed, each once, and the list has them in the order of their places (`Candidate.place`). The sort texts are the
numbers of the items in four digits. Such numbers are in the order of their texts as long as four digits hold them
(`fourDigits_lt`): a client that sorts by these texts keeps the order exactly for lists of up to ten thousand items
(`completionAt_listed`).
-/

namespace LgLang.Editor

open Analyzer (builtinContext)

/-! ## The order of candidates -/

/-- Where a candidate is listed: by its group, then by its lower-case label, then by its label. -/
def Candidate.place (c : Candidate) : Nat ×ₗ String ×ₗ String :=
  toLex (c.rank.toNat, toLex (Text.lowercase c.label, c.label))

theorem Candidate.precedes_iff {c d : Candidate} : c.precedes d = true ↔ c.place ≤ d.place := by
  rw [precedes, Ordering.then_assoc]
  exact Sorting.isLE_then_iff

/-! ## Numbers in a fixed number of digits -/

/-- The last digits of a number, as many as `width`. -/
def lastDigits : (width : Nat) → Nat → List Char
  | 0, _ => []
  | width + 1, n => lastDigits width (n / 10) ++ [Nat.digitChar (n % 10)]

theorem length_lastDigits (width n : Nat) : (lastDigits width n).length = width := by
  induction width generalizing n with
  | zero => rfl
  | succ width ih => rw [lastDigits, List.length_append, ih, List.length_singleton]

theorem lastDigits_zero (width : Nat) : lastDigits width 0 = List.replicate width '0' := by
  induction width with
  | zero => rfl
  | succ width ih => rw [lastDigits, ih, List.replicate_succ']; rfl

/-- The last digits of a number that has no more are its digits, with zeros in front. -/
theorem lastDigits_eq {width n : Nat} (hwidth : 0 < width) (hn : n < 10 ^ width) :
    lastDigits width n = List.replicate (width - (Nat.toDigits 10 n).length) '0' ++ Nat.toDigits 10 n := by
  induction width generalizing n with
  | zero => exact absurd hwidth (Nat.lt_irrefl 0)
  | succ width ih =>
    rcases Nat.lt_or_ge n 10 with hsmall | hlarge
    · rw [lastDigits, Nat.div_eq_of_lt hsmall, Nat.mod_eq_of_lt hsmall, lastDigits_zero, Nat.toDigits_of_lt_base hsmall]
      rfl
    · have hrest : n / 10 < 10 ^ width := Nat.div_lt_of_lt_mul (by rwa [Nat.pow_succ'] at hn)
      have hwidth : 0 < width := by
        rcases Nat.eq_zero_or_pos width with rfl | hpos
        · omega
        · exact hpos
      rw [lastDigits, ih hwidth hrest, Nat.toDigits_of_base_le (by decide) hlarge, List.length_append,
        List.length_singleton, Nat.add_sub_add_right, List.append_assoc]

theorem digitChar_lt : ∀ {d : Nat}, d < 10 → ∀ {c : Nat}, c < d → Nat.digitChar c < Nat.digitChar d := by
  decide

/-- A character more does not change the order of texts of one length. -/
theorem append_lt_append {cs ds : List Char} (hlength : cs.length = ds.length) (h : cs < ds) (xs ys : List Char) :
    cs ++ xs < ds ++ ys := by
  induction cs generalizing ds with
  | nil =>
    obtain rfl := List.length_eq_zero_iff.1 hlength.symm
    exact absurd h (List.lt_irrefl [])
  | cons c cs ih =>
    cases ds with
    | nil => exact absurd h (List.not_lt_nil _)
    | cons d ds =>
      rw [List.cons_append, List.cons_append, List.cons_lt_cons_iff]
      rcases List.cons_lt_cons_iff.1 h with hlt | ⟨rfl, hlt⟩
      · exact Or.inl hlt
      · exact Or.inr ⟨rfl, ih (Nat.succ.inj hlength) hlt⟩

/-- Numbers are in the order of their digits, as long as these hold them. -/
theorem lastDigits_lt {width m n : Nat} (hmn : m < n) (hn : n < 10 ^ width) :
    lastDigits width m < lastDigits width n := by
  induction width generalizing m n with
  | zero => omega
  | succ width ih =>
    have hrest : n / 10 < 10 ^ width := Nat.div_lt_of_lt_mul (by rwa [Nat.pow_succ'] at hn)
    rw [lastDigits, lastDigits]
    rcases Nat.lt_or_eq_of_le (Nat.div_le_div_right (c := 10) hmn.le) with hlt | heq
    · exact append_lt_append (by rw [length_lastDigits, length_lastDigits]) (ih hlt hrest) _ _
    · have hdigit : m % 10 < n % 10 := by omega
      rw [heq]
      exact List.append_left_lt (List.cons_lt_cons_iff.2 (Or.inl (digitChar_lt (Nat.mod_lt n (by decide)) hdigit)))

theorem fourDigits_eq {n : Nat} (hn : n < 10000) : fourDigits n = String.ofList (lastDigits 4 n) := by
  have hdigits : (toString n).toList = Nat.toDigits 10 n := by
    rw [Nat.toString_eq_repr, Nat.repr_eq_ofList_toDigits, String.toList_ofList]
  rw [fourDigits, hdigits, lastDigits_eq (by decide) hn]

/-- Numbers below ten thousand are in the order of their sort texts. -/
theorem fourDigits_lt {m n : Nat} (hmn : m < n) (hn : n < 10000) : fourDigits m < fourDigits n := by
  rw [fourDigits_eq (hmn.trans hn), fourDigits_eq hn, String.lt_iff_toList_lt, String.toList_ofList,
    String.toList_ofList]
  exact lastDigits_lt hmn hn

/-- The next number is not behind them. -/
theorem fourDigits_tenThousand : ¬fourDigits 9999 < fourDigits 10000 := by
  decide

/-! ## Lists of candidates -/

variable (cs : List Candidate)

theorem map_candidate_ranked : (ranked cs).map (·.candidate) = cs.mergeSort Candidate.precedes := by
  rw [ranked, List.map_map]
  exact List.zipIdx_map_fst 0 _

theorem length_ranked : (ranked cs).length = cs.length := by
  rw [ranked, List.length_map, List.length_zipIdx, List.length_mergeSort]

/-- The items are numbered in their order. -/
theorem map_sortText_ranked : (ranked cs).map (·.sortText) = (List.range cs.length).map fourDigits := by
  have hnumbers : ((cs.mergeSort Candidate.precedes).zipIdx).map Prod.snd = List.range cs.length := by
    rw [List.zipIdx_map_snd, List.length_mergeSort, List.range_eq_range']
  rw [ranked, List.map_map, ← hnumbers, List.map_map]
  rfl

/-- The candidates of a list are in the order of their places. -/
theorem pairwise_place_ranked : (ranked cs).Pairwise fun i j => i.candidate.place ≤ j.candidate.place := by
  have hsorted : (cs.mergeSort Candidate.precedes).Pairwise (·.place ≤ ·.place) :=
    Sorting.pairwise_mergeSort_of_iff Candidate.precedes Candidate.place Candidate.precedes_iff cs
  rwa [← map_candidate_ranked, List.pairwise_map] at hsorted

/-- The sort texts of a list rise exactly if it has at most ten thousand items. -/
theorem pairwise_sortText_ranked : (ranked cs).Pairwise (·.sortText < ·.sortText) ↔ (ranked cs).length ≤ 10000 := by
  have htexts : (ranked cs).Pairwise (·.sortText < ·.sortText) ↔
      (List.range cs.length).Pairwise (fourDigits · < fourDigits ·) := by
    rw [← List.pairwise_map (f := fourDigits), ← map_sortText_ranked, List.pairwise_map]
  rw [htexts, length_ranked]
  constructor
  · intro hrise
    by_contra hmany
    have hlast := List.pairwise_iff_getElem.1 hrise 9999 10000 (by simp; omega) (by simp; omega) (by decide)
    rw [List.getElem_range, List.getElem_range] at hlast
    exact fourDigits_tenThousand hlast
  · intro hfew
    refine List.pairwise_lt_range.imp_of_mem fun {m n} _ hn hmn => fourDigits_lt hmn ?_
    exact (List.mem_range.1 hn).trans_le hfew

/-- Items whose sort texts rise are in this order for everyone who sorts by these texts. -/
theorem eq_of_sorted {items shown : List CompletionItem} (hrise : items.Pairwise (·.sortText < ·.sortText))
    (hperm : shown.Perm items) (hshown : shown.Pairwise (·.sortText ≤ ·.sortText)) : shown = items := by
  have hdistinct : (items.map (·.sortText)).Nodup := List.pairwise_map.2 (hrise.imp fun h => h.ne)
  refine hperm.eq_of_pairwise (fun i j hi hj hij hji => ?_) hshown (hrise.imp fun h => h.le)
  exact List.inj_on_of_nodup_map hdistinct (hperm.mem_iff.1 hi) hj (le_antisymm hij hji)

/-! ## What is typed -/

/-- The text before the cursor ends in what is typed; `functions` tells whether functions count. -/
inductive Typing : Context → List Char → (functions : Bool) → Prop where
  /-- An expression ends in a word without dots. -/
  | word (before typed : List Char) : (∀ c ∈ before.getLast?, isNameChar c = false) →
      (∀ c ∈ typed, isNameChar c = true ∧ c ≠ '.') → Typing (.expression (before ++ typed)) typed true
  /-- A bracket is open. -/
  | bracket (typed : List Char) : Typing (.reference typed) typed false

theorem trailingName_append {before typed : List Char} (hbefore : ∀ c ∈ before.getLast?, isNameChar c = false)
    (htyped : ∀ c ∈ typed, isNameChar c = true) : trailingName (before ++ typed) = typed := by
  rw [trailingName, Text.takeWhile_reverse_append hbefore htyped, List.reverse_reverse]

theorem splitLastDot?_eq_none {word : List Char} (h : '.' ∉ word) : splitLastDot? word = none := by
  have hall : word.reverse.dropWhile (· != '.') = [] := by
    refine List.dropWhile_eq_nil_iff.2 fun c hc => ?_
    exact bne_iff_ne.2 (ne_of_mem_of_not_mem (List.mem_reverse.1 hc) h)
  rw [splitLastDot?, hall]

/-- Whether a name begins with what is typed, without regard to case. -/
def Begins (name : String) (typed : List Char) : Prop :=
  (Text.lowercase (String.ofList typed)).toList <+: (Text.lowercase name).toList

instance (name : String) (typed : List Char) : Decidable (Begins name typed) :=
  inferInstanceAs (Decidable (_ <+: _))

theorem matchesTyped_iff {name : String} {typed : List Char} : matchesTyped name typed = true ↔ Begins name typed :=
  List.isPrefixOf_iff_prefix

/-- The functions that begin with what is typed, if functions count. -/
def functionsBehind (registry : Registry) (typed : List Char) (functions : Bool) : List Function :=
  if functions then registry.functions.filter (Begins ·.name typed) else []

/-- The candidates for what is typed: visible templates, and functions if these count. -/
theorem candidates_of_typing {a : Analysis} {registry : Registry} {before typed : List Char} {functions : Bool}
    (h : Typing (context before) typed functions) : candidates a registry before =
      (a.symbols.visible.filter fun s => Begins s.name typed).map (fun s => .ofSymbol s s.name) ++
        (functionsBehind registry typed functions).map .ofFunction := by
  have htemplates : templateCandidates a typed =
      (a.symbols.visible.filter fun s => Begins s.name typed).map fun s => .ofSymbol s s.name := by
    rw [templateCandidates]
    refine congrArg _ (List.filter_congr fun s _ => ?_)
    rw [Bool.eq_iff_iff, matchesTyped_iff, decide_eq_true_eq]
  have hfunctions : functionCandidates registry typed = (functionsBehind registry typed true).map .ofFunction := by
    rw [functionCandidates, functionsBehind, if_pos rfl]
    refine congrArg _ (List.filter_congr fun f _ => ?_)
    rw [Bool.eq_iff_iff, matchesTyped_iff, decide_eq_true_eq]
  rw [candidates]
  generalize context before = cursor at h
  cases h with
  | word before typed hbefore htyped =>
    have hdot : '.' ∉ typed := fun hmem => (htyped '.' hmem).2 rfl
    have hword : trailingName (before ++ typed) = typed := trailingName_append hbefore fun c hc => (htyped c hc).1
    simp only [hword, splitLastDot?_eq_none hdot, htemplates, hfunctions]
  | bracket typed =>
    simp only [htemplates, functionsBehind, Bool.false_eq_true, if_false, List.map_nil, List.append_nil]

/-! ## Lists for clients -/

/-- What a completion list holds for what is typed. -/
structure Listed (a : Analysis) (registry : Registry) (typed : List Char) (functions : Bool)
    (items : List CompletionItem) : Prop where
  /-- The items are the visible templates and the functions that begin with what is typed, each once. A template is
  visible if its name means it. -/
  candidates : ∃ templates : List Symbol,
    (∀ s, s ∈ templates ↔ a.symbols.resolve? s.name = some s ∧ Begins s.name typed) ∧
      (templates.map (·.name)).Nodup ∧
      (items.map (·.candidate)).Perm
        (templates.map (fun s => .ofSymbol s s.name) ++ (functionsBehind registry typed functions).map .ofFunction)
  ordered : items.Pairwise fun i j => i.candidate.place ≤ j.candidate.place

/-- The sort texts rise, so a client that sorts by them shows the items in their order. -/
structure KeepsOrder (items : List CompletionItem) : Prop where
  rises : items.Pairwise (·.sortText < ·.sortText)
  shows : ∀ shown : List CompletionItem, shown.Perm items → shown.Pairwise (·.sortText ≤ ·.sortText) → shown = items

theorem keepsOrder_ranked (cs : List Candidate) : KeepsOrder (ranked cs) ↔ (ranked cs).length ≤ 10000 := by
  rw [← pairwise_sortText_ranked]
  exact ⟨fun h => h.rises, fun hrise => ⟨hrise, fun _ => eq_of_sorted hrise⟩⟩

variable (ctx : AnalysisContext) (uri : Uri) (text : String) (registry : Registry)

theorem completionAt_of_linePrefix? {a : Analysis} {offset : Nat} {before : List Char}
    (hline : linePrefix? a offset = some before) :
    completionAt a registry offset = ranked (candidates a registry before) := by
  rw [completionAt, hline]

theorem listed_ranked {before typed : List Char} {functions : Bool}
    (htyping : Typing (context before) typed functions) :
    Listed (analyzeDocument ctx uri text) registry typed functions
      (ranked (candidates (analyzeDocument ctx uri text) registry before)) where
  candidates := by
    refine ⟨(analyzeDocument ctx uri text).symbols.visible.filter fun s => Begins s.name typed, fun s => ?_, ?_, ?_⟩
    · rw [List.mem_filter, decide_eq_true_eq]
      exact and_congr_left' SymbolTable.mem_visible
    · exact (SymbolTable.nodup_names_visible _).sublist (List.filter_sublist.map _)
    · rw [map_candidate_ranked, ← candidates_of_typing htyping]
      exact List.mergeSort_perm _ _
  ordered := pairwise_place_ranked _

/-- **Completion lists what begins with what is typed**, and clients keep its order exactly up to ten thousand items. -/
theorem completionAt_listed {offset : Nat} {before typed : List Char} {functions : Bool}
    (hline : linePrefix? (analyzeDocument ctx uri text) offset = some before)
    (htyping : Typing (context before) typed functions) :
    Listed (analyzeDocument ctx uri text) registry typed functions
        (completionAt (analyzeDocument ctx uri text) registry offset) ∧
      (KeepsOrder (completionAt (analyzeDocument ctx uri text) registry offset) ↔
        (completionAt (analyzeDocument ctx uri text) registry offset).length ≤ 10000) := by
  rw [completionAt_of_linePrefix? registry hline]
  exact ⟨listed_ranked ctx uri text registry htyping, keepsOrder_ranked _⟩

/-- A document with a template whose name begins as that of a template in a library. -/
def granAndGreet : Analysis :=
  analyzeDocument (builtinContext greetings .builtin) ⟨"file:///project/main.lg"⟩
    "[lib](lib.lg)\n# Gran\n- $\x7b'' + gR"

/-- Behind a literal and an operator, two letters of both names are typed. -/
theorem completionAt_listed_granAndGreet :
    linePrefix? granAndGreet 32 = some "- $\x7b'' + gR".toList ∧
      Listed granAndGreet .builtin ['g', 'R'] true (completionAt granAndGreet .builtin 32) ∧
      KeepsOrder (completionAt granAndGreet .builtin 32) := by
  have hline : linePrefix? granAndGreet 32 = some "- $\x7b'' + gR".toList := by
    decide +kernel
  have htyping : Typing (context "- $\x7b'' + gR".toList) ['g', 'R'] true :=
    .word "'' + ".toList ['g', 'R'] (by simp [isNameChar]) (by simp [isNameChar])
  have hfew : (completionAt granAndGreet .builtin 32).length ≤ 10000 := by
    rw [completionAt_of_linePrefix? _ hline, length_ranked]
    decide +kernel
  obtain ⟨hlisted, hkeeps⟩ := completionAt_listed (builtinContext greetings .builtin) ⟨"file:///project/main.lg"⟩
    "[lib](lib.lg)\n# Gran\n- $\x7b'' + gR" .builtin hline htyping
  exact ⟨hline, hlisted, hkeeps.2 hfew⟩

/-- Functions `f0`, `f1` and so on, without arguments. -/
def numberedFunctions (count : Nat) : Registry :=
  ⟨(List.range count).map fun n => ⟨"f" ++ toString n, [], .exactly 0, ""⟩⟩

/-- A document in which an expression begins. -/
def opening : Analysis :=
  analyzeDocument (builtinContext greetings .builtin) ⟨"file:///project/main.lg"⟩ "# T\n- $\x7b"

/-- Where nothing is typed yet, ten thousand functions and one are too many. -/
theorem not_keepsOrder_tenThousandAndOne :
    linePrefix? opening 8 = some "- $\x7b".toList ∧ Typing (context "- $\x7b".toList) [] true ∧
      ¬KeepsOrder (completionAt opening (numberedFunctions 10001) 8) := by
  have hline : linePrefix? opening 8 = some "- $\x7b".toList := by
    decide +kernel
  have htyping : Typing (context "- $\x7b".toList) [] true := .word [] [] (by simp) (by simp)
  have hall : functionsBehind (numberedFunctions 10001) [] true = (numberedFunctions 10001).functions := by
    rw [functionsBehind, if_pos rfl, List.filter_eq_self]
    exact fun f _ => decide_eq_true (List.nil_prefix : [] <+: _)
  have hmany : 10001 ≤ (candidates opening (numberedFunctions 10001) "- $\x7b".toList).length := by
    rw [candidates_of_typing htyping, hall, numberedFunctions]
    simp only [List.length_append, List.length_map, List.length_range]
    exact Nat.le_add_left _ _
  refine ⟨hline, htyping, fun hkeeps => ?_⟩
  rw [completionAt_of_linePrefix? _ hline, keepsOrder_ranked, length_ranked] at hkeeps
  omega

end LgLang.Editor
