import LgLang.Proofs.Syntax.Locality
import Mathlib.Data.List.DropRight

/-!
# The headings of a file

A template stands wherever a line is read as a header. Which lines these are can be told without following the reader:
`headings` goes through all lines and keeps, with each header, the lines above and below it.

What the reader does with the lines above a header shows in one place only, the documentation of its template. The
reader stands between templates, in the body of one, or passes over lines until the next boundary (`Footing`), and
comments in lines that are passed over are not kept (`docBefore`). `Resumes` is what holds wherever the reader goes on.
-/

namespace LgLang.Syntax

open Text (Line)

variable {doc : List String} {l : Line} {above ls ms : List Line}

/-- A line that is read as a header, with the lines above and below it. -/
structure Heading where
  above : List Line
  line : Line
  header : Header
  below : List Line

/-- The headings among lines that stand below others. -/
def headingsFrom (above : List Line) : List Line → List Heading
  | [] => []
  | l :: ls =>
    match readHeader l with
    | .ok header => ⟨above, l, header, ls⟩ :: headingsFrom (above ++ [l]) ls
    | .error _ => headingsFrom (above ++ [l]) ls

/-- The headings of a file. -/
def headings (text : String) : List Heading :=
  headingsFrom [] (Text.lines text.toList)

def isComment (l : Line) : Bool :=
  kindOf l == .comment

theorem kindOf_of_readHeader {header : Header} (h : readHeader l = .ok header) : kindOf l = .header := by
  unfold readHeader at h
  unfold kindOf
  dsimp only at h
  split at h
  · cases h
  · next parts hparts =>
    unfold splitHeader? at hparts
    split at hparts
    · next cs hcontent =>
      rw [hcontent]
      rfl
    · cases hparts

/-! ## Where the reader stands -/

/-- How the reader takes a line that is no boundary: below a boundary or at the beginning, in the body of a template, or
passing over it. -/
inductive Footing where
  | between
  | inBody
  | passing
  deriving DecidableEq, Repr

/-- A header with a name opens a body; one without a name, or text that belongs to no template, is passed over with all
that follows it. -/
def Footing.next (f : Footing) (l : Line) : Footing :=
  match kindOf l with
  | .blank | .comment => f
  | .importLine => .between
  | .header =>
    match readHeader l with
    | .ok _ => .inBody
    | .error _ => .passing
  | .bullet | .other =>
    match f with
    | .between => .passing
    | .inBody | .passing => f

theorem Footing.next_importLine (f : Footing) (h : kindOf l = .importLine) : f.next l = .between := by
  unfold Footing.next
  simp only [h]

theorem Footing.next_header_ok (f : Footing) {header : Header} (h : readHeader l = .ok header) : f.next l = .inBody := by
  unfold Footing.next
  simp only [kindOf_of_readHeader h, h]

theorem Footing.next_header_error (f : Footing) {finding : Diagnostic} (hkind : kindOf l = .header)
    (h : readHeader l = .error finding) : f.next l = .passing := by
  unfold Footing.next
  simp only [hkind, h]

theorem Footing.between_next_stray (h : kindOf l = .bullet ∨ kindOf l = .other) : Footing.between.next l = .passing := by
  unfold Footing.next
  rcases h with h | h <;> simp only [h]

/-- Where the reader stands below some lines. -/
def footing (above : List Line) : Footing :=
  above.foldl Footing.next .between

theorem footing_append_singleton (above : List Line) (l : Line) : footing (above ++ [l]) = (footing above).next l :=
  List.foldl_concat _ _ _ _

/-- Only a boundary ends a body or the lines that are passed over. -/
theorem Footing.next_eq_self {f : Footing} (hl : isBoundary l = false) (hf : f ≠ .between) : f.next l = f := by
  unfold isBoundary at hl
  unfold Footing.next
  cases hkind : kindOf l with
  | blank => rfl
  | comment => rfl
  | importLine =>
    rw [hkind] at hl
    cases hl
  | header =>
    rw [hkind] at hl
    cases hl
  | bullet => cases f <;> first | rfl | contradiction
  | other => cases f <;> first | rfl | contradiction

theorem footing_append (hms : ∀ m ∈ ms, isBoundary m = false) (hf : footing above ≠ .between) :
    footing (above ++ ms) = footing above := by
  induction ms generalizing above with
  | nil => rw [List.append_nil]
  | cons m ms ih =>
    obtain ⟨hm, hms⟩ := List.forall_mem_cons.1 hms
    have hnext : footing (above ++ [m]) = footing above := by
      rw [footing_append_singleton, Footing.next_eq_self hm hf]
    rw [List.append_cons, ih hms (hnext ▸ hf), hnext]

/-! ## Documentation as the reader keeps it -/

/-- The comments directly above. -/
def commentsAbove (above : List Line) : List String :=
  (above.rtakeWhile isComment).filterMap commentText?

/-- What the reader has kept of them. -/
def docBefore (above : List Line) : List String :=
  if footing above = .passing then [] else commentsAbove above

theorem commentsAbove_concat (h : isComment l = true) :
    commentsAbove (above ++ [l]) = commentsAbove above ++ (commentText? l).toList := by
  unfold commentsAbove
  rw [List.rtakeWhile_concat_pos _ _ _ h, List.filterMap_append]
  rfl

theorem commentsAbove_of_not_comment (h : isComment l = false) : commentsAbove (above ++ [l]) = [] := by
  have hl : ¬ isComment l = true := by simp [h]
  unfold commentsAbove
  rw [List.rtakeWhile_concat_neg _ _ _ hl, List.filterMap_nil]

theorem docBefore_of_not_comment (h : isComment l = false) : docBefore (above ++ [l]) = [] := by
  unfold docBefore
  rw [commentsAbove_of_not_comment h, ite_self]

theorem docBefore_of_passing (h : footing above = .passing) : docBefore above = [] :=
  if_pos h

/-- The comments directly above do not reach past a line that is none. -/
theorem rtakeWhile_below (h : isComment l = false) (ms : List Line) :
    (above ++ l :: ms).rtakeWhile isComment = ms.rtakeWhile isComment := by
  induction ms using List.reverseRecOn with
  | nil =>
    have hl : ¬ isComment l = true := by simp [h]
    rw [List.rtakeWhile_concat_neg _ _ _ hl, List.rtakeWhile_nil]
  | append_singleton ms m ih =>
    rw [← List.cons_append, ← List.append_assoc, List.rtakeWhile_concat, List.rtakeWhile_concat, ih]

theorem splitTrailingComments_snd (ls : List Line) : (splitTrailingComments ls).2 = ls.rtakeWhile isComment := rfl

/-! ## Headings -/

namespace Heading

/-- The lines of the body, without the comments at their end. -/
def bodyLines (h : Heading) : List Line :=
  (splitTrailingComments (h.below.takeWhile (!isBoundary ·))).1

/-- The template of the heading with the findings about its body. -/
def read (h : Heading) : Template × List Diagnostic :=
  templateOf h.line h.header (docBefore h.above) h.bodyLines

def template (h : Heading) : Template :=
  h.read.1

def findings (h : Heading) : List Diagnostic :=
  h.read.2

end Heading

theorem headingsFrom_of_error {finding : Diagnostic} (h : readHeader l = .error finding) :
    headingsFrom above (l :: ls) = headingsFrom (above ++ [l]) ls := by
  rw [headingsFrom]
  simp only [h]

theorem headingsFrom_of_ok {header : Header} (h : readHeader l = .ok header) :
    headingsFrom above (l :: ls) = ⟨above, l, header, ls⟩ :: headingsFrom (above ++ [l]) ls := by
  rw [headingsFrom]
  simp only [h]

/-- Other lines than headers are no headings. -/
theorem headingsFrom_cons {k : LineKind} (hkind : kindOf l = k) (hk : k ≠ .header) :
    headingsFrom above (l :: ls) = headingsFrom (above ++ [l]) ls := by
  cases hread : readHeader l with
  | error finding => exact headingsFrom_of_error hread
  | ok header => exact absurd (hkind.symm.trans (kindOf_of_readHeader hread)) hk

theorem kindOf_ne_header (h : isBoundary l = false) : kindOf l ≠ .header := by
  intro hkind
  rw [isBoundary, hkind] at h
  cases h

theorem headingsFrom_append (hms : ∀ m ∈ ms, isBoundary m = false) :
    headingsFrom above (ms ++ ls) = headingsFrom (above ++ ms) ls := by
  induction ms generalizing above with
  | nil => rw [List.nil_append, List.append_nil]
  | cons m ms ih =>
    obtain ⟨hm, hms⟩ := List.forall_mem_cons.1 hms
    rw [List.cons_append, headingsFrom_cons rfl (kindOf_ne_header hm), ih hms, ← List.append_cons]

theorem not_boundary_of_mem_takeWhile : ∀ m ∈ ls.takeWhile (!isBoundary ·), isBoundary m = false := by
  intro m hm
  simpa using List.mem_takeWhile_imp hm

theorem boundary_of_mem_head?_dropWhile : ∀ m ∈ (ls.dropWhile (!isBoundary ·)).head?, isBoundary m = true := by
  intro m hm
  have hnot := List.head?_dropWhile_not (!isBoundary ·) ls
  rw [Option.mem_def.1 hm] at hnot
  simpa using hnot

/-- Below a header or stray text the headings are those from the next boundary on. -/
theorem headingsFrom_dropWhile (above ls : List Line) :
    headingsFrom above ls =
      headingsFrom (above ++ ls.takeWhile (!isBoundary ·)) (ls.dropWhile (!isBoundary ·)) := by
  have hsplit := List.takeWhile_append_dropWhile (p := (!isBoundary ·)) (l := ls)
  have hbody : headingsFrom above (ls.takeWhile (!isBoundary ·) ++ ls.dropWhile (!isBoundary ·)) = _ :=
    headingsFrom_append not_boundary_of_mem_takeWhile
  rwa [hsplit] at hbody

/-! ## Where the reader goes on -/

/-- The reader has kept `doc` of the lines above and goes on with `ls`: between templates, or at the boundary that ends a
body or the lines that were passed over. -/
structure Resumes (above : List Line) (doc : List String) (ls : List Line) : Prop where
  doc : doc = docBefore above
  ready : footing above = .between ∨ ∀ l ∈ ls.head?, isBoundary l = true

namespace Resumes

theorem between (h : Resumes above doc (l :: ls)) (hl : isBoundary l = false) : footing above = .between := by
  rcases h.ready with hbetween | hboundary
  · exact hbetween
  · have htrue := hboundary l rfl
    rw [hl] at htrue
    cases htrue

theorem blank (h : Resumes above doc (l :: ls)) (hkind : kindOf l = .blank) : Resumes (above ++ [l]) [] ls := by
  have hbetween := h.between (by rw [isBoundary, hkind]; rfl)
  refine ⟨(docBefore_of_not_comment (by rw [isComment, hkind]; rfl)).symm, Or.inl ?_⟩
  rw [footing_append_singleton, hbetween, Footing.next, hkind]

theorem comment (h : Resumes above doc (l :: ls)) (hkind : kindOf l = .comment) :
    Resumes (above ++ [l]) (doc ++ (commentText? l).toList) ls := by
  have hbetween := h.between (by rw [isBoundary, hkind]; rfl)
  have hcomment : isComment l = true := by
    rw [isComment, hkind]
    rfl
  have hbelow : footing (above ++ [l]) = .between := by
    rw [footing_append_singleton, hbetween, Footing.next, hkind]
  refine ⟨?_, Or.inl hbelow⟩
  rw [h.doc, docBefore, docBefore, hbetween, hbelow, if_neg Footing.noConfusion, if_neg Footing.noConfusion,
    commentsAbove_concat hcomment]

theorem importLine (hkind : kindOf l = .importLine) : Resumes (above ++ [l]) [] ls := by
  refine ⟨(docBefore_of_not_comment (by rw [isComment, hkind]; rfl)).symm, Or.inl ?_⟩
  rw [footing_append_singleton, Footing.next_importLine _ hkind]

/-- Lines up to the next boundary are passed over with their comments. -/
theorem passing (hpassing : footing (above ++ [l]) = .passing) :
    Resumes (above ++ [l] ++ ls.takeWhile (!isBoundary ·)) [] (ls.dropWhile (!isBoundary ·)) := by
  have hbelow : footing (above ++ [l] ++ ls.takeWhile (!isBoundary ·)) = .passing := by
    rw [footing_append not_boundary_of_mem_takeWhile (hpassing ▸ Footing.noConfusion), hpassing]
  exact ⟨(docBefore_of_passing hbelow).symm, Or.inr boundary_of_mem_head?_dropWhile⟩

/-- The comments at the end of a body are those directly above what comes next. -/
theorem body {header : Header} (hread : readHeader l = .ok header) :
    Resumes (above ++ [l] ++ ls.takeWhile (!isBoundary ·))
      ((splitTrailingComments (ls.takeWhile (!isBoundary ·))).2.filterMap commentText?)
      (ls.dropWhile (!isBoundary ·)) := by
  have hkind := kindOf_of_readHeader hread
  have hnext : footing (above ++ [l]) = .inBody := by
    rw [footing_append_singleton, Footing.next_header_ok _ hread]
  have hbelow : footing (above ++ [l] ++ ls.takeWhile (!isBoundary ·)) = .inBody := by
    rw [footing_append not_boundary_of_mem_takeWhile (hnext ▸ Footing.noConfusion), hnext]
  refine ⟨?_, Or.inr boundary_of_mem_head?_dropWhile⟩
  rw [docBefore, hbelow, if_neg Footing.noConfusion, commentsAbove, splitTrailingComments_snd, List.append_assoc,
    List.singleton_append, rtakeWhile_below (by rw [isComment, hkind]; rfl)]

theorem stray (h : Resumes above doc (l :: ls)) (hkind : kindOf l = .bullet ∨ kindOf l = .other) :
    Resumes (above ++ [l] ++ ls.takeWhile (!isBoundary ·)) [] (ls.dropWhile (!isBoundary ·)) := by
  have hbetween := h.between (by rcases hkind with hkind | hkind <;> rw [isBoundary, hkind] <;> rfl)
  exact passing (by rw [footing_append_singleton, hbetween, Footing.between_next_stray hkind])

end Resumes

end LgLang.Syntax
