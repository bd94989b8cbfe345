import LgLang.Proofs.Syntax.Located

/-!
# Reading further behind in a text

Readers count offsets from where they are told that their text begins, and never look at them. When all lines of a file
begin `n` bytes later, everything read from them is the same, with all spans moved by `n` (`parseLines_shift`). `shift`
moves the nodes of the tree, the findings, and what readers hold in between; beside each reader stands what it makes of
moved input.
-/

namespace LgLang

namespace Span

theorem ofSize_shift (n start size : Nat) : ofSize (n + start) size = (ofSize start size).shift n := by
  ext
  · rfl
  · exact Nat.add_assoc n start size

theorem between_shift (n start stop : Nat) : between (n + start) (n + stop) = (between start stop).shift n := by
  ext
  · rfl
  · show max (n + start) (n + stop) = n + max start stop
    omega

theorem cover_shift (n : Nat) (s t : Span) : (s.shift n).cover (t.shift n) = (s.cover t).shift n := by
  unfold cover
  rw [← between_shift]
  congr 1
  · show min (n + s.start) (n + t.start) = n + min s.start t.start
    omega
  · show max (n + s.stop) (n + t.stop) = n + max s.stop t.stop
    omega

end Span

/-- A finding about a place `n` bytes later. -/
def Diagnostic.shift (n : Nat) (d : Diagnostic) : Diagnostic :=
  { d with span := d.span.shift n }

/-- A line that begins `n` bytes later. -/
def Text.Line.shift (n : Nat) (l : Text.Line) : Text.Line :=
  { l with start := n + l.start }

namespace Syntax

open Text (Line byteSize)

variable {n start : Nat} {cs : List Char} {l : Line} {ls : List Line}

/-! ## Texts -/

def Segment.shift (n : Nat) (s : Segment) : Segment :=
  { s with span := s.span.shift n, contentSpan := s.contentSpan.shift n }

def Reference.shift (n : Nat) (r : Reference) : Reference :=
  { r with span := r.span.shift n }

def Token.shift (n : Nat) : Token → Token
  | segment s => segment (s.shift n)
  | reference r => reference (r.shift n)
  | unterminated span => unterminated (span.shift n)

def TextLine.shift (n : Nat) (l : TextLine) : TextLine :=
  { l with
    span := l.span.shift n
    segments := l.segments.map (Segment.shift n)
    references := l.references.map (Reference.shift n) }

theorem segmentAt_shift (n start : Nat) (content : List Char) :
    segmentAt (n + start) content = (segmentAt start content).shift n := by
  simp only [segmentAt, Segment.shift, Span.ofSize_shift, Nat.add_assoc]

theorem tokensFrom_shift (n start : Nat) (cs : List Char) :
    tokensFrom (n + start) cs = (tokensFrom start cs).map (Token.shift n) := by
  fun_induction tokensFrom start cs with
  | case1 => simp only [tokensFrom, List.map_nil]
  | case2 => simp only [tokensFrom, List.map_nil]
  | case3 start c rest ih =>
    rw [tokensFrom, ← ih]
    simp only [Nat.add_assoc]
  | case4 start rest _ found hclosed ih =>
    rw [tokensFrom]
    simp only [found] at hclosed ih ⊢
    rw [if_pos hclosed, List.map_cons, ← ih, segmentAt_shift]
    simp only [Nat.add_assoc, Token.shift]
  | case5 start rest _ found hclosed ih =>
    have hspan := Span.ofSize_shift n start (2 + byteSize (Text.stripReturn found.content))
    rw [tokensFrom]
    simp only [found] at hclosed ih hspan ⊢
    rw [if_neg hclosed, List.map_cons, ← ih, unterminatedSpan, hspan]
    simp only [Nat.add_assoc, Token.shift, unterminatedSpan]
  | case6 start rest name after hbracket _ tail hname ih =>
    rw [tokensFrom]
    split
    · next name' after' hbracket' =>
      obtain ⟨rfl, rfl⟩ := Prod.mk.inj (Option.some.inj (hbracket.symm.trans hbracket'))
      rw [if_pos hname, List.map_cons, ← ih]
      simp only [Nat.add_assoc, Token.shift, Reference.shift, Span.ofSize_shift]
    · next hnone => cases hbracket.symm.trans hnone
  | case7 start rest name after hbracket _ tail hname ih =>
    rw [tokensFrom]
    split
    · next name' after' hbracket' =>
      obtain ⟨rfl, rfl⟩ := Prod.mk.inj (Option.some.inj (hbracket.symm.trans hbracket'))
      rw [if_neg hname, ← ih]
      simp only [Nat.add_assoc]
    · next hnone => cases hbracket.symm.trans hnone
  | case8 start rest hbracket ih =>
    rw [tokensFrom]
    split
    · next hsome => cases hbracket.symm.trans hsome
    · rw [← ih, Nat.add_assoc]
  | case9 start c rest _ _ _ _ ih => rw [tokensFrom, ← ih, Nat.add_assoc] <;> assumption

theorem filterMap_segment?_shift (ts : List Token) :
    (ts.map (Token.shift n)).filterMap Token.segment? = (ts.filterMap Token.segment?).map (Segment.shift n) := by
  rw [List.filterMap_map, List.map_filterMap]
  congr 1
  funext t
  cases t <;> rfl

theorem filterMap_reference?_shift (ts : List Token) :
    (ts.map (Token.shift n)).filterMap Token.reference? = (ts.filterMap Token.reference?).map (Reference.shift n) := by
  rw [List.filterMap_map, List.map_filterMap]
  congr 1
  funext t
  cases t <;> rfl

theorem TextLine.ofText_shift (n start : Nat) (cs : List Char) :
    TextLine.ofText (n + start) cs = (TextLine.ofText start cs).shift n := by
  simp only [ofText, shift, tokensFrom_shift, filterMap_segment?_shift, filterMap_reference?_shift, Span.ofSize_shift]

theorem textDiagnostics_shift (n start : Nat) (cs : List Char) :
    textDiagnostics (n + start) cs = (textDiagnostics start cs).map (Diagnostic.shift n) := by
  unfold textDiagnostics
  rw [tokensFrom_shift, List.filterMap_map, List.map_filterMap]
  congr 1
  funext t
  cases t <;> rfl

/-! ## Lines -/

@[simp] theorem kindOf_shift (n : Nat) (l : Line) : kindOf (l.shift n) = kindOf l := rfl

@[simp] theorem isSilent_shift (n : Nat) (l : Line) : isSilent (l.shift n) = isSilent l := rfl

@[simp] theorem commentText?_shift (n : Nat) (l : Line) : commentText? (l.shift n) = commentText? l := rfl

@[simp] theorem content_shift (n : Nat) (l : Line) : (l.shift n).content = l.content := rfl

theorem contentStart_shift (n : Nat) (l : Line) : (l.shift n).contentStart = n + l.contentStart :=
  Nat.add_assoc n l.start _

theorem contentStop_shift (n : Nat) (l : Line) : (l.shift n).contentStop = n + l.contentStop := by
  unfold Line.contentStop
  rw [contentStart_shift, content_shift, Nat.add_assoc]

theorem stop_shift (n : Nat) (l : Line) : (l.shift n).stop = n + l.stop :=
  Nat.add_assoc n l.start _

theorem contentSpan_shift (n : Nat) (l : Line) : contentSpan (l.shift n) = (contentSpan l).shift n := by
  unfold contentSpan
  rw [contentStart_shift, content_shift, Span.ofSize_shift]

theorem linesFrom_shift (n start : Nat) (cs : List Char) :
    Text.linesFrom (n + start) cs = (Text.linesFrom start cs).map (Line.shift n) := by
  fun_induction Text.linesFrom start cs with
  | case1 start cs raw hdrop =>
    rw [Text.linesFrom]
    split
    · rfl
    · next hcons => cases hdrop.symm.trans hcons
  | case2 start cs raw c rest hdrop ih =>
    rw [Text.linesFrom]
    split
    · next hnil => cases hdrop.symm.trans hnil
    · next c' rest' hcons =>
      obtain ⟨rfl, rfl⟩ := List.cons.inj (hdrop.symm.trans hcons)
      rw [List.map_cons, ← ih]
      simp only [Nat.add_assoc]
      rfl

/-! ## Groups of lines -/

def BodyItem.shift (n : Nat) : BodyItem → BodyItem
  | bullet start text => bullet (n + start) text
  | stray span => stray (span.shift n)

theorem BodyItem.stop_shift (n : Nat) (item : BodyItem) : (item.shift n).stop = n + item.stop := by
  cases item with
  | bullet start text => exact Nat.add_assoc n start _
  | stray span => rfl

namespace OpenItem

def shift (n : Nat) : OpenItem → OpenItem
  | bullet start text => bullet (n + start) text
  | stray start stop => stray (n + start) (n + stop)

theorem ofBullet_shift (n : Nat) (l : Line) : ofBullet (l.shift n) = (ofBullet l).shift n := by
  have hraw : (l.shift n).raw = l.raw := rfl
  simp only [ofBullet, contentStart_shift, hraw]
  split
  · rfl
  · simp only [shift, Nat.add_assoc]

theorem ofStray_shift (n : Nat) (l : Line) : ofStray (l.shift n) = (ofStray l).shift n := by
  simp only [ofStray, contentStart_shift, contentStop_shift, shift]

theorem extend_shift (n : Nat) (l : Line) (item : OpenItem) :
    (item.shift n).extend (l.shift n) = (item.extend l).shift n := by
  cases item with
  | bullet start text => rfl
  | stray start stop => simp only [shift, extend, contentStop_shift]

theorem close_shift (n : Nat) (item : OpenItem) : (item.shift n).close = item.close.shift n := by
  cases item with
  | bullet start text => rfl
  | stray start stop => simp only [shift, close, BodyItem.shift, Span.between_shift]

end OpenItem

theorem groupFrom_shift (n : Nat) (current : Option OpenItem) (ls : List Line) :
    groupFrom (current.map (OpenItem.shift n)) (ls.map (Line.shift n)) =
      (groupFrom current ls).map (BodyItem.shift n) := by
  have hclose : ∀ current : Option OpenItem, ((current.map (OpenItem.shift n)).map OpenItem.close).toList =
      (current.map OpenItem.close).toList.map (BodyItem.shift n) := by
    intro current
    cases current with
    | none => rfl
    | some item => simp [OpenItem.close_shift]
  fun_induction groupFrom current ls with
  | case1 current => exact hclose current
  | case2 current l ls hkind ih | case3 current l ls hkind ih =>
    simp only [List.map_cons, groupFrom, kindOf_shift, hkind, List.map_append, hclose, ← ih, Option.map_none]
  | case4 current l ls hkind ih =>
    simp only [List.map_cons, groupFrom, kindOf_shift, hkind, List.map_append, hclose, ← ih, Option.map_some,
      OpenItem.ofBullet_shift]
  | case5 l ls item hblank hcomment hbullet ih =>
    rw [← ih, List.map_cons, Option.map_some, groupFrom, OpenItem.extend_shift]
    split
    · next hkind => exact (hblank hkind).elim
    · next hkind => exact (hcomment hkind).elim
    · next hkind => exact (hbullet hkind).elim
    · rfl
  | case6 l ls hblank hcomment hbullet ih =>
    rw [← ih, List.map_cons, Option.map_none, groupFrom, OpenItem.ofStray_shift]
    split
    · next hkind => exact (hblank hkind).elim
    · next hkind => exact (hcomment hkind).elim
    · next hkind => exact (hbullet hkind).elim
    · rfl

/-! ## Bodies -/

def Property.shift (n : Nat) (p : Property) : Property :=
  { p with keySpan := p.keySpan.shift n, value := p.value.shift n }

def StructuredBody.shift (n : Nat) (b : StructuredBody) : StructuredBody :=
  { b with typeSpan := b.typeSpan.shift n, properties := b.properties.map (Property.shift n) }

def Branch.shift (n : Nat) (b : Branch) : Branch :=
  { b with
    condition := b.condition.map (Segment.shift n)
    body := b.body.map (TextLine.shift n)
    span := b.span.shift n }

def Case.shift (n : Nat) (c : Case) : Case :=
  { value := c.value.map (Segment.shift n), body := c.body.map (TextLine.shift n), span := c.span.shift n }

def Fallback.shift (n : Nat) (f : Fallback) : Fallback :=
  { body := f.body.map (TextLine.shift n), span := f.span.shift n }

def SwitchBody.shift (n : Nat) (b : SwitchBody) : SwitchBody :=
  { subject := b.subject.map (Segment.shift n)
    cases := b.cases.map (Case.shift n)
    fallback := b.fallback.map (Fallback.shift n) }

def Body.shift (n : Nat) : Body → Body
  | text ls => text (ls.map (TextLine.shift n))
  | structured b => structured (b.shift n)
  | conditional bs => conditional (bs.map (Branch.shift n))
  | switch b => switch (b.shift n)

/-- The findings about places `n` bytes later. -/
def shiftFindings (n : Nat) (ds : List Diagnostic) : List Diagnostic :=
  ds.map (Diagnostic.shift n)

@[simp] theorem shiftFindings_nil (n : Nat) : shiftFindings n [] = [] := rfl

@[simp] theorem shiftFindings_append (n : Nat) (ds es : List Diagnostic) :
    shiftFindings n (ds ++ es) = shiftFindings n ds ++ shiftFindings n es :=
  List.map_append

theorem branchExpression_shift (n : Nat) (k : Keyword) (start : Nat) (rest : List Char) (span : Span) :
    branchExpression k (n + start) rest (span.shift n) =
      ((branchExpression k start rest span).1.map (Segment.shift n),
        shiftFindings n (branchExpression k start rest span).2) := by
  simp only [branchExpression, textDiagnostics_shift, tokensFrom_shift, filterMap_segment?_shift]
  split
  · cases hsegments : (tokensFrom start rest).filterMap Token.segment? with
    | cons s ss => rfl
    | nil =>
      simp only [List.map_nil, List.isEmpty_map]
      split <;> rfl
  · split
    · rfl
    · rw [shiftFindings_append]
      rfl

namespace Draft

def shift (n : Nat) : Draft → Draft
  | undecided => undecided
  | text ls => text (ls.map (TextLine.shift n))
  | conditional bs => conditional (bs.map (Branch.shift n))
  | switch b => switch (b.shift n)

@[simp] theorem body_shift (n : Nat) (d : Draft) : (d.shift n).body = d.body.shift n := by
  cases d <;> rfl

/-- Whether a keyword fits does not depend on where the bullets stand. -/
theorem misplacement?_shift (n : Nat) (d : Draft) (k : Keyword) : (d.shift n).misplacement? k = d.misplacement? k := by
  cases d with
  | undecided => rfl
  | text ls => rfl
  | conditional bs =>
    have hany : (bs.map (Branch.shift n)).any (·.kind == .otherwise) = bs.any (·.kind == .otherwise) := by
      rw [List.any_map]
      rfl
    cases k <;> simp only [shift, misplacement?, hany]
  | switch b => cases k <;> simp [shift, misplacement?, SwitchBody.shift]

theorem admitsMisplaced_shift (n : Nat) (d : Draft) (k : Keyword) :
    (d.shift n).admitsMisplaced k = d.admitsMisplaced k := by
  cases d with
  | undecided => rfl
  | text ls => rfl
  | conditional bs => rfl
  | switch b => cases k <;> simp [shift, admitsMisplaced, SwitchBody.shift]

theorem addKeyword_shift (n : Nat) (d : Draft) (k : Keyword) (expression : Option Segment) (span : Span) :
    (d.shift n).addKeyword k (expression.map (Segment.shift n)) (span.shift n) =
      (d.addKeyword k expression span).shift n := by
  cases d <;> cases k <;>
    simp [shift, addKeyword, addBranch, updateSwitch, Branch.shift, SwitchBody.shift, Case.shift, Fallback.shift]

theorem addToSwitch?_shift (n : Nat) (b : SwitchBody) (line : TextLine) :
    addToSwitch? (b.shift n) (line.shift n) = (addToSwitch? b line).map (SwitchBody.shift n) := by
  have hspan : (line.shift n).span = line.span.shift n := rfl
  cases hfallback : b.fallback with
  | some f =>
    simp [addToSwitch?, SwitchBody.shift, Fallback.shift, hfallback, hspan, Span.cover_shift]
  | none =>
    have hlast : mapLast (fun c : Case => { c with
          body := c.body ++ [line.shift n], span := c.span.cover (line.shift n).span }) (b.cases.map (Case.shift n)) =
        (mapLast (fun c : Case => { c with
          body := c.body ++ [line], span := c.span.cover line.span }) b.cases).map (Case.shift n) := by
      refine mapLast_map (fun c => ?_) b.cases
      simp [Case.shift, hspan, Span.cover_shift]
    simp only [addToSwitch?, SwitchBody.shift, hfallback, Option.map_none, List.isEmpty_map, hlast]
    split <;> simp [SwitchBody.shift]

theorem addText_shift (n : Nat) (d : Draft) (line : TextLine) :
    (d.shift n).addText (line.shift n) = ((d.addText line).1.shift n, shiftFindings n (d.addText line).2) := by
  have hspan : (line.shift n).span = line.span.shift n := rfl
  cases d with
  | undecided => rfl
  | text ls => simp [shift, addText]
  | conditional bs =>
    have hlast : mapLast (fun b : Branch => { b with
          body := b.body ++ [line.shift n], span := b.span.cover (line.shift n).span }) (bs.map (Branch.shift n)) =
        (mapLast (fun b : Branch => { b with
          body := b.body ++ [line], span := b.span.cover line.span }) bs).map (Branch.shift n) := by
      refine mapLast_map (fun b => ?_) bs
      simp [Branch.shift, hspan, Span.cover_shift]
    simp only [shift, addText, hlast, shiftFindings_nil]
  | switch b =>
    simp only [shift, addText, addToSwitch?_shift]
    cases addToSwitch? b line with
    | some b' => rfl
    | none => rfl

theorem add_shift (n : Nat) (d : Draft) (item : BodyItem) :
    (d.shift n).add (item.shift n) = ((d.add item).1.shift n, shiftFindings n (d.add item).2) := by
  cases item with
  | stray span => rfl
  | bullet start content =>
    simp only [BodyItem.shift, add, Span.ofSize_shift, misplacement?_shift, admitsMisplaced_shift]
    cases Keyword.detect? content with
    | none =>
      simp only [TextLine.ofText_shift, addText_shift, textDiagnostics_shift, shiftFindings_append]
      rfl
    | some found =>
      obtain ⟨k, size, rest⟩ := found
      have hreports : ∀ m : Option Misplacement,
          (m.map fun m => Diagnostic.error .misplacedKeyword
            ((Span.ofSize start (byteSize content)).shift n) m.message).toList =
          shiftFindings n (m.map fun m => Diagnostic.error .misplacedKeyword
            (Span.ofSize start (byteSize content)) m.message).toList := by
        intro m
        cases m <;> rfl
      simp only [hreports, Nat.add_assoc, branchExpression_shift, addKeyword_shift]
      split
      · rfl
      · rw [shiftFindings_append]

theorem addAll_shift (n : Nat) (d : Draft) (items : List BodyItem) :
    (d.shift n).addAll (items.map (BodyItem.shift n)) = ((d.addAll items).1.shift n, shiftFindings n (d.addAll items).2) := by
  induction items generalizing d with
  | nil => rfl
  | cons item items ih => simp only [List.map_cons, addAll, add_shift, ih, shiftFindings_append]

theorem emptyBranches_shift (n : Nat) (d : Draft) : (d.shift n).emptyBranches = shiftFindings n d.emptyBranches := by
  cases d with
  | undecided => rfl
  | text ls => rfl
  | conditional bs =>
    have hfilter : (fun b : Branch => b.body.isEmpty) ∘ Branch.shift n = fun b => b.body.isEmpty :=
      funext fun b => List.isEmpty_map
    simp only [shift, emptyBranches, shiftFindings, List.filter_map, List.map_map, hfilter]
    rfl
  | switch b =>
    have hfilter : (fun c : Case => c.body.isEmpty) ∘ Case.shift n = fun c => c.body.isEmpty :=
      funext fun c => List.isEmpty_map
    have hcases : ((b.shift n).cases.filter (·.body.isEmpty)).map (fun c => emptyBranch c.span .case) =
        shiftFindings n ((b.cases.filter (·.body.isEmpty)).map fun c => emptyBranch c.span .case) := by
      simp only [SwitchBody.shift, shiftFindings, List.filter_map, List.map_map, hfilter]
      rfl
    have hfallback : (((b.shift n).fallback.filter (·.body.isEmpty)).map fun f => emptyBranch f.span .fallback).toList =
        shiftFindings n ((b.fallback.filter (·.body.isEmpty)).map fun f => emptyBranch f.span .fallback).toList := by
      cases b with
      | mk subject cases fallback =>
        cases fallback with
        | none => rfl
        | some f =>
          simp only [SwitchBody.shift, Option.map_some, Option.filter, Fallback.shift, List.isEmpty_map]
          split <;> rfl
    simp only [shift, emptyBranches, hcases, hfallback, shiftFindings_append]

end Draft

theorem bulletBody_shift (n : Nat) (items : List BodyItem) :
    bulletBody (items.map (BodyItem.shift n)) = ((bulletBody items).1.shift n, shiftFindings n (bulletBody items).2) := by
  have hall := Draft.addAll_shift n .undecided items
  have hempty : Draft.undecided.shift n = .undecided := rfl
  rw [hempty] at hall
  simp only [bulletBody, hall, Draft.body_shift, Draft.emptyBranches_shift, shiftFindings_append]

/-! ## Structured bodies -/

namespace StructureDraft

def shift (n : Nat) (d : StructureDraft) : StructureDraft :=
  { d with stop := n + d.stop, properties := d.properties.map (Property.shift n) }

theorem addProperty_shift (n : Nat) (d : StructureDraft) (l : Line) :
    (d.shift n).addProperty (l.shift n) = ((d.addProperty l).1.shift n, shiftFindings n (d.addProperty l).2) := by
  have hany : ∀ name, (d.shift n).properties.any (·.key == name) = d.properties.any (·.key == name) := by
    intro name
    rw [shift, List.any_map]
    rfl
  simp only [addProperty, content_shift, hany, contentStart_shift]
  split
  · rw [contentSpan_shift]
    rfl
  · simp only [Nat.add_assoc, TextLine.ofText_shift, textDiagnostics_shift, shiftFindings_append, Span.ofSize_shift]
    split <;> simp [shift, Property.shift, shiftFindings, Diagnostic.shift, Diagnostic.warning]

theorem add_shift (n : Nat) (d : StructureDraft) (l : Line) :
    (d.shift n).add (l.shift n) = ((d.add l).1.shift n, shiftFindings n (d.add l).2) := by
  have hmoved : (⟨d.closed, (l.shift n).contentStop, (d.shift n).properties⟩ : StructureDraft) =
      shift n ⟨d.closed, l.contentStop, d.properties⟩ := by
    rw [contentStop_shift]
    rfl
  have hclosed : (d.shift n).closed = d.closed := rfl
  simp only [add, isSilent_shift, content_shift, hclosed]
  split
  · rfl
  · split
    · rw [contentSpan_shift]
      rfl
    · split
      · rw [contentStop_shift]
        rfl
      · rw [hmoved, addProperty_shift]

theorem addAll_shift (n : Nat) (d : StructureDraft) (ls : List Line) :
    (d.shift n).addAll (ls.map (Line.shift n)) = ((d.addAll ls).1.shift n, shiftFindings n (d.addAll ls).2) := by
  induction ls generalizing d with
  | nil => rfl
  | cons l ls ih => simp only [List.map_cons, addAll, add_shift, ih, shiftFindings_append]

end StructureDraft

theorem structuredBody_shift (n : Nat) (opening : Line) (ls : List Line) :
    structuredBody (opening.shift n) (ls.map (Line.shift n)) =
      ((structuredBody opening ls).1.shift n, n + (structuredBody opening ls).2.1,
        shiftFindings n (structuredBody opening ls).2.2) := by
  have hall : ∀ closed,
      StructureDraft.addAll ⟨closed, ((contentSpan opening).shift n).stop, []⟩ (ls.map (Line.shift n)) =
      ((StructureDraft.addAll ⟨closed, (contentSpan opening).stop, []⟩ ls).1.shift n,
        shiftFindings n (StructureDraft.addAll ⟨closed, (contentSpan opening).stop, []⟩ ls).2) := by
    intro closed
    exact StructureDraft.addAll_shift n ⟨closed, (contentSpan opening).stop, []⟩ ls
  have hunclosed : ∀ closed : Bool, (if closed then []
        else [Diagnostic.error .unterminatedStructure ((contentSpan opening).shift n)
          "structured body is missing its closing ']'"]) =
      shiftFindings n (if closed then []
        else [Diagnostic.error .unterminatedStructure (contentSpan opening)
          "structured body is missing its closing ']'"]) := by
    intro closed
    split <;> rfl
  have hkept : ∀ d : StructureDraft, (d.shift n).closed = d.closed := fun _ => rfl
  unfold structuredBody
  rw [content_shift, contentStart_shift]
  cases splitOpening? opening.content with
  | none =>
    simp only [hall, contentSpan_shift, hkept, hunclosed, shiftFindings_append]
    rfl
  | some found =>
    obtain ⟨name, place, closed⟩ := found
    simp only [hall, contentSpan_shift, hkept, hunclosed, shiftFindings_append, Nat.add_assoc, Span.ofSize_shift]
    rfl

/-! ## Imports and headers -/

def Import.shift (n : Nat) (i : Import) : Import :=
  { i with span := i.span.shift n, targetSpan := i.targetSpan.shift n }

def Parameter.shift (n : Nat) (p : Parameter) : Parameter :=
  { p with span := p.span.shift n }

def Header.shift (n : Nat) (h : Header) : Header :=
  { h with nameSpan := h.nameSpan.shift n, parameters := h.parameters.map (Parameter.shift n) }

/-- The outcome of a reader, `n` bytes later. -/
def shiftOutcome {α : Type} (shift : α → α) (n : Nat) : Except Diagnostic α → Except Diagnostic α
  | .error finding => .error (finding.shift n)
  | .ok a => .ok (shift a)

theorem readImport_shift (n : Nat) (l : Line) (inHeader : Bool) :
    readImport (l.shift n) inHeader = shiftOutcome (Import.shift n) n (readImport l inHeader) := by
  unfold readImport
  rw [content_shift, contentSpan_shift, contentStart_shift]
  cases splitLink? l.content with
  | none => rfl
  | some link =>
    dsimp only
    cases qualifier? link.after with
    | none => rfl
    | some qualifier =>
      dsimp only
      rw [apply_ite (shiftOutcome (Import.shift n) n)]
      simp only [Nat.add_assoc, Span.ofSize_shift]
      rfl

theorem lateImport_shift (n : Nat) (i : Import) : lateImport (i.shift n) = shiftFindings n (lateImport i) := by
  unfold lateImport
  have hflag : (i.shift n).inHeader = i.inHeader := rfl
  rw [hflag]
  split <;> rfl

/-- A piece of a header that begins `n` bytes later. -/
def shiftPiece (n : Nat) (piece : Nat × List Char) : Nat × List Char :=
  (n + piece.1, piece.2)

theorem piecesFrom_shift (n start : Nat) (cs : List Char) :
    piecesFrom (n + start) cs = (piecesFrom start cs).map (shiftPiece n) := by
  fun_induction piecesFrom start cs with
  | case1 start cs piece hdrop =>
    rw [piecesFrom]
    split
    · rfl
    · next hcons => cases hdrop.symm.trans hcons
  | case2 start cs piece c rest hdrop ih =>
    rw [piecesFrom]
    split
    · next hnil => cases hdrop.symm.trans hnil
    · next c' rest' hcons =>
      obtain ⟨rfl, rfl⟩ := List.cons.inj (hdrop.symm.trans hcons)
      rw [List.map_cons, ← ih]
      simp only [Nat.add_assoc]
      rfl

theorem readParameter_shift (n : Nat) (piece : Nat × List Char) :
    readParameter (shiftPiece n piece) = (readParameter piece).map (Parameter.shift n) := by
  simp only [readParameter, shiftPiece, Nat.add_assoc, Span.ofSize_shift]
  split
  · rfl
  · rw [apply_ite (Except.map (Parameter.shift n))]
    rfl

theorem mapM_readParameter_shift (n : Nat) (pieces : List (Nat × List Char)) :
    (pieces.map (shiftPiece n)).mapM readParameter =
      (pieces.mapM readParameter).map (List.map (Parameter.shift n)) := by
  induction pieces with
  | nil => rfl
  | cons piece pieces ih =>
    rw [List.map_cons, List.mapM_cons, List.mapM_cons, ih, readParameter_shift]
    cases readParameter piece with
    | error message => rfl
    | ok p =>
      cases pieces.mapM readParameter with
      | error message => rfl
      | ok ps => rfl

theorem readHeader_shift (n : Nat) (l : Line) :
    readHeader (l.shift n) = shiftOutcome (Header.shift n) n (readHeader l) := by
  unfold readHeader
  rw [content_shift, contentSpan_shift, contentStart_shift]
  cases splitHeader? l.content with
  | none => rfl
  | some parts =>
    have hpieces : (if Text.allBlank parts.group then []
          else piecesFrom (n + l.contentStart + parts.groupPlace) parts.group) =
        (if Text.allBlank parts.group then []
          else piecesFrom (l.contentStart + parts.groupPlace) parts.group).map (shiftPiece n) := by
      split
      · rfl
      · rw [Nat.add_assoc, piecesFrom_shift]
    simp only [hpieces, mapM_readParameter_shift]
    cases (if Text.allBlank parts.group then []
        else piecesFrom (l.contentStart + parts.groupPlace) parts.group).mapM readParameter with
    | error message => rfl
    | ok parameters =>
      simp only [Except.map, Nat.add_assoc, Span.ofSize_shift]
      rfl

/-! ## Templates -/

def Template.shift (n : Nat) (t : Template) : Template :=
  { t with
    nameSpan := t.nameSpan.shift n
    parameters := t.parameters.map (Parameter.shift n)
    body := t.body.shift n
    span := t.span.shift n }

theorem max?_map_add (n : Nat) (ms : List Nat) : (ms.map (n + ·)).max? = ms.max?.map (n + ·) := by
  cases hmax : ms.max? with
  | none =>
    rw [List.max?_eq_none_iff] at hmax
    subst hmax
    rfl
  | some m =>
    obtain ⟨hmem, hall⟩ := List.max?_eq_some_iff.1 hmax
    refine List.max?_eq_some_iff.2 ⟨List.mem_map_of_mem hmem, fun k hk => ?_⟩
    obtain ⟨j, hj, rfl⟩ := List.mem_map.1 hk
    exact Nat.add_le_add_left (hall j hj) n

theorem readBody_shift (n : Nat) (ls : List Line) :
    readBody (ls.map (Line.shift n)) =
      ((readBody ls).1.shift n, (readBody ls).2.1.map (n + ·), shiftFindings n (readBody ls).2.2) := by
  have hdrop : (ls.map (Line.shift n)).dropWhile isSilent = (ls.dropWhile isSilent).map (Line.shift n) := by
    rw [List.dropWhile_map]
    rfl
  unfold readBody
  rw [hdrop]
  cases hfirst : ls.dropWhile isSilent with
  | nil => rfl
  | cons first rest =>
    simp only [List.map_cons, content_shift, structuredBody_shift]
    split
    · rfl
    · have hgroups := groupFrom_shift n none ls
      have hstops : ((groupLines ls).map (BodyItem.shift n)).map BodyItem.stop =
          ((groupLines ls).map BodyItem.stop).map (n + ·) := by
        rw [List.map_map, List.map_map]
        exact List.map_congr_left fun item _ => item.stop_shift n
      have hlines : groupLines (ls.map (Line.shift n)) = (groupLines ls).map (BodyItem.shift n) := hgroups
      simp only [hlines, bulletBody_shift, hstops, max?_map_add]

theorem templateOf_shift (n : Nat) (l : Line) (h : Header) (doc : List String) (bodyLines : List Line) :
    templateOf (l.shift n) (h.shift n) doc (bodyLines.map (Line.shift n)) =
      ((templateOf l h doc bodyLines).1.shift n, shiftFindings n (templateOf l h doc bodyLines).2) := by
  have hstop : ((readBody bodyLines).2.1.map (n + ·)).getD (n + l.stop) = n + (readBody bodyLines).2.1.getD l.stop := by
    cases (readBody bodyLines).2.1 <;> rfl
  simp only [templateOf, readBody_shift, contentStart_shift, stop_shift, hstop, Span.between_shift]
  rfl

/-! ## Files -/

def Parsed.shift (n : Nat) (p : Parsed) : Parsed where
  file := ⟨p.file.imports.map (Import.shift n), p.file.templates.map (Template.shift n)⟩
  diagnostics := shiftFindings n p.diagnostics

namespace Parsed

theorem after_shift (n : Nat) (findings : List Diagnostic) (p : Parsed) :
    (p.shift n).after (shiftFindings n findings) = (p.after findings).shift n := by
  simp only [after, shift, shiftFindings_append]

theorem consImport_shift (n : Nat) (i : Import) (p : Parsed) :
    (p.shift n).consImport (i.shift n) = (p.consImport i).shift n := rfl

theorem consTemplate_shift (n : Nat) (t : Template) (p : Parsed) :
    (p.shift n).consTemplate (t.shift n) = (p.consTemplate t).shift n := rfl

end Parsed

end Syntax

end LgLang
