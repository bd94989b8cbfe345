import LgLang.Syntax.Parser
import LgLang.Proofs.Syntax.Structures

/-!
# Where the nodes of a file stand

Reading a file locates everything it yields (`parse_located`): names, parameters, targets, keys, texts, expressions and
references are found in the text where their spans say, all spans lie in the text between characters, what belongs to a
template lies inside its span, and imports, templates and segments do not overlap. The lines of a file are passed from
above to below, and each import or template ends before the lines that are still to be read begin
(`Parsed.Placed`).
-/

namespace LgLang.Syntax

open Text (Stands Line Consecutive byteSize isBlank)

variable {cs xs : List Char} {start lo mid hi : Nat} {l : Line} {ls : List Line}

/-! ## Imports -/

/-- The target of an import is in the text where it is said to be, and the import is a part of the text. Its alias is an
identifier. -/
structure Import.Located (cs : List Char) (i : Import) : Prop where
  span : i.span.Fits cs
  target : i.targetSpan.Holds cs i.target.toList
  isIdentifier : ∀ q, i.qualifier = some q → isIdentifier q.toList = true

theorem isNameOf_of_splitName? {rest : Char → Bool} {name after : List Char} (h : splitName? rest xs = some (name, after)) :
    isNameOf rest name = true := by
  cases xs with
  | nil => cases h
  | cons c xs =>
    simp only [splitName?] at h
    split at h
    · next hstart =>
      obtain ⟨rfl, -⟩ := Prod.mk.inj (Option.some.inj h)
      rw [isNameOf, hstart, Bool.true_and, List.all_eq_true]
      exact fun d hd => List.mem_takeWhile_imp hd
    · cases h

theorem isIdentifier_of_qualifier? {q : String} (h : qualifier? xs = some (some q)) : isIdentifier q.toList = true := by
  unfold qualifier? at h
  dsimp only at h
  split at h
  · cases h
  · split at h
    · split at h
      · next name _ _ hname =>
        split at h
        · obtain rfl := Option.some.inj (Option.some.inj h)
          rw [String.toList_ofList]
          exact isNameOf_of_splitName? hname
        · cases h
      · cases h
    · cases h

theorem append_splitLink? {link : LinkParts} (h : splitLink? xs = some link) :
    xs = ('[' :: (link.label ++ [']', '('])) ++ link.target ++ ')' :: link.after := by
  unfold splitLink? at h
  split at h
  · next rest =>
    split at h
    · next rest' hlabel =>
      split at h
      · next after htarget =>
        obtain rfl := Option.some.inj h
        have hrest := List.takeWhile_append_dropWhile (p := (· != ']')) (l := rest)
        have hrest' := List.takeWhile_append_dropWhile (p := (· != ')')) (l := rest')
        rw [hlabel] at hrest
        rw [htarget] at hrest'
        calc '[' :: rest = '[' :: (rest.takeWhile (· != ']') ++ ']' :: '(' :: rest') := congrArg ('[' :: ·) hrest.symm
          _ = '[' :: (rest.takeWhile (· != ']') ++ ']' :: '(' :: (rest'.takeWhile (· != ')') ++ ')' :: after)) :=
            congrArg (fun t => '[' :: (rest.takeWhile (· != ']') ++ ']' :: '(' :: t)) hrest'.symm
          _ = _ := by simp
      · cases h
    · cases h
  · cases h

theorem readImport_located (hl : Stands cs l.start l.raw) {inHeader : Bool} {i : Import}
    (h : readImport l inHeader = .ok i) : i.Located cs ∧ i.span = contentSpan l := by
  have hcontent := hl.content
  have hfits : (contentSpan l).Fits cs := (Span.holds_ofSize hcontent).fits
  unfold readImport at h
  dsimp only at h
  split at h
  · cases h
  · next link hlink =>
    split at h
    · cases h
    · next qualifier hqualifier =>
      split at h
      · cases h
      · obtain rfl := Except.ok.inj h
        rw [append_splitLink? hlink] at hcontent
        have hmarks : byteSize ('[' :: (link.label ++ [']', '('])) = byteSize link.label + 3 := by
          have hopen : ('[' : Char).utf8Size = 1 := rfl
          have hmiddle : byteSize [']', '('] = 2 := rfl
          rw [Text.byteSize_cons, Text.byteSize_append, hopen, hmiddle]
          omega
        have htarget := hcontent.middle.trim
        rw [hmarks, ← Nat.add_assoc] at htarget
        refine ⟨⟨hfits, ?_, fun q hq => ?_⟩, rfl⟩
        · show Span.Holds cs (Span.ofSize _ _) (String.ofList _).toList
          rw [String.toList_ofList]
          exact Span.holds_ofSize htarget
        · have hq' : qualifier = some q := hq
          rw [hq'] at hqualifier
          exact isIdentifier_of_qualifier? hqualifier

theorem readImport_fit (hl : Stands cs l.start l.raw) {inHeader : Bool} {finding : Diagnostic}
    (h : readImport l inHeader = .error finding) : finding.span.Fits cs := by
  have hfits : (contentSpan l).Fits cs := (Span.holds_ofSize hl.content).fits
  unfold readImport at h
  dsimp only at h
  split at h
  · cases h
    exact hfits
  · split at h
    · cases h
      exact hfits
    · split at h
      · cases h
        exact hfits
      · cases h

/-! ## Headers -/

/-- A header holds the name and the text between its parentheses at the distances that are told. -/
theorem append_splitHeader? {parts : HeaderParts} (h : splitHeader? xs = some parts) :
    (∃ before after, xs = before ++ parts.name ++ after ∧ byteSize before = parts.namePlace) ∧
      (parts.group = [] ∨ ∃ before after, xs = before ++ parts.group ++ after ∧ byteSize before = parts.groupPlace) := by
  unfold splitHeader? at h
  split at h
  · next rest =>
    dsimp only at h
    split at h
    · cases h
    · next name after hname =>
      have hhash : ('#' : Char).utf8Size = 1 := rfl
      have hopen : ('(' : Char).utf8Size = 1 := rfl
      have hsplit : '#' :: rest = ('#' :: (splitBlanks rest).1) ++ name ++ after := by
        rw [List.append_assoc, append_of_splitName? hname, List.cons_append, splitBlanks_append]
      have hplace : byteSize ('#' :: (splitBlanks rest).1) = 1 + byteSize (splitBlanks rest).1 := rfl
      split at h
      · obtain rfl := Option.some.inj h
        exact ⟨⟨_, after, hsplit, hplace⟩, Or.inl rfl⟩
      · next inside hgap =>
        split at h
        · next behind hclose =>
          split at h
          · obtain rfl := Option.some.inj h
            refine ⟨⟨_, after, hsplit, hplace⟩, Or.inr ⟨('#' :: (splitBlanks rest).1) ++ name ++
              ((splitBlanks after).1 ++ ['(']), ')' :: behind, ?_, ?_⟩⟩
            · have hgroup := List.takeWhile_append_dropWhile (p := fun c => c != '(' && c != ')') (l := inside)
              have hafter := splitBlanks_append after
              rw [hclose] at hgroup
              rw [hgap, ← hgroup] at hafter
              rw [hsplit]
              conv_lhs => rw [← hafter]
              simp only [List.append_assoc, List.cons_append, List.nil_append]
            · simp only [Text.byteSize_append, Text.byteSize_cons, Text.byteSize_nil, hhash, hopen]
              omega
          · cases h
        · cases h
      · cases h
  · cases h

theorem piecesFrom_stands (h : Stands cs start xs) : ∀ piece ∈ piecesFrom start xs, Stands cs piece.1 piece.2 := by
  fun_induction piecesFrom start xs with
  | case1 start xs piece hdrop =>
    rw [← Text.takeWhile_ne_eq_self hdrop] at h
    exact List.forall_mem_singleton.2 h
  | case2 start xs piece c rest hdrop ih =>
    obtain ⟨rfl, hsplit⟩ := Text.takeWhile_ne_append hdrop
    rw [← hsplit] at h
    exact List.forall_mem_cons.2 ⟨h.left, ih h.right.tail⟩

theorem readParameter_holds {piece : Nat × List Char} {p : Parameter} (hpiece : Stands cs piece.1 piece.2)
    (h : readParameter piece = .ok p) : p.span.Holds cs p.name.toList := by
  unfold readParameter at h
  dsimp only at h
  split at h
  · obtain rfl := Except.ok.inj h
    show Span.Holds cs (Span.ofSize _ _) (String.ofList _).toList
    rw [String.toList_ofList]
    exact Span.holds_ofSize hpiece.trim
  · split at h <;> cases h

/-- What is read from the members of a list is read from one of them each. -/
theorem exists_of_mem_mapM {α β ε : Type} {f : α → Except ε β} {as : List α} {bs : List β} (h : as.mapM f = .ok bs) :
    ∀ b ∈ bs, ∃ a ∈ as, f a = .ok b := by
  induction as generalizing bs with
  | nil =>
    obtain rfl := Except.ok.inj h
    exact fun b hb => absurd hb List.not_mem_nil
  | cons a as ih =>
    rw [List.mapM_cons] at h
    cases hfirst : f a with
    | error e =>
      rw [hfirst] at h
      cases h
    | ok b =>
      rw [hfirst] at h
      cases hrest : as.mapM f with
      | error e =>
        rw [hrest] at h
        cases h
      | ok bs' =>
        rw [hrest] at h
        obtain rfl := Except.ok.inj h
        refine List.forall_mem_cons.2 ⟨⟨a, List.mem_cons_self, hfirst⟩, fun b' hb' => ?_⟩
        obtain ⟨a', ha', hread⟩ := ih hrest b' hb'
        exact ⟨a', List.mem_cons_of_mem a ha', hread⟩

/-- Names in a header are in the text where they are said to be. -/
structure Header.Located (cs : List Char) (h : Header) : Prop where
  name : h.nameSpan.Holds cs h.name.toList
  parameters : ∀ p ∈ h.parameters, p.span.Holds cs p.name.toList

theorem readHeader_located (hl : Stands cs l.start l.raw) {header : Header} (h : readHeader l = .ok header) :
    header.Located cs := by
  have hcontent := hl.content
  unfold readHeader at h
  dsimp only at h
  split at h
  · cases h
  · next parts hparts =>
    obtain ⟨⟨before, after, hname, hplace⟩, hgroup⟩ := append_splitHeader? hparts
    split at h
    · cases h
    · next parameters hread =>
      obtain rfl := Except.ok.inj h
      refine ⟨?_, fun p hp => ?_⟩
      · rw [hname] at hcontent
        show Span.Holds cs (Span.ofSize _ _) (String.ofList _).toList
        rw [String.toList_ofList, ← hplace]
        exact Span.holds_ofSize hcontent.middle
      · obtain ⟨piece, hmem, hparameter⟩ := exists_of_mem_mapM hread p hp
        split at hmem
        · exact absurd hmem List.not_mem_nil
        · next hblank =>
          rcases hgroup with hnone | ⟨before', after', hinside, hgroupPlace⟩
          · rw [hnone] at hblank
            exact absurd rfl hblank
          · rw [hinside] at hcontent
            rw [← hgroupPlace] at hmem
            exact readParameter_holds (piecesFrom_stands hcontent.middle piece hmem) hparameter

theorem readHeader_fit (hl : Stands cs l.start l.raw) {finding : Diagnostic} (h : readHeader l = .error finding) :
    finding.span.Fits cs := by
  have hfits : (contentSpan l).Fits cs := (Span.holds_ofSize hl.content).fits
  unfold readHeader at h
  dsimp only at h
  split at h
  · cases h
    exact hfits
  · split at h
    · cases h
      exact hfits
    · cases h

/-! ## Templates -/

theorem Grouped.boundary {items : List BodyItem} (h : Grouped cs hi lo items) :
    ∀ item ∈ items, Text.isBoundary cs item.stop = true := by
  induction h with
  | nil => exact fun _ hmem => absurd hmem List.not_mem_nil
  | @cons lo item items hplaced _ _ _ ih =>
    refine List.forall_mem_cons.2 ⟨?_, ih⟩
    cases item with
    | bullet start text => exact Stands.stop_isBoundary hplaced
    | stray span => exact Span.Fits.stop hplaced

theorem bulletBody_kind (items : List BodyItem) : ∀ b, (bulletBody items).1 ≠ .structured b := by
  intro b h
  have hbody : ∀ d : Draft, d.body ≠ .structured b := by
    intro d
    cases d <;> exact Body.noConfusion
  exact hbody _ h

/-- The body of a template, read from the lines below its header; one without anything in it ends with the header. -/
theorem readBody_read {stop : Nat} (h : Consecutive cs ls) (hlo : ∀ l ∈ ls, lo ≤ l.start) (hhi : ∀ l ∈ ls, l.rawStop ≤ hi)
    (hboundary : Text.isBoundary cs stop = true) (hle : lo ≤ stop) (hstop : stop ≤ hi) :
    BodyRead cs lo hi (readBody ls).1 ((readBody ls).2.1.getD stop) (readBody ls).2.2 := by
  unfold readBody
  split
  · exact ⟨⟨.nil, fun s hs => absurd hs List.not_mem_nil⟩, (fun b hb => by cases hb), hboundary, hle, hstop, .nil⟩
  · next first rest hfirst =>
    have hsplit := List.takeWhile_append_dropWhile (p := isSilent) (l := ls)
    rw [hfirst] at hsplit
    have hmem : ∀ l ∈ first :: rest, l ∈ ls := fun l hl => hsplit ▸ List.mem_append_right _ hl
    split
    · rw [← hsplit] at h
      exact structuredBody_read h.right (hlo first (hmem first List.mem_cons_self)) fun l hl => hhi l (hmem l hl)
    · have hgrouped := groupLines_grouped h hlo hhi
      show BodyRead cs lo hi (bulletBody (groupLines ls)).1 (((groupLines ls).map BodyItem.stop).max?.getD stop)
        (bulletBody (groupLines ls)).2
      -- The greatest of the stops is the stop of one group, and no group passes it.
      cases hmax : ((groupLines ls).map BodyItem.stop).max? with
      | none =>
        have hitems : groupLines ls = [] := by simpa using hmax
        obtain ⟨hplaced, hfit⟩ := bulletBody_placed (hgrouped.of_stop_le (by simp [hitems])) hle
        exact ⟨hplaced, fun b hb => absurd hb (bulletBody_kind _ b), hboundary, hle, hstop, hfit⟩
      | some last =>
        obtain ⟨hlast, hall⟩ := List.max?_eq_some_iff.1 hmax
        obtain ⟨item, hitem, rfl⟩ := List.mem_map.1 hlast
        obtain ⟨hloItem, hhiItem⟩ := hgrouped.le_stop item hitem
        have hbelow : ∀ other ∈ groupLines ls, other.stop ≤ item.stop := fun other hother =>
          hall _ (List.mem_map_of_mem hother)
        obtain ⟨hplaced, hfit⟩ := bulletBody_placed (hgrouped.of_stop_le hbelow) hloItem
        exact ⟨hplaced, fun b hb => absurd hb (bulletBody_kind _ b), hgrouped.boundary item hitem, hloItem, hhiItem, hfit⟩

/-- What a template names is in the text where it is said to be, and everything in its body lies inside its span. -/
structure Template.Located (cs : List Char) (t : Template) : Prop where
  name : t.nameSpan.Holds cs t.name.toList
  parameters : ∀ p ∈ t.parameters, p.span.Holds cs p.name.toList
  span : t.span.Fits cs
  lines : ∀ l ∈ t.body.textLines, l.span.Holds cs l.text.toList ∧ t.span.Covers l.span
  segments : ∀ s ∈ t.segments, s.Located cs ∧ t.span.Covers s.span
  references : ∀ r ∈ t.references, r.Located cs ∧ t.span.Covers r.span
  branches : ∀ s ∈ t.body.branchSpans, s.Fits cs ∧ t.span.Covers s
  structured : ∀ b, t.body = .structured b → b.Located cs
  segmentsOrdered : t.segments.Pairwise fun s s' => s.span.Before s'.span
  referencesOrdered : t.references.Pairwise fun r r' => r.span.Before r'.span
  separate : ∀ s ∈ t.segments, ∀ r ∈ t.references, s.span.Before r.span ∨ r.span.Before s.span

/-- Segments that stand in the text one behind the other are in the order of the text already. -/
theorem Template.segments_eq {t : Template} (h : t.body.keptSegments.Pairwise fun s s' => s.span.Before s'.span) :
    t.segments = t.body.keptSegments := by
  refine List.mergeSort_of_pairwise (h.imp ?_)
  intro s s' hbefore
  have hspan := s.span.start_le_stop
  exact decide_eq_true (Nat.le_trans hspan hbefore)

theorem readBody_read_below (h : Consecutive cs (l :: ls)) (hhi : ∀ m ∈ l :: ls, m.rawStop ≤ hi) :
    BodyRead cs l.contentStart hi (readBody ls).1 ((readBody ls).2.1.getD l.stop) (readBody ls).2.2 := by
  obtain ⟨hl, hrest⟩ := List.forall_mem_cons.1 hhi
  have hstop := l.contentStart_le_stop
  have hend := l.stop_le_rawStop
  have hbelow : ∀ m ∈ ls, l.contentStart ≤ m.start := by
    intro m hm
    have hlt := h.rawStop_lt m hm
    omega
  exact readBody_read h.tail hbelow hrest h.head.text.stop_isBoundary hstop (Nat.le_trans hend hl)

/-- A template ends before whatever lies behind all its lines. -/
theorem templateOf_stop_le (h : Consecutive cs (l :: ls)) (hhi : ∀ m ∈ l :: ls, m.rawStop ≤ hi) (header : Header)
    (doc : List String) : (templateOf l header doc ls).1.span.stop ≤ hi := by
  have hread := readBody_read_below h hhi
  show max l.contentStart ((readBody ls).2.1.getD l.stop) ≤ hi
  rw [Nat.max_eq_right hread.le_stop]
  exact hread.stop_le

theorem templateOf_located (h : Consecutive cs (l :: ls)) {header : Header} (hheader : header.Located cs)
    (doc : List String) : (templateOf l header doc ls).1.Located cs ∧ FindingsFit cs (templateOf l header doc ls).2 := by
  have hread := readBody_read_below h fun m hm => (h.stands m hm).le_byteSize
  obtain ⟨hkept, hbranches⟩ := hread.placed
  have hcovers : ∀ s, Within l.contentStart ((readBody ls).2.1.getD l.stop) s →
      (Span.between l.contentStart ((readBody ls).2.1.getD l.stop)).Covers s := by
    rintro s ⟨hlo, hhi⟩
    exact ⟨hlo, Nat.le_trans hhi (Nat.le_max_right _ _)⟩
  have hsegments : (templateOf l header doc ls).1.segments = (readBody ls).1.keptSegments :=
    Template.segments_eq hkept.segments_ordered
  refine ⟨{
    name := hheader.name
    parameters := hheader.parameters
    span := Span.fits_between h.head.content.isBoundary hread.boundary
    lines := fun t ht => ⟨(hkept.texts t ht).1, hcovers t.span (hkept.texts t ht).2⟩
    segments := fun s hs => ?_
    references := fun r hr => ?_
    branches := fun s hs => ⟨(hbranches s hs).1, hcovers s (hbranches s hs).2⟩
    structured := hread.structured
    segmentsOrdered := ?_
    referencesOrdered := hkept.references_ordered
    separate := ?_ }, hread.findings⟩
  · rw [hsegments] at hs
    obtain ⟨hlocated, hwithin⟩ := hkept.segments_located s hs
    exact ⟨hlocated, hcovers s.span hwithin⟩
  · obtain ⟨hlocated, hwithin⟩ := hkept.references_located r hr
    exact ⟨hlocated, hcovers r.span hwithin⟩
  · rw [hsegments]
    exact hkept.segments_ordered
  · rw [hsegments]
    exact hkept.separate

/-! ## Files -/

/-- Everything read from a text is in it where it is said to be, and imports and templates do not touch. -/
structure Parsed.Located (cs : List Char) (p : Parsed) : Prop where
  imports : ∀ i ∈ p.file.imports, i.Located cs
  templates : ∀ t ∈ p.file.templates, t.Located cs
  importsOrdered : p.file.imports.Pairwise fun i j => i.span.stop < j.span.start
  templatesOrdered : p.file.templates.Pairwise fun t u => t.span.stop < u.span.start
  separate : ∀ i ∈ p.file.imports, ∀ t ∈ p.file.templates, i.span.stop < t.span.start ∨ t.span.stop < i.span.start
  findings : FindingsFit cs p.diagnostics

/-- What is read from lines that begin at some offset or behind it. -/
structure Parsed.Placed (cs : List Char) (lo : Nat) (p : Parsed) : Prop extends p.Located cs where
  imports_start : ∀ i ∈ p.file.imports, lo ≤ i.span.start
  templates_start : ∀ t ∈ p.file.templates, lo ≤ t.span.start

namespace Parsed.Placed

variable {p : Parsed} {i : Import} {t : Template} {findings : List Diagnostic}

theorem empty : Parsed.empty.Placed cs lo where
  imports := fun _ h => absurd h List.not_mem_nil
  templates := fun _ h => absurd h List.not_mem_nil
  importsOrdered := .nil
  templatesOrdered := .nil
  separate := fun _ h => absurd h List.not_mem_nil
  findings := .nil
  imports_start := fun _ h => absurd h List.not_mem_nil
  templates_start := fun _ h => absurd h List.not_mem_nil

theorem after (h : p.Placed cs lo) (hfindings : FindingsFit cs findings) : (p.after findings).Placed cs lo :=
  { h with findings := hfindings.append h.findings }

theorem consImport (h : p.Placed cs mid) (hi : i.Located cs) (hlo : lo ≤ i.span.start) (hmid : i.span.stop < mid) :
    (p.consImport i).Placed cs lo := by
  have hspan := i.span.start_le_stop
  refine {
    h with
    imports := List.forall_mem_cons.2 ⟨hi, h.imports⟩
    importsOrdered := List.pairwise_cons.2 ⟨fun j hj => ?_, h.importsOrdered⟩
    separate := List.forall_mem_cons.2 ⟨fun t ht => Or.inl ?_, h.separate⟩
    imports_start := List.forall_mem_cons.2 ⟨hlo, fun j hj => ?_⟩
    templates_start := fun t ht => ?_ }
  · have hj := h.imports_start j hj
    omega
  · have ht := h.templates_start t ht
    omega
  · have hj := h.imports_start j hj
    omega
  · have ht := h.templates_start t ht
    omega

theorem consTemplate (h : p.Placed cs mid) (ht : t.Located cs) (hlo : lo ≤ t.span.start) (hmid : t.span.stop < mid) :
    (p.consTemplate t).Placed cs lo := by
  have hspan := t.span.start_le_stop
  refine {
    h with
    templates := List.forall_mem_cons.2 ⟨ht, h.templates⟩
    templatesOrdered := List.pairwise_cons.2 ⟨fun u hu => ?_, h.templatesOrdered⟩
    separate := fun i hi => List.forall_mem_cons.2 ⟨Or.inr ?_, h.separate i hi⟩
    imports_start := fun i hi => ?_
    templates_start := List.forall_mem_cons.2 ⟨hlo, fun u hu => ?_⟩ }
  · have hu := h.templates_start u hu
    omega
  · have hi := h.imports_start i hi
    omega
  · have hi := h.imports_start i hi
    omega
  · have hu := h.templates_start u hu
    omega

end Parsed.Placed

theorem lateImport_fit {i : Import} (h : i.span.Fits cs) : FindingsFit cs (lateImport i) := by
  unfold lateImport
  split
  · exact .nil
  · exact .singleton h

/-- The lines of a body and the comments at their end make up the lines they were split from. -/
theorem append_splitTrailingComments {bodyLines comments : List Line} (h : splitTrailingComments ls = (bodyLines, comments)) :
    bodyLines ++ comments = ls := by
  obtain ⟨rfl, rfl⟩ := Prod.mk.inj h
  rw [← List.reverse_append, List.takeWhile_append_dropWhile, List.reverse_reverse]

/-- The lines of a template come first, then the comments at the end of its body, then what is read next. -/
theorem append_bodyLines {bodyLines comments : List Line}
    (h : splitTrailingComments (ls.takeWhile (!isBoundary ·)) = (bodyLines, comments)) :
    l :: ls = (l :: bodyLines) ++ (comments ++ ls.dropWhile (!isBoundary ·)) := by
  rw [List.cons_append, ← List.append_assoc, append_splitTrailingComments h, List.takeWhile_append_dropWhile]

/-- Reading lines that stand one below the other: what is read from the first of them ends before the others begin. -/
theorem parseLines_placed (seenTemplate : Bool) (doc : List String) (h : Consecutive cs ls)
    (hlo : ∀ l ∈ ls, lo ≤ l.start) : (parseLines seenTemplate doc ls).Placed cs lo := by
  have hbelow : ∀ {l : Line} {rest : List Line} {lo : Nat}, (∀ m ∈ l :: rest, lo ≤ m.start) →
      ∀ m ∈ rest.dropWhile (!isBoundary ·), lo ≤ m.start := by
    intro l rest lo hlines m hm
    exact hlines m (List.mem_cons_of_mem l ((List.dropWhile_sublist _).subset hm))
  fun_induction parseLines seenTemplate doc ls generalizing lo with
  | case1 => exact .empty
  | case2 _ _ l rest _ _ ih => exact ih h.tail (List.forall_mem_cons.1 hlo).2
  | case3 _ _ l rest _ _ ih => exact ih h.tail (List.forall_mem_cons.1 hlo).2
  | case4 _ _ l rest _ _ finding hread ih =>
    exact (ih h.tail (List.forall_mem_cons.1 hlo).2).after (.singleton (readImport_fit h.head hread))
  | case5 _ _ l rest _ _ i hread ih =>
    obtain ⟨hi, hspan⟩ := readImport_located h.head hread
    have hl := hlo l List.mem_cons_self
    have hstart := l.start_le_contentStart
    have hstop := l.contentStop_le_rawStop
    have hrest : ∀ m ∈ rest, l.rawStop + 1 ≤ m.start := h.rawStop_lt
    refine ((ih h.tail hrest).consImport hi ?_ ?_).after (lateImport_fit hi.span)
    · rw [hspan]
      exact Nat.le_trans hl hstart
    · rw [hspan]
      exact Nat.lt_succ_of_le hstop
  | case6 _ _ l rest _ _ finding hread ih =>
    exact (ih (h.tail.dropWhile _) (hbelow hlo)).after (.singleton (readHeader_fit h.head hread))
  | case7 _ doc l rest _ _ header hread bodyLines comments hbody template findings htemplate ih =>
    have hown := h
    rw [append_bodyLines hbody] at hown
    -- Every line of the template ends before the lines that are read next begin.
    have hnext : ∀ m ∈ rest.dropWhile (!isBoundary ·), template.span.stop + 1 ≤ m.start := by
      intro m hm
      have hends : ∀ n ∈ l :: bodyLines, n.rawStop < m.start := by
        intro n hn
        exact (List.pairwise_append.1 hown.pairwise).2.2 n hn m (List.mem_append_right comments hm)
      have hle := templateOf_stop_le hown.left (fun n hn => Nat.le_sub_one_of_lt (hends n hn)) header doc
      rw [htemplate] at hle
      have hpos := hends l List.mem_cons_self
      have hstop : template.span.stop ≤ m.start - 1 := hle
      omega
    have hmade := templateOf_located hown.left (readHeader_located h.head hread) doc
    have hplace : template.span.start = l.contentStart := by
      have hspan : (templateOf l header doc bodyLines).1.span.start = l.contentStart := rfl
      rwa [htemplate] at hspan
    rw [htemplate] at hmade
    refine ((ih (h.tail.dropWhile _) hnext).consTemplate hmade.1 ?_ (Nat.lt_succ_self _)).after hmade.2
    rw [hplace]
    exact Nat.le_trans (hlo l List.mem_cons_self) l.start_le_contentStart
  | case8 _ _ l rest _ _ ih =>
    exact (ih (h.tail.dropWhile _) (hbelow hlo)).after (.singleton (Span.holds_ofSize h.head.content).fits)
  | case9 _ _ l rest _ _ ih =>
    exact (ih (h.tail.dropWhile _) (hbelow hlo)).after (.singleton (Span.holds_ofSize h.head.content).fits)

theorem parse_placed (text : String) : (parse text).Placed text.toList 0 :=
  parseLines_placed false [] (Text.consecutive_lines text.toList) fun _ _ => Nat.zero_le _

/-- **Reading a file locates everything it yields.** -/
theorem parse_located (text : String) : (parse text).Located text.toList :=
  (parse_placed text).toLocated

end LgLang.Syntax
