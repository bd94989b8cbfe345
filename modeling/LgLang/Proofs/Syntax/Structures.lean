import LgLang.Syntax.StructuredBody
import LgLang.Proofs.Syntax.Bodies

/-!
# Where the parts of a structured body stand

The lines of a structured body are read one by one: keys and values stand where their lines do, and the body ends with
the last line that belongs to it (`StructureDraft.Placed`). The type name stands behind the opening bracket
(`structuredBody_read`).
-/

namespace LgLang.Syntax

open Text (Stands Line Consecutive byteSize isBlank)

variable {cs : List Char} {lo hi stop : Nat} {l opening : Line} {ls : List Line}

/-! ## Parts of lines -/

theorem splitBlanks_append (cs : List Char) : (splitBlanks cs).1 ++ (splitBlanks cs).2 = cs :=
  List.takeWhile_append_dropWhile

/-- A type name stands behind the opening bracket, at the distance that is told. -/
theorem exists_append_of_splitOpening? {name : List Char} {place : Nat} {closed : Bool}
    (h : splitOpening? cs = some (name, place, closed)) :
    ∃ before after, cs = before ++ name ++ after ∧ byteSize before = place := by
  unfold splitOpening? at h
  split at h
  · next rest =>
    dsimp only at h
    split at h
    · cases h
    · next name' after hname =>
      have hsplit := splitBlanks_append rest
      rw [← append_of_splitName? hname, ← List.append_assoc] at hsplit
      have hbracket : byteSize ('[' :: (splitBlanks rest).1) = 1 + byteSize (splitBlanks rest).1 := rfl
      have hfound : name = name' ∧ place = 1 + byteSize (splitBlanks rest).1 := by
        split at h
        · obtain ⟨rfl, hplace⟩ := Prod.mk.inj (Option.some.inj h)
          exact ⟨rfl, (Prod.mk.inj hplace).1.symm⟩
        · split at h
          · obtain ⟨rfl, hplace⟩ := Prod.mk.inj (Option.some.inj h)
            exact ⟨rfl, (Prod.mk.inj hplace).1.symm⟩
          · cases h
        · cases h
      obtain ⟨rfl, rfl⟩ := hfound
      exact ⟨'[' :: (splitBlanks rest).1, after, congrArg ('[' :: ·) hsplit.symm, hbracket⟩
  · cases h

/-- A property line begins with the key, and the value stands behind it at the distance that is told. -/
theorem exists_append_of_splitProperty? {key value : List Char} {place : Nat}
    (h : splitProperty? cs = some (key, value, place)) :
    ∃ between after, cs = key ++ between ++ value ++ after ∧ byteSize (key ++ between) = place := by
  unfold splitProperty? at h
  split at h
  · cases h
  · next key' after hname =>
    dsimp only at h
    split at h
    · next rest hequals =>
      obtain ⟨rfl, hfound⟩ := Prod.mk.inj (Option.some.inj h)
      obtain ⟨rfl, rfl⟩ := Prod.mk.inj hfound
      obtain ⟨blanks, hvalue, -⟩ := Text.exists_trimEnd_append (splitBlanks rest).2
      have hafter : after = (splitBlanks after).1 ++ '=' :: rest := by
        rw [← hequals, splitBlanks_append]
      have hrest : rest = (splitBlanks rest).1 ++ (Text.trimEnd (splitBlanks rest).2 ++ blanks) := by
        rw [← hvalue, splitBlanks_append]
      have hsign : ('=' : Char).utf8Size = 1 := rfl
      refine ⟨(splitBlanks after).1 ++ '=' :: (splitBlanks rest).1, blanks, ?_, ?_⟩
      · calc cs = key' ++ after := (append_of_splitName? hname).symm
          _ = key' ++ ((splitBlanks after).1 ++ '=' :: rest) := congrArg (key' ++ ·) hafter
          _ = key' ++ ((splitBlanks after).1 ++ '=' ::
                ((splitBlanks rest).1 ++ (Text.trimEnd (splitBlanks rest).2 ++ blanks))) :=
              congrArg (fun t => key' ++ ((splitBlanks after).1 ++ '=' :: t)) hrest
          _ = _ := by simp only [List.append_assoc, List.cons_append]
      · simp only [Text.byteSize_append, Text.byteSize_cons, hsign]
        omega
    · cases h

/-! ## Reading the lines of the body -/

/-- The keys of a structured body, and its type name if there is one, are in the text where they are said to be. -/
structure StructuredBody.Located (cs : List Char) (b : StructuredBody) : Prop where
  keys : ∀ p ∈ b.properties, p.keySpan.Holds cs p.key.toList
  typeFits : b.typeSpan.Fits cs
  typeName : b.typeName ≠ "" → b.typeSpan.Holds cs b.typeName.toList

namespace StructureDraft

variable {d : StructureDraft}

/-- The properties read so far stand in the text, up to the end of the last line that belongs to the body. -/
structure Placed (cs : List Char) (lo : Nat) (d : StructureDraft) : Prop where
  kept : Kept cs lo d.stop (d.properties.map (·.value)) (d.properties.flatMap (·.value.segments))
  keys : ∀ p ∈ d.properties, p.keySpan.Holds cs p.key.toList
  boundary : Text.isBoundary cs d.stop = true
  le_stop : lo ≤ d.stop

theorem Placed.moveTo (h : d.Placed cs lo) (hle : d.stop ≤ stop) (hboundary : Text.isBoundary cs stop = true)
    (closed : Bool) : Placed cs lo { d with stop, closed } :=
  ⟨h.kept.mono (Nat.le_refl lo) hle, h.keys, hboundary, Nat.le_trans h.le_stop hle⟩

theorem addProperty_placed (h : d.Placed cs lo) (hl : Stands cs l.start l.raw) (hstop : d.stop ≤ l.contentStart) :
    ((({ d with stop := l.contentStop }) : StructureDraft).addProperty l).1.Placed cs lo ∧
      FindingsFit cs ((({ d with stop := l.contentStop }) : StructureDraft).addProperty l).2 := by
  have hcontent := hl.content
  have hmoved : Placed cs lo { d with stop := l.contentStop } :=
    h.moveTo (Nat.le_trans hstop l.contentStart_le_contentStop) hcontent.stop_isBoundary d.closed
  simp only [addProperty]
  split
  · exact ⟨hmoved, .singleton (Span.holds_ofSize hcontent).fits⟩
  · next key value place hproperty =>
    obtain ⟨between, after, hsplit, rfl⟩ := exists_append_of_splitProperty? hproperty
    have hend : l.contentStop = l.contentStart + byteSize l.content := rfl
    rw [hsplit] at hcontent
    have hkey : Stands cs l.contentStart key := hcontent.left.left.left
    have hvalue : Stands cs (l.contentStart + byteSize (key ++ between)) value := hcontent.middle
    have hkeySpan := Span.holds_ofSize hkey
    refine ⟨⟨?_, ?_, hmoved.boundary, hmoved.le_stop⟩, .append ?_ (textDiagnostics_fit hvalue)⟩
    · rw [List.map_append, List.flatMap_append, List.map_singleton, List.flatMap_singleton]
      refine h.kept.append ((Kept.ofText hvalue).mono ?_ ?_) h.le_stop ?_
      · omega
      · rw [hend, congrArg byteSize hsplit]
        simp only [Text.byteSize_append]
        omega
      · show d.stop ≤ l.contentStop
        rw [hend]
        omega
    · refine List.forall_mem_append.2 ⟨h.keys, List.forall_mem_singleton.2 ?_⟩
      show (Span.ofSize l.contentStart (byteSize key)).Holds cs (String.ofList key).toList
      rwa [String.toList_ofList]
    · split
      · exact .singleton hkeySpan.fits
      · exact .nil

theorem add_placed (h : d.Placed cs lo) (hl : Stands cs l.start l.raw) (hstop : d.stop ≤ l.start) :
    (d.add l).1.Placed cs lo ∧ FindingsFit cs (d.add l).2 := by
  have hcontent := hl.content
  have hstart := l.start_le_contentStart
  simp only [add]
  split
  · exact ⟨h, .nil⟩
  · split
    · exact ⟨h, .singleton (Span.holds_ofSize hcontent).fits⟩
    · split
      · have hle := l.contentStart_le_contentStop
        exact ⟨h.moveTo (by omega) hcontent.stop_isBoundary true, .nil⟩
      · exact addProperty_placed h hl (Nat.le_trans hstop hstart)

theorem addProperty_stop (d : StructureDraft) (l : Line) : (d.addProperty l).1.stop = d.stop := by
  simp only [addProperty]
  split <;> rfl

/-- The body ends where it did or with the line. -/
theorem add_stop (d : StructureDraft) (l : Line) : (d.add l).1.stop = d.stop ∨ (d.add l).1.stop = l.contentStop := by
  simp only [add]
  split
  · exact Or.inl rfl
  · split
    · exact Or.inl rfl
    · split
      · exact Or.inr rfl
      · exact Or.inr (addProperty_stop _ l)

theorem addAll_placed (h : d.Placed cs lo) (hls : Consecutive cs ls) (hstop : ∀ l ∈ ls, d.stop ≤ l.start) :
    (d.addAll ls).1.Placed cs lo ∧ FindingsFit cs (d.addAll ls).2 := by
  induction ls generalizing d with
  | nil => exact ⟨h, .nil⟩
  | cons l ls ih =>
    obtain ⟨hl, hrest⟩ := List.forall_mem_cons.1 hstop
    obtain ⟨hnext, hfit⟩ := add_placed h hls.head hl
    have hbelow : ∀ m ∈ ls, (d.add l).1.stop ≤ m.start := by
      intro m hm
      have hm' := hls.rawStop_lt m hm
      have hcontent := l.contentStop_le_rawStop
      have hold := hrest m hm
      rcases add_stop d l with hsame | hmoved <;> omega
    obtain ⟨hfinal, hmore⟩ := ih hnext hls.tail hbelow
    exact ⟨hfinal, hfit.append hmore⟩

theorem addAll_stop_le (hd : d.stop ≤ hi) (hls : ∀ l ∈ ls, l.rawStop ≤ hi) : (d.addAll ls).1.stop ≤ hi := by
  induction ls generalizing d with
  | nil => exact hd
  | cons l ls ih =>
    obtain ⟨hl, hrest⟩ := List.forall_mem_cons.1 hls
    have hcontent := l.contentStop_le_rawStop
    have hnext : (d.add l).1.stop ≤ hi := by
      rcases add_stop d l with hsame | hmoved <;> omega
    exact ih hnext hrest

end StructureDraft

/-! ## Bodies with the offset just past them -/

/-- A body read from lines between two offsets, the offset just past it, and the findings about it. -/
structure BodyRead (cs : List Char) (lo hi : Nat) (body : Body) (stop : Nat) (findings : List Diagnostic) : Prop where
  placed : body.Placed cs lo stop
  structured : ∀ b, body = .structured b → b.Located cs
  boundary : Text.isBoundary cs stop = true
  le_stop : lo ≤ stop
  stop_le : stop ≤ hi
  findings : FindingsFit cs findings

/-- **The parts of a structured body stand in the text, in order.** -/
theorem structuredBody_read (h : Consecutive cs (opening :: ls)) (hlo : lo ≤ opening.start)
    (hhi : ∀ l ∈ opening :: ls, l.rawStop ≤ hi) :
    BodyRead cs lo hi (structuredBody opening ls).1 (structuredBody opening ls).2.1 (structuredBody opening ls).2.2 := by
  obtain ⟨hopening, hrest⟩ := List.forall_mem_cons.1 hhi
  have hcontent := h.head.content
  have hstart := opening.start_le_contentStart
  have hstop := opening.contentStart_le_contentStop
  have hend := opening.contentStop_le_rawStop
  have hwhole : (contentSpan opening).Fits cs := (Span.holds_ofSize hcontent).fits
  have hbelow : ∀ l ∈ ls, (contentSpan opening).stop ≤ l.start := by
    intro l hl
    have hlt := h.rawStop_lt l hl
    show opening.contentStop ≤ l.start
    omega
  -- Whether the opening line closes the body makes no difference to where its lines stand.
  have hlines : ∀ closed, (StructureDraft.addAll ⟨closed, (contentSpan opening).stop, []⟩ ls).1.Placed cs lo ∧
      FindingsFit cs (StructureDraft.addAll ⟨closed, (contentSpan opening).stop, []⟩ ls).2 := by
    intro closed
    refine StructureDraft.addAll_placed ⟨.nil, fun _ hp => absurd hp List.not_mem_nil, hwhole.stop, ?_⟩ h.tail hbelow
    show lo ≤ opening.contentStop
    omega
  have hlast : ∀ closed, (StructureDraft.addAll ⟨closed, (contentSpan opening).stop, []⟩ ls).1.stop ≤ hi := by
    intro closed
    exact StructureDraft.addAll_stop_le (Nat.le_trans hend hopening) hrest
  have hunclosed : ∀ closed : Bool, FindingsFit cs (if closed then []
      else [Diagnostic.error .unterminatedStructure (contentSpan opening)
        "structured body is missing its closing ']'"]) := by
    intro closed
    split
    · exact .nil
    · exact .singleton hwhole
  unfold structuredBody
  cases hsplit : splitOpening? opening.content with
  | none =>
    obtain ⟨hplaced, hfit⟩ := hlines false
    refine ⟨⟨hplaced.kept, fun s hs => absurd hs List.not_mem_nil⟩, ?_, hplaced.boundary, hplaced.le_stop,
      hlast false, .append (.append (.singleton hwhole) hfit) (hunclosed _)⟩
    rintro b hb
    obtain rfl := Body.structured.inj hb
    exact ⟨hplaced.keys, hwhole, fun hname => absurd rfl hname⟩
  | some found =>
    obtain ⟨name, place, closed⟩ := found
    obtain ⟨before, after, hname, rfl⟩ := exists_append_of_splitOpening? hsplit
    obtain ⟨hplaced, hfit⟩ := hlines closed
    rw [hname] at hcontent
    have htype := Span.holds_ofSize hcontent.middle
    refine ⟨⟨hplaced.kept, fun s hs => absurd hs List.not_mem_nil⟩, ?_, hplaced.boundary, hplaced.le_stop,
      hlast closed, .append (.append .nil hfit) (hunclosed _)⟩
    rintro b hb
    obtain rfl := Body.structured.inj hb
    refine ⟨hplaced.keys, htype.fits, fun _ => ?_⟩
    show (Span.ofSize (opening.contentStart + byteSize before) (byteSize name)).Holds cs (String.ofList name).toList
    rwa [String.toList_ofList]

end LgLang.Syntax
