import LgLang.Workspace.Documents
import LgLang.Proofs.Text.Position

/-!
# The copy of a document in the editor and the one in the server

An editor keeps a text of its own. When bytes of it are replaced, it tells the server the positions of both ends, as they
are in the text before the replacement, and the new text; the server finds the bytes again from the positions in its
copy. The two copies stay the same (`change_tell`), as long as no edit begins or ends behind a carriage return that ends
a line: the column of such a place is past the visible end of its line and is taken for this end.

Changes with other positions are safe all the same. Each of them replaces a part of the text that begins and ends at
character boundaries, or names a position that the text does not have, and then the whole batch is refused
(`change_rewrites_or_misses`).
-/

namespace LgLang.Workspace

open Text (byteSize isBoundary offset? position BehindReturn)

/-! ## Changes with any positions -/

/-- The text `new` comes from a change of the text `cs`: it stands in place of all of `cs`, or of the part between the two
positions. -/
inductive Change.Rewrites (cs : List Char) : Change → List Char → Prop where
  | whole (text : String) : Rewrites cs ⟨none, text⟩ text.toList
  | part {before old after : List Char} {r : Editor.Range} {stop : Nat} (text : String)
      (hcs : cs = before ++ old ++ after) (hstart : offset? cs r.start = some (byteSize before))
      (hstop : offset? cs r.stop = some stop) (hold : byteSize (before ++ old) = max (byteSize before) stop) :
      Rewrites cs ⟨some r, text⟩ (before ++ text.toList ++ after)

/-- A position of the change is not in the text. -/
def Change.Misses (c : Change) (cs : List Char) (p : Position) : Prop :=
  ∃ r, c.range = some r ∧ (p = r.start ∨ p = r.stop) ∧ offset? cs p = none

/-- Each of the changes rewrites the text that the one before it leaves. -/
inductive RewritesEach : List Char → List Change → List Char → Prop where
  | nil (cs : List Char) : RewritesEach cs [] cs
  | cons {cs mid new : List Char} {c : Change} {changes : List Change} (hfirst : c.Rewrites cs mid)
      (hrest : RewritesEach mid changes new) : RewritesEach cs (c :: changes) new

/-- A position of one of the changes is not in the text that the changes before it leave. -/
inductive MissesOne : List Char → List Change → Position → Prop where
  | here {cs : List Char} {c : Change} {p : Position} (changes : List Change) (h : c.Misses cs p) :
      MissesOne cs (c :: changes) p
  | later {cs mid : List Char} {c : Change} {changes : List Change} {p : Position} (hfirst : c.Rewrites cs mid)
      (hrest : MissesOne mid changes p) : MissesOne cs (c :: changes) p

theorem splice_middle (before old after new : List Char) :
    splice (before ++ old ++ after) (byteSize before) (byteSize (before ++ old)) new = before ++ new ++ after := by
  have htake : Text.takeBytes? (before ++ old ++ after) (byteSize before) = some before := by
    rw [List.append_assoc]
    exact Text.takeBytes?_byteSize_append before (old ++ after)
  rw [splice, htake, Text.dropBytes?_byteSize_append]
  rfl

/-- A text has both ends of a range only if it can be cut there. -/
theorem exists_part {cs : List Char} {r : Editor.Range} {start stop : Nat} (hstart : offset? cs r.start = some start)
    (hstop : offset? cs r.stop = some stop) :
    ∃ before old after, cs = before ++ old ++ after ∧ start = byteSize before ∧
      max start stop = byteSize (before ++ old) := by
  obtain ⟨before, rest, hcs, rfl⟩ := Text.isBoundary_iff.1 (Text.isBoundary_of_offset? hstart)
  -- A range that is written backwards is empty at its start.
  have hend : isBoundary cs (max (byteSize before) stop) = true := by
    rcases Nat.le_total (byteSize before) stop with hle | hle
    · rw [Nat.max_eq_right hle]
      exact Text.isBoundary_of_offset? hstop
    · rw [Nat.max_eq_left hle]
      exact Text.isBoundary_of_offset? hstart
  obtain ⟨front, after, hcs', hmax⟩ := Text.isBoundary_iff.1 hend
  have hle : byteSize before ≤ byteSize front := by omega
  obtain ⟨old, rfl, rfl⟩ := Text.exists_between_of_byteSize_le (hcs.symm.trans hcs') hle
  exact ⟨before, old, after, by rw [hcs, List.append_assoc], rfl, hmax⟩

theorem Change.apply_rewrites_or_misses (c : Change) (cs : List Char) :
    (∃ new, c.Rewrites cs new ∧ c.apply cs = .ok new) ∨ ∃ p, c.Misses cs p ∧ c.apply cs = .error p := by
  obtain ⟨range, text⟩ := c
  cases range with
  | none => exact Or.inl ⟨_, .whole text, rfl⟩
  | some r =>
    cases hstart : offset? cs r.start with
    | none =>
      refine Or.inr ⟨r.start, ⟨r, rfl, Or.inl rfl, hstart⟩, ?_⟩
      simp only [Change.apply, hstart]
    | some start =>
      cases hstop : offset? cs r.stop with
      | none =>
        refine Or.inr ⟨r.stop, ⟨r, rfl, Or.inr rfl, hstop⟩, ?_⟩
        simp only [Change.apply, hstart, hstop]
      | some stop =>
        obtain ⟨before, old, after, rfl, rfl, hmax⟩ := exists_part hstart hstop
        refine Or.inl ⟨_, .part text rfl hstart hstop hmax.symm, ?_⟩
        simp only [Change.apply, hstart, hstop, hmax, splice_middle]

theorem applyAll_rewrites_or_misses (cs : List Char) (changes : List Change) :
    (∃ new, RewritesEach cs changes new ∧ applyAll cs changes = .ok new) ∨
      ∃ p, MissesOne cs changes p ∧ applyAll cs changes = .error p := by
  induction changes generalizing cs with
  | nil => exact Or.inl ⟨cs, .nil cs, rfl⟩
  | cons c changes ih =>
    unfold applyAll
    rw [List.foldlM_cons]
    rcases c.apply_rewrites_or_misses cs with ⟨mid, hmid, happly⟩ | ⟨p, hp, happly⟩
    · rw [happly]
      rcases ih mid with ⟨new, hnew, hrest⟩ | ⟨p, hp, hrest⟩
      · exact Or.inl ⟨new, .cons hmid hnew, hrest⟩
      · exact Or.inr ⟨p, .later hmid hp, hrest⟩
    · rw [happly]
      exact Or.inr ⟨p, .here changes hp, rfl⟩

/-- A newer batch is refused only for a position that the text does not have. Otherwise each of its changes replaces a
part of the text. -/
theorem change_rewrites_or_misses (d : Document) (uri : Uri) {version : Int} (changes : List Change)
    (hversion : d.version < version) :
    (∃ new, RewritesEach d.content.toList changes new ∧
        d.change uri version changes = .ok { d with version, content := String.ofList new }) ∨
      ∃ p, MissesOne d.content.toList changes p ∧ d.change uri version changes = .error (.invalidRange uri p) := by
  unfold Document.change
  rw [if_neg (Int.not_le.2 hversion)]
  rcases applyAll_rewrites_or_misses d.content.toList changes with ⟨new, hnew, happly⟩ | ⟨p, hp, happly⟩
  · rw [happly]
    exact Or.inl ⟨new, hnew, rfl⟩
  · rw [happly]
    exact Or.inr ⟨p, hp, rfl⟩

/-! ## Edits -/

/-- What is done to a text in an editor: the bytes of a span are replaced, or the whole text is. -/
structure Edit where
  span : Option Span
  text : String

/-- A batch of edits and the version of the document after it. -/
structure Batch where
  version : Int
  edits : List Edit

/-- The text with the bytes of a span replaced. -/
def replaced (cs : List Char) (s : Span) (new : List Char) : List Char :=
  (Text.slice? cs 0 s.start).getD [] ++ new ++ (Text.slice? cs s.stop (byteSize cs)).getD []

/-- The text after an edit. -/
def Edit.apply (cs : List Char) (e : Edit) : List Char :=
  match e.span with
  | none => e.text.toList
  | some s => replaced cs s e.text.toList

/-- What the editor tells about an edit of a text. -/
def Edit.change (cs : List Char) (e : Edit) : Change where
  range := e.span.map fun s => ⟨position cs s.start, position cs s.stop⟩
  text := e.text

/-- What the editor tells about edits that are made one after another. -/
def tellEach : List Char → List Edit → List Change
  | _, [] => []
  | cs, e :: es => e.change cs :: tellEach (e.apply cs) es

/-- What the editor tells about batches of edits that are made one after another. -/
def tell : List Char → List Batch → List (Int × List Change)
  | _, [] => []
  | cs, b :: bs => (b.version, tellEach cs b.edits) :: tell (b.edits.foldl Edit.apply cs) bs

/-- A place in a text that is found again from its position. -/
def IsPlace (cs : List Char) (n : Nat) : Prop :=
  isBoundary cs n = true ∧ ¬ BehindReturn cs n

instance (cs : List Char) (n : Nat) : Decidable (IsPlace cs n) :=
  inferInstanceAs (Decidable (_ ∧ _))

/-- The edit is made between places in the text. -/
def Edit.Fits (cs : List Char) (e : Edit) : Prop :=
  ∀ s ∈ e.span, IsPlace cs s.start ∧ IsPlace cs s.stop

instance (cs : List Char) (e : Edit) : Decidable (e.Fits cs) :=
  inferInstanceAs (Decidable (∀ s ∈ e.span, _))

/-- The edits are made between places in the text, as the edits before them leave it. -/
def FitEach : List Char → List Edit → Prop
  | _, [] => True
  | cs, e :: es => e.Fits cs ∧ FitEach (e.apply cs) es

instance decidableFitEach : (cs : List Char) → (es : List Edit) → Decidable (FitEach cs es)
  | _, [] => inferInstanceAs (Decidable True)
  | cs, e :: es =>
    have := decidableFitEach (e.apply cs) es
    inferInstanceAs (Decidable (_ ∧ _))

theorem replaced_middle (before old after new : List Char) (h : byteSize before ≤ byteSize (before ++ old)) :
    replaced (before ++ old ++ after) ⟨byteSize before, byteSize (before ++ old), h⟩ new = before ++ new ++ after := by
  have hfront : Text.slice? (before ++ old ++ after) 0 (byteSize before) = some before := by
    have hslice := Text.slice?_middle [] before (old ++ after)
    simpa using hslice
  have hback : Text.slice? (before ++ old ++ after) (byteSize (before ++ old)) (byteSize (before ++ old ++ after)) =
      some after := by
    have hslice := Text.slice?_middle (before ++ old) after []
    rwa [List.append_nil, ← Text.byteSize_append] at hslice
  rw [replaced, hfront, hback]
  rfl

/-- The server makes the edit that it is told. -/
theorem Edit.apply_change {cs : List Char} {e : Edit} (hfits : e.Fits cs) :
    (e.change cs).apply cs = .ok (e.apply cs) := by
  obtain ⟨span, text⟩ := e
  cases span with
  | none => rfl
  | some s =>
    obtain ⟨start, stop, hle⟩ := s
    obtain ⟨⟨hstart, hstartReturn⟩, ⟨hstop, hstopReturn⟩⟩ := hfits _ rfl
    have hfound := Text.offset?_position hstart hstartReturn
    have hfound' := Text.offset?_position hstop hstopReturn
    obtain ⟨before, old, after, hcs, hbefore, hold⟩ :=
      exists_part (r := ⟨position cs start, position cs stop⟩) hfound hfound'
    rw [Nat.max_eq_right hle] at hold
    simp only [Edit.change, Change.apply, Option.map_some, hfound, hfound', Nat.max_eq_right hle]
    subst hbefore hold
    rw [hcs, splice_middle]
    exact congrArg Except.ok (replaced_middle before old after text.toList hle).symm

theorem applyAll_tellEach {cs : List Char} {es : List Edit} (hfit : FitEach cs es) :
    applyAll cs (tellEach cs es) = .ok (es.foldl Edit.apply cs) := by
  induction es generalizing cs with
  | nil => rfl
  | cons e es ih =>
    obtain ⟨hfits, hrest⟩ := hfit
    rw [tellEach, applyAll, List.foldlM_cons, Edit.apply_change hfits]
    exact ih hrest

theorem fitEach_append {cs : List Char} {es es' : List Edit} :
    FitEach cs (es ++ es') ↔ FitEach cs es ∧ FitEach (es.foldl Edit.apply cs) es' := by
  induction es generalizing cs with
  | nil => simp [FitEach]
  | cons e es ih => simp only [List.cons_append, FitEach, List.foldl_cons, ih, and_assoc]

/-- The server accepts every batch that it is told, and then has the text of the editor. -/
theorem change_tell (d : Document) (uri : Uri) (bs : List Batch)
    (hversions : (d.version :: bs.map (·.version)).Pairwise (· < ·))
    (hfit : FitEach d.content.toList (bs.flatMap (·.edits))) :
    (tell d.content.toList bs).foldlM (fun d batch => d.change uri batch.1 batch.2) d =
      .ok { d with
        version := (bs.map (·.version)).getLastD d.version
        content := String.ofList ((bs.flatMap (·.edits)).foldl Edit.apply d.content.toList) } := by
  induction bs generalizing d with
  | nil =>
    rw [List.flatMap_nil, List.foldl_nil, String.ofList_toList]
    rfl
  | cons b bs ih =>
    obtain ⟨hnewer, hlater⟩ := List.pairwise_cons.1 hversions
    have hversion : d.version < b.version := hnewer b.version List.mem_cons_self
    rw [List.flatMap_cons, fitEach_append] at hfit
    obtain ⟨hfirst, hrest⟩ := hfit
    -- The server makes the first batch, and then it has the text on which the editor goes on.
    have hchange : d.change uri b.version (tellEach d.content.toList b.edits) =
        .ok { d with
          version := b.version, content := String.ofList (b.edits.foldl Edit.apply d.content.toList) } := by
      rw [Document.change, if_neg (Int.not_le.2 hversion), applyAll_tellEach hfirst]
    rw [tell, List.foldlM_cons, hchange]
    have hnext := ih
      { d with version := b.version, content := String.ofList (b.edits.foldl Edit.apply d.content.toList) }
      hlater (by rwa [String.toList_ofList])
    rw [String.toList_ofList] at hnext
    rw [List.map_cons, List.getLastD_cons, List.flatMap_cons, List.foldl_append]
    exact hnext

/-- **The copies in the editor and in the server never diverge.** Batches of edits between places in the text, told under
increasing versions, are all accepted and leave the text of the editor. A batch of any changes is made as a whole, each
change replacing a part of the text between character boundaries, or refused for a position that the text does not
have. -/
theorem copies_agree (uri : Uri) :
    (∀ (d : Document) (bs : List Batch), (d.version :: bs.map (·.version)).Pairwise (· < ·) →
      FitEach d.content.toList (bs.flatMap (·.edits)) →
        (tell d.content.toList bs).foldlM (fun d batch => d.change uri batch.1 batch.2) d =
          .ok { d with
            version := (bs.map (·.version)).getLastD d.version
            content := String.ofList ((bs.flatMap (·.edits)).foldl Edit.apply d.content.toList) }) ∧
      ∀ (d : Document) (version : Int) (changes : List Change), d.version < version →
        (∃ new, RewritesEach d.content.toList changes new ∧
          d.change uri version changes = .ok { d with version, content := String.ofList new }) ∨
        ∃ p, MissesOne d.content.toList changes p ∧ d.change uri version changes = .error (.invalidRange uri p) :=
  ⟨fun d bs hversions hfit => change_tell d uri bs hversions hfit,
    fun d _ changes hversion => change_rewrites_or_misses d uri changes hversion⟩

/-- Edits of a text with two kinds of line ends and characters of several sizes: of the wide character, of a whole line
end, at the end of the text, of everything, and right before a carriage return. -/
def typing : List Batch :=
  [⟨2, [⟨some ⟨1, 5, by decide⟩, "é"⟩, ⟨some ⟨4, 6, by decide⟩, "\n"⟩]⟩,
    ⟨3, [⟨some ⟨7, 7, by decide⟩, "𝄞"⟩]⟩,
    ⟨7, [⟨none, "x\r"⟩, ⟨some ⟨1, 1, by decide⟩, "y"⟩]⟩]

theorem copies_agree_typing :
    ((1 : Int) :: typing.map (·.version)).Pairwise (· < ·) ∧
      FitEach "a😀b\r\nc\n".toList (typing.flatMap (·.edits)) ∧
      (tell "a😀b\r\nc\n".toList typing).foldlM
          (fun d batch => d.change ⟨"file:///main.lg"⟩ batch.1 batch.2) (⟨1, "a😀b\r\nc\n", "lg"⟩ : Document) =
        .ok ⟨7, "xy\r", "lg"⟩ := by
  have hversions : ((1 : Int) :: typing.map (·.version)).Pairwise (· < ·) := by decide
  have hfit : FitEach "a😀b\r\nc\n".toList (typing.flatMap (·.edits)) := by decide +kernel
  have hresult := (copies_agree ⟨"file:///main.lg"⟩).1 ⟨1, "a😀b\r\nc\n", "lg"⟩ typing hversions hfit
  exact ⟨hversions, hfit, hresult.trans (congrArg Except.ok (by decide +kernel))⟩

end LgLang.Workspace
