import LgLang.Syntax.Parser

/-!
# The rules of reading

Reading a template file applies the first eleven rules only, those about the form of the text (`parse_ofReading`), and
its findings need no other place to explain them (`parse_isRead`). What the other rules say of a document therefore comes
from the walk along its imports or from the checks of its scope.
-/

namespace LgLang

/-- The rules that reading a text applies: those listed up to `importNotInHeader`. -/
def DiagnosticCode.OfReading (c : DiagnosticCode) : Prop :=
  c.rank ≤ DiagnosticCode.importNotInHeader.rank

instance : DecidablePred DiagnosticCode.OfReading := fun c =>
  inferInstanceAs (Decidable (c.rank ≤ _))

/-- All findings of a list come from rules of reading. -/
def Diagnostic.AllOfReading (ds : List Diagnostic) : Prop :=
  ∀ d ∈ ds, d.code.OfReading

/-- A finding of a rule of reading, which no other place explains. -/
structure Diagnostic.Read (d : Diagnostic) : Prop where
  code : d.code.OfReading
  related : d.related = []

/-- All findings of a list are made by reading. -/
def Diagnostic.AllRead (ds : List Diagnostic) : Prop :=
  ∀ d ∈ ds, d.Read

namespace Diagnostic

variable {d : Diagnostic} {ds es : List Diagnostic}

theorem allRead_nil : AllRead [] := fun _ h => absurd h List.not_mem_nil

theorem AllRead.append (hd : AllRead ds) (he : AllRead es) : AllRead (ds ++ es) :=
  fun d h => (List.mem_append.mp h).elim (hd d) (he d)

theorem allRead_singleton (h : d.Read) : AllRead [d] :=
  fun e he => by rw [List.mem_singleton.mp he]; exact h

theorem allRead_error {code : DiagnosticCode} {span : Span} {message : String} (h : code.OfReading) :
    AllRead [.error code span message] :=
  allRead_singleton ⟨h, rfl⟩

theorem allRead_warning {code : DiagnosticCode} {span : Span} {message : String} (h : code.OfReading) :
    AllRead [.warning code span message] :=
  allRead_singleton ⟨h, rfl⟩

end Diagnostic

namespace Syntax

open Diagnostic (AllRead allRead_nil allRead_singleton allRead_error allRead_warning)

/-! ## Texts and bullets -/

theorem textDiagnostics_isRead (start : Nat) (cs : List Char) : AllRead (textDiagnostics start cs) := by
  intro d hd
  obtain ⟨t, _, ht⟩ := List.mem_filterMap.mp hd
  cases t with
  | segment _ => cases ht
  | reference _ => cases ht
  | unterminated _ =>
    cases ht
    exact ⟨(by decide : DiagnosticCode.unterminatedExpression.OfReading), rfl⟩

theorem addText_isRead (d : Draft) (line : TextLine) : AllRead (d.addText line).2 := by
  cases d with
  | undecided => exact allRead_nil
  | text _ => exact allRead_nil
  | conditional _ => exact allRead_nil
  | switch b =>
    simp only [Draft.addText]
    split
    · exact allRead_nil
    · exact allRead_error (by decide)

theorem branchExpression_isRead (k : Keyword) (start : Nat) (rest : List Char) (span : Span) :
    AllRead (branchExpression k start rest span).2 := by
  have hscan := textDiagnostics_isRead start rest
  simp only [branchExpression]
  split
  · split
    · exact hscan
    · split
      · exact allRead_error (by decide)
      · exact hscan
  · split
    · exact hscan
    · exact hscan.append (allRead_error (by decide))

theorem Draft.add_isRead (d : Draft) (item : BodyItem) : AllRead (d.add item).2 := by
  cases item with
  | stray span => exact allRead_error (by decide)
  | bullet start content =>
    have hreports : ∀ (m : Option Misplacement) (span : Span),
        AllRead (m.map fun m => Diagnostic.error .misplacedKeyword span m.message).toList := by
      intro m span
      cases m with
      | none => exact allRead_nil
      | some m => exact allRead_error (by decide)
    simp only [Draft.add]
    split
    · exact (textDiagnostics_isRead _ _).append (addText_isRead _ _)
    · split
      · exact hreports _ _
      · exact (hreports _ _).append (branchExpression_isRead _ _ _ _)

theorem Draft.addAll_isRead (d : Draft) (items : List BodyItem) : AllRead (d.addAll items).2 := by
  induction items generalizing d with
  | nil => exact allRead_nil
  | cons item items ih => exact (d.add_isRead item).append (ih _)

theorem Draft.emptyBranches_isRead (d : Draft) : AllRead d.emptyBranches := by
  have hempty : ∀ span k, (emptyBranch span k).Read := fun _ _ =>
    ⟨(by decide : DiagnosticCode.emptyBranch.OfReading), rfl⟩
  intro e he
  cases d with
  | undecided => cases he
  | text _ => cases he
  | conditional bs =>
    obtain ⟨b, _, rfl⟩ := List.mem_map.mp he
    exact hempty _ _
  | switch b =>
    rcases List.mem_append.mp he with he | he
    · obtain ⟨c, _, rfl⟩ := List.mem_map.mp he
      exact hempty _ _
    · obtain ⟨f, _, rfl⟩ := Option.map_eq_some_iff.mp (Option.mem_toList.mp he)
      exact hempty _ _

theorem bulletBody_isRead (items : List BodyItem) : AllRead (bulletBody items).2 :=
  (Draft.addAll_isRead _ _).append (Draft.emptyBranches_isRead _)

/-! ## Structured bodies -/

theorem StructureDraft.addProperty_isRead (d : StructureDraft) (l : Text.Line) :
    AllRead (d.addProperty l).2 := by
  simp only [StructureDraft.addProperty]
  split
  · exact allRead_error (by decide)
  · refine AllRead.append ?_ (textDiagnostics_isRead _ _)
    split
    · exact allRead_warning (by decide)
    · exact allRead_nil

theorem StructureDraft.add_isRead (d : StructureDraft) (l : Text.Line) : AllRead (d.add l).2 := by
  simp only [StructureDraft.add]
  split
  · exact allRead_nil
  · split
    · exact allRead_error (by decide)
    · split
      · exact allRead_nil
      · exact addProperty_isRead _ _

theorem StructureDraft.addAll_isRead (d : StructureDraft) (ls : List Text.Line) :
    AllRead (d.addAll ls).2 := by
  induction ls generalizing d with
  | nil => exact allRead_nil
  | cons l ls ih => exact (d.add_isRead l).append (ih _)

theorem structuredBody_isRead (opening : Text.Line) (ls : List Text.Line) :
    AllRead (structuredBody opening ls).2.2 := by
  have hunclosed : ∀ closed : Bool, AllRead
      (if closed then [] else [Diagnostic.error .unterminatedStructure (contentSpan opening)
        "structured body is missing its closing ']'"]) := by
    intro closed
    split
    · exact allRead_nil
    · exact allRead_error (by decide)
  simp only [structuredBody]
  refine AllRead.append (AllRead.append ?_ (StructureDraft.addAll_isRead _ _)) (hunclosed _)
  split
  · exact allRead_nil
  · exact allRead_error (by decide)

/-! ## Files -/

theorem readBody_isRead (ls : List Text.Line) : AllRead (readBody ls).2.2 := by
  simp only [readBody]
  split
  · exact allRead_nil
  · split
    · exact structuredBody_isRead _ _
    · exact bulletBody_isRead _

theorem readImport_isRead {l : Text.Line} {inHeader : Bool} {finding : Diagnostic}
    (h : readImport l inHeader = .error finding) : finding.Read := by
  have himport : DiagnosticCode.invalidImport.OfReading := by decide
  unfold readImport at h
  dsimp only at h
  split at h
  · cases h; exact ⟨himport, rfl⟩
  · split at h
    · cases h; exact ⟨himport, rfl⟩
    · split at h
      · cases h; exact ⟨himport, rfl⟩
      · cases h

theorem lateImport_isRead (i : Import) : AllRead (lateImport i) := by
  unfold lateImport
  split
  · exact allRead_nil
  · exact allRead_warning (by decide)

theorem readHeader_isRead {l : Text.Line} {finding : Diagnostic} (h : readHeader l = .error finding) :
    finding.Read := by
  have hheader : DiagnosticCode.invalidTemplateHeader.OfReading := by decide
  unfold readHeader at h
  dsimp only at h
  split at h
  · cases h; exact ⟨hheader, rfl⟩
  · split at h
    · cases h; exact ⟨hheader, rfl⟩
    · cases h

theorem parseLines_isRead (seenTemplate : Bool) (doc : List String) (ls : List Text.Line) :
    AllRead (parseLines seenTemplate doc ls).diagnostics := by
  fun_induction parseLines seenTemplate doc ls with
  | case1 => exact allRead_nil
  | case2 _ _ _ _ _ _ ih => exact ih
  | case3 _ _ _ _ _ _ ih => exact ih
  | case4 _ _ _ _ _ _ finding hread ih => exact (allRead_singleton (readImport_isRead hread)).append ih
  | case5 _ _ _ _ _ _ i _ ih => exact (lateImport_isRead i).append ih
  | case6 _ _ _ _ _ _ finding hread ih => exact (allRead_singleton (readHeader_isRead hread)).append ih
  | case7 _ _ _ _ _ _ _ _ bodyLines _ _ _ _ htemplate ih =>
    refine AllRead.append ?_ ih
    have hbody := readBody_isRead bodyLines
    rw [templateOf] at htemplate
    exact (Prod.mk.inj htemplate).2 ▸ hbody
  | case8 _ _ _ _ _ _ ih =>
    exact (allRead_error (by decide)).append ih
  | case9 _ _ _ _ _ _ ih =>
    exact (allRead_error (by decide)).append ih

/-- The findings about a text are made by reading. -/
theorem parse_isRead (text : String) : AllRead (parse text).diagnostics :=
  parseLines_isRead _ _ _

/-- **Reading a file applies the rules of reading only.** -/
theorem parse_ofReading (text : String) : Diagnostic.AllOfReading (parse text).diagnostics :=
  fun d hd => (parse_isRead text d hd).code

end Syntax

end LgLang
