import LgLang.Proofs.Syntax.Passages

/-!
# What becomes of bullets

Each bullet either adds its expressions to the body or is reported as a whole (`Draft.add_keeps`), and nothing else gets
into the body. Every finding is about one group of lines: all of it, or an expression in it that is not closed
(`Draft.add_concerns`). Both go over to whole bodies by induction on the groups (`bulletBody_keeps`,
`bulletBody_concerns`).
-/

namespace LgLang.Syntax

open Text (byteSize)

variable {d : Draft}

theorem mem_mapLast {α : Type} {change : α → α} {a : α} {as : List α} (h : a ∈ mapLast change as) :
    a ∈ as ∨ ∃ b ∈ as, a = change b := by
  rcases List.eq_nil_or_concat' as with rfl | ⟨init, b, rfl⟩
  · exact Or.inl h
  · rw [mapLast_append_singleton] at h
    rcases List.mem_append.1 h with h | h
    · exact Or.inl (List.mem_append_left _ h)
    · exact Or.inr ⟨b, List.mem_append_right _ (List.mem_singleton_self b), List.mem_singleton.1 h⟩

namespace Draft

/-! ## A conditional block has a branch -/

/-- A conditional block begins with a branch. -/
def Begun (d : Draft) : Prop :=
  d ≠ .conditional []

theorem addText_begun (hd : d.Begun) (line : TextLine) : (d.addText line).1.Begun := by
  cases d with
  | undecided => exact Draft.noConfusion
  | text ls => exact Draft.noConfusion
  | conditional bs =>
    rcases List.eq_nil_or_concat' bs with rfl | ⟨init, b, rfl⟩
    · exact absurd rfl hd
    · simp [Begun, addText, mapLast_append_singleton]
  | switch b =>
    simp only [addText]
    split <;> exact Draft.noConfusion

theorem addBranch_begun (hd : d.Begun) (kind : BranchKind) (condition : Option Segment) (span : Span) :
    (d.addBranch kind condition span).Begun := by
  cases d with
  | undecided => simp [Begun, addBranch]
  | conditional bs => simp [Begun, addBranch]
  | text ls => exact hd
  | switch b => exact hd

theorem updateSwitch_begun (hd : d.Begun) (change : SwitchBody → SwitchBody) : (d.updateSwitch change).Begun := by
  cases d with
  | undecided => exact Draft.noConfusion
  | switch b => exact Draft.noConfusion
  | text ls => exact hd
  | conditional bs => exact hd

theorem addKeyword_begun (hd : d.Begun) (k : Keyword) (expression : Option Segment) (span : Span) :
    (d.addKeyword k expression span).Begun := by
  cases k with
  | when | elseWhen | otherwise => exact addBranch_begun hd _ _ _
  | switch | case | fallback =>
    rw [addKeyword]
    exact updateSwitch_begun hd _

theorem add_begun (hd : d.Begun) (item : BodyItem) : (d.add item).1.Begun := by
  cases item with
  | stray span => exact hd
  | bullet start content =>
    simp only [add]
    split
    · exact addText_begun hd _
    · split
      · exact hd
      · exact addKeyword_begun hd _ _ _

/-! ## Expressions that are kept -/

/-- A text adds its expressions to the body, or there is no place for it. -/
theorem addText_keeps (hd : d.Begun) (line : TextLine) :
    (d.addText line).1.body.keptSegments = d.body.keptSegments ++ line.segments ∨
      (d.addText line).1.body.keptSegments = d.body.keptSegments ∧ ∃ f ∈ (d.addText line).2, f.span = line.span := by
  cases d with
  | undecided => exact Or.inl (by simp [addText, body, Body.keptSegments])
  | text ls => exact Or.inl (by simp [addText, body, Body.keptSegments])
  | conditional bs =>
    rcases List.eq_nil_or_concat' bs with rfl | ⟨init, b, rfl⟩
    · exact absurd rfl hd
    · exact Or.inl (by simp [addText, body, Body.keptSegments, mapLast_append_singleton])
  | switch b =>
    simp only [addText]
    split
    · next hadd => exact Or.inl (addToSwitch?_extends hadd).segments
    · exact Or.inr ⟨rfl, _, List.mem_singleton_self _, rfl⟩

/-- A keyword that carries an expression keeps the first one behind it. The others have none behind them, or are reported
for it. -/
theorem branchExpression_keeps (k : Keyword) (start : Nat) (rest : List Char) (span : Span) :
    (branchExpression k start rest span).1.toList =
        (if k.takesExpression then ((tokensFrom start rest).filterMap Token.segment?).take 1
          else (tokensFrom start rest).filterMap Token.segment?) ∨
      (branchExpression k start rest span).1.toList = [] ∧ ∃ f ∈ (branchExpression k start rest span).2, f.span = span := by
  simp only [branchExpression]
  split
  · left
    cases (tokensFrom start rest).filterMap Token.segment? with
    | nil =>
      dsimp only
      split <;> rfl
    | cons s ss => rfl
  · split
    · next hblank =>
      rw [tokensFrom_blank hblank]
      exact Or.inl rfl
    · exact Or.inr ⟨rfl, _, List.mem_append_right _ (List.mem_singleton_self _), rfl⟩

/-- **A bullet adds the expressions that are kept of it to the body, or it is reported as a whole.** -/
theorem add_keeps (hd : d.Begun) (p : Passage) :
    (d.add (.bullet p.start p.text)).1.body.keptSegments = d.body.keptSegments ++ p.kept ∨
      (d.add (.bullet p.start p.text)).1.body.keptSegments = d.body.keptSegments ∧
        ∃ f ∈ (d.add (.bullet p.start p.text)).2, f.span = p.span := by
  simp only [add]
  split
  · next hdetect =>
    have hkept : p.kept = (TextLine.ofText p.start p.text).segments := by
      rw [Passage.kept, Passage.takesExpression, hdetect]
      rfl
    rw [hkept]
    refine (addText_keeps hd _).imp_right ?_
    rintro ⟨hsame, f, hf, hspan⟩
    exact ⟨hsame, f, List.mem_append_right _ hf, hspan⟩
  · next k size rest hdetect =>
    split
    · next hdrops =>
      -- A keyword is dropped only where it is misplaced, and then it is reported.
      obtain ⟨m, hm⟩ := Option.isSome_iff_exists.1 (Bool.and_eq_true_iff.1 hdrops).1
      exact Or.inr ⟨rfl, _, by rw [hm]; exact List.mem_singleton_self _, rfl⟩
    · next hkeeps =>
      have hexpression : k = .fallback →
          (branchExpression k (p.start + size) rest (.ofSize p.start (byteSize p.text))).1 = none := by
        rintro rfl
        exact branchExpression_eq_none rfl
      have hsegments := (addKeyword_extends _ (.ofSize p.start (byteSize p.text)) hexpression hkeeps).segments
      -- What is found behind the keyword is what is found in the bullet.
      have hkept : p.kept = if k.takesExpression then ((tokensFrom (p.start + size) rest).filterMap Token.segment?).take 1
          else (tokensFrom (p.start + size) rest).filterMap Token.segment? := by
        rw [Passage.kept, Passage.takesExpression, hdetect, Passage.segments, Passage.tokens,
          Keyword.tokensFrom_of_detect? hdetect]
      rw [hsegments, hkept]
      rcases branchExpression_keeps k (p.start + size) rest (.ofSize p.start (byteSize p.text)) with
        hadded | ⟨hnone, f, hf, hspan⟩
      · exact Or.inl (congrArg (d.body.keptSegments ++ ·) hadded)
      · refine Or.inr ⟨?_, f, List.mem_append_right _ hf, hspan⟩
        rw [hnone, List.append_nil]

/-- What a body keeps it had before or has from the group. -/
theorem add_kept_subset (hd : d.Begun) (item : BodyItem) :
    ∀ s ∈ (d.add item).1.body.keptSegments, s ∈ d.body.keptSegments ∨ ∃ p ∈ item.passage?, s ∈ p.kept := by
  intro s hs
  cases item with
  | stray span => exact Or.inl hs
  | bullet start text =>
    rcases add_keeps hd ⟨start, text⟩ with hadded | ⟨hsame, -⟩
    · rw [hadded] at hs
      exact (List.mem_append.1 hs).imp_right fun hs => ⟨⟨start, text⟩, rfl, hs⟩
    · rw [hsame] at hs
      exact Or.inl hs

/-- Nothing that a body keeps is lost. -/
theorem kept_subset_add (hd : d.Begun) (item : BodyItem) :
    ∀ s ∈ d.body.keptSegments, s ∈ (d.add item).1.body.keptSegments := by
  intro s hs
  cases item with
  | stray span => exact hs
  | bullet start text =>
    rcases add_keeps hd ⟨start, text⟩ with hadded | ⟨hsame, -⟩
    · rw [hadded]
      exact List.mem_append_left _ hs
    · rwa [hsame]

theorem kept_subset_addAll (hd : d.Begun) (items : List BodyItem) :
    ∀ s ∈ d.body.keptSegments, s ∈ (d.addAll items).1.body.keptSegments := by
  induction items generalizing d with
  | nil => exact fun s hs => hs
  | cons item items ih => exact fun s hs => ih (add_begun hd item) s (kept_subset_add hd item s hs)

theorem addAll_keeps (hd : d.Begun) (items : List BodyItem) :
    ∀ p ∈ items.filterMap BodyItem.passage?,
      (∀ s ∈ p.kept, s ∈ (d.addAll items).1.body.keptSegments) ∨ ∃ f ∈ (d.addAll items).2, f.span = p.span := by
  induction items generalizing d with
  | nil => exact List.forall_mem_nil _
  | cons item items ih =>
    intro p hp
    obtain ⟨member, hmember, hpassage⟩ := List.mem_filterMap.1 hp
    rcases List.mem_cons.1 hmember with rfl | hmember
    · have hbullet : member = .bullet p.start p.text := by
        cases member with
        | stray span => cases hpassage
        | bullet start text => rw [← Option.some.inj hpassage]
      subst hbullet
      rcases add_keeps hd p with hadded | ⟨-, f, hf, hspan⟩
      · -- What this bullet adds is still there at the end.
        refine Or.inl fun s hs => ?_
        have hnext : s ∈ (d.add (.bullet p.start p.text)).1.body.keptSegments := by
          rw [hadded]
          exact List.mem_append_right _ hs
        exact kept_subset_addAll (add_begun hd _) items s hnext
      · exact Or.inr ⟨f, List.mem_append_left _ hf, hspan⟩
    · refine (ih (add_begun hd item) p (List.mem_filterMap.2 ⟨member, hmember, hpassage⟩)).imp_right ?_
      rintro ⟨f, hf, hspan⟩
      exact ⟨f, List.mem_append_right _ hf, hspan⟩

theorem addAll_kept_subset (hd : d.Begun) (items : List BodyItem) :
    ∀ s ∈ (d.addAll items).1.body.keptSegments,
      s ∈ d.body.keptSegments ∨ ∃ p ∈ items.filterMap BodyItem.passage?, s ∈ p.kept := by
  induction items generalizing d with
  | nil => exact fun s hs => Or.inl hs
  | cons item items ih =>
    intro s hs
    rcases ih (add_begun hd item) s hs with hs | ⟨p, hp, hs⟩
    · refine (add_kept_subset hd item s hs).imp_right ?_
      rintro ⟨p, hp, hs⟩
      exact ⟨p, List.mem_filterMap.2 ⟨item, List.mem_cons_self, hp⟩, hs⟩
    · obtain ⟨member, hmember, hpassage⟩ := List.mem_filterMap.1 hp
      exact Or.inr ⟨p, List.mem_filterMap.2 ⟨member, List.mem_cons_of_mem _ hmember, hpassage⟩, hs⟩

end Draft

/-! ## What findings are about -/

namespace BodyItem

def span : BodyItem → Span
  | .bullet start text => .ofSize start (byteSize text)
  | .stray span => span

def tokens : BodyItem → List Token
  | .bullet start text => tokensFrom start text
  | .stray _ => []

/-- A finding at that place is about the group: about all of it, or about an expression in it that is not closed. -/
def Concerns (item : BodyItem) (place : Span) : Prop :=
  place = item.span ∨ .unterminated place ∈ item.tokens

end BodyItem

theorem branchExpression_concerns (k : Keyword) (start : Nat) (rest : List Char) (span : Span) :
    ∀ f ∈ (branchExpression k start rest span).2, f.span = span ∨ .unterminated f.span ∈ tokensFrom start rest := by
  have hscan : ∀ f ∈ textDiagnostics start rest, f.span = span ∨ .unterminated f.span ∈ tokensFrom start rest :=
    fun f hf => Or.inr (textDiagnostics_unterminated f hf)
  simp only [branchExpression]
  split
  · split
    · exact hscan
    · split
      · exact List.forall_mem_singleton.2 (Or.inl rfl)
      · exact hscan
  · split
    · exact hscan
    · exact List.forall_mem_append.2 ⟨hscan, List.forall_mem_singleton.2 (Or.inl rfl)⟩

namespace Draft

theorem addText_concerns (d : Draft) (line : TextLine) : ∀ f ∈ (d.addText line).2, f.span = line.span := by
  cases d with
  | undecided => exact List.forall_mem_nil _
  | text ls => exact List.forall_mem_nil _
  | conditional bs => exact List.forall_mem_nil _
  | switch b =>
    simp only [addText]
    split
    · exact List.forall_mem_nil _
    · exact List.forall_mem_singleton.2 rfl

/-- **Each finding is about the group that is read.** -/
theorem add_concerns (d : Draft) (item : BodyItem) : ∀ f ∈ (d.add item).2, item.Concerns f.span := by
  cases item with
  | stray span => exact List.forall_mem_singleton.2 (Or.inl rfl)
  | bullet start text =>
    have hreports : ∀ m : Option Misplacement, ∀ f ∈ (m.map fun m =>
        Diagnostic.error .misplacedKeyword (.ofSize start (byteSize text)) m.message).toList,
          (BodyItem.bullet start text).Concerns f.span := by
      intro m f hf
      obtain ⟨m, -, rfl⟩ := Option.map_eq_some_iff.1 (Option.mem_toList.1 hf)
      exact Or.inl rfl
    simp only [add]
    split
    · refine List.forall_mem_append.2 ⟨fun f hf => Or.inr (textDiagnostics_unterminated f hf), fun f hf => Or.inl ?_⟩
      exact addText_concerns d _ f hf
    · next k size rest hdetect =>
      split
      · exact hreports _
      · refine List.forall_mem_append.2 ⟨hreports _, fun f hf => ?_⟩
        refine (branchExpression_concerns k _ rest _ f hf).imp_right ?_
        rw [← Keyword.tokensFrom_of_detect? hdetect]
        exact id

theorem addAll_concerns (d : Draft) (items : List BodyItem) :
    ∀ f ∈ (d.addAll items).2, ∃ item ∈ items, item.Concerns f.span := by
  induction items generalizing d with
  | nil => exact List.forall_mem_nil _
  | cons item items ih =>
    refine List.forall_mem_append.2 ⟨fun f hf => ?_, fun f hf => ?_⟩
    · exact ⟨item, List.mem_cons_self, add_concerns d item f hf⟩
    · obtain ⟨other, hother, hconcerns⟩ := ih _ f hf
      exact ⟨other, List.mem_cons_of_mem _ hother, hconcerns⟩

/-! ### Empty branches -/

theorem mem_emptyBranches_conditional {f : Diagnostic} {bs : List Branch} :
    f ∈ (conditional bs).emptyBranches ↔ ∃ b ∈ bs, b.body = [] ∧ emptyBranch b.span b.kind.keyword = f := by
  simp [emptyBranches, and_assoc]

theorem mem_emptyBranches_switch {f : Diagnostic} {b : SwitchBody} :
    f ∈ (switch b).emptyBranches ↔
      (∃ c ∈ b.cases, c.body = [] ∧ emptyBranch c.span .case = f) ∨
        ∃ g ∈ b.fallback, g.body = [] ∧ emptyBranch g.span .fallback = f := by
  simp [emptyBranches, and_assoc]

theorem addToSwitch?_emptyBranches {b b' : SwitchBody} {line : TextLine} (h : addToSwitch? b line = some b') :
    ∀ f ∈ (switch b').emptyBranches, f ∈ (switch b).emptyBranches := by
  intro f hf
  rw [mem_emptyBranches_switch] at hf ⊢
  unfold addToSwitch? at h
  split at h
  · obtain rfl := Option.some.inj h
    refine hf.imp_right ?_
    rintro ⟨g, hg, hempty, -⟩
    rw [← Option.some.inj hg] at hempty
    exact absurd hempty (List.concat_ne_nil _ _)
  · split at h
    · cases h
    · obtain rfl := Option.some.inj h
      refine hf.imp_left ?_
      rintro ⟨c, hc, hempty, heq⟩
      rcases mem_mapLast hc with hc | ⟨c', -, rfl⟩
      · exact ⟨c, hc, hempty, heq⟩
      · exact absurd hempty (List.concat_ne_nil _ _)

/-- A text leaves no branch empty. -/
theorem addText_emptyBranches (d : Draft) (line : TextLine) :
    ∀ f ∈ (d.addText line).1.emptyBranches, f ∈ d.emptyBranches := by
  cases d with
  | undecided => exact fun _ hf => hf
  | text ls => exact fun _ hf => hf
  | conditional bs =>
    intro f hf
    obtain ⟨b, hb, hempty, heq⟩ := mem_emptyBranches_conditional.1 hf
    rcases mem_mapLast hb with hb | ⟨b', -, rfl⟩
    · exact mem_emptyBranches_conditional.2 ⟨b, hb, hempty, heq⟩
    · exact absurd hempty (List.concat_ne_nil _ _)
  | switch b =>
    simp only [addText]
    split
    · next hadd => exact addToSwitch?_emptyBranches hadd
    · exact fun _ hf => hf

theorem addBranch_emptyBranches (d : Draft) (kind : BranchKind) (condition : Option Segment) (span : Span) :
    ∀ f ∈ (d.addBranch kind condition span).emptyBranches, f ∈ d.emptyBranches ∨ f.span = span := by
  intro f hf
  cases d with
  | undecided =>
    obtain ⟨b, hb, -, rfl⟩ := mem_emptyBranches_conditional.1 hf
    rw [List.mem_singleton.1 hb]
    exact Or.inr rfl
  | conditional bs =>
    obtain ⟨b, hb, hempty, rfl⟩ := mem_emptyBranches_conditional.1 hf
    rcases List.mem_append.1 hb with hb | hb
    · exact Or.inl (mem_emptyBranches_conditional.2 ⟨b, hb, hempty, rfl⟩)
    · rw [List.mem_singleton.1 hb]
      exact Or.inr rfl
  | text ls => exact Or.inl hf
  | switch b => exact Or.inl hf

/-- A change of the switch block that opens branches at one place only. -/
theorem updateSwitch_emptyBranches {d : Draft} {change : SwitchBody → SwitchBody} {span : Span}
    (hcases : ∀ b, ∀ c ∈ (change b).cases, c ∈ b.cases ∨ c.span = span)
    (hfallback : ∀ b, ∀ g ∈ (change b).fallback, g ∈ b.fallback ∨ g.span = span) :
    ∀ f ∈ (d.updateSwitch change).emptyBranches, f ∈ d.emptyBranches ∨ f.span = span := by
  have hchanged : ∀ b, ∀ f ∈ (switch (change b)).emptyBranches, f ∈ (switch b).emptyBranches ∨ f.span = span := by
    intro b f hf
    rcases mem_emptyBranches_switch.1 hf with ⟨c, hc, hempty, rfl⟩ | ⟨g, hg, hempty, rfl⟩
    · exact (hcases b c hc).imp_left fun hc => mem_emptyBranches_switch.2 (Or.inl ⟨c, hc, hempty, rfl⟩)
    · exact (hfallback b g hg).imp_left fun hg => mem_emptyBranches_switch.2 (Or.inr ⟨g, hg, hempty, rfl⟩)
  cases d with
  | undecided => exact hchanged ⟨none, [], none⟩
  | switch b => exact hchanged b
  | text ls => exact fun f hf => Or.inl hf
  | conditional bs => exact fun f hf => Or.inl hf

/-- The branch that a keyword opens stands where the keyword does. -/
theorem addKeyword_emptyBranches (d : Draft) (k : Keyword) (expression : Option Segment) (span : Span) :
    ∀ f ∈ (d.addKeyword k expression span).emptyBranches, f ∈ d.emptyBranches ∨ f.span = span := by
  cases k with
  | when => exact addBranch_emptyBranches d _ _ _
  | elseWhen => exact addBranch_emptyBranches d _ _ _
  | otherwise => exact addBranch_emptyBranches d _ _ _
  | switch =>
    rw [addKeyword]
    apply updateSwitch_emptyBranches
    · exact fun b c hc => Or.inl hc
    · exact fun b g hg => Or.inl hg
  | case =>
    rw [addKeyword]
    apply updateSwitch_emptyBranches
    · intro b c hc
      refine (List.mem_append.1 hc).imp_right fun hc => ?_
      rw [List.mem_singleton.1 hc]
    · exact fun b g hg => Or.inl hg
  | fallback =>
    rw [addKeyword]
    apply updateSwitch_emptyBranches
    · exact fun b c hc => Or.inl hc
    · intro b g hg
      rw [← Option.some.inj hg]
      exact Or.inr rfl

theorem add_emptyBranches (d : Draft) (item : BodyItem) :
    ∀ f ∈ (d.add item).1.emptyBranches, f ∈ d.emptyBranches ∨ f.span = item.span := by
  cases item with
  | stray span => exact fun f hf => Or.inl hf
  | bullet start text =>
    simp only [add]
    split
    · exact fun f hf => Or.inl (addText_emptyBranches d _ f hf)
    · split
      · exact fun f hf => Or.inl hf
      · exact addKeyword_emptyBranches d _ _ _

theorem addAll_emptyBranches (d : Draft) (items : List BodyItem) :
    ∀ f ∈ (d.addAll items).1.emptyBranches, f ∈ d.emptyBranches ∨ ∃ item ∈ items, f.span = item.span := by
  induction items generalizing d with
  | nil => exact fun f hf => Or.inl hf
  | cons item items ih =>
    intro f hf
    rcases ih _ f hf with hf | ⟨other, hother, hspan⟩
    · refine (add_emptyBranches d item f hf).imp_right fun hspan => ?_
      exact ⟨item, List.mem_cons_self, hspan⟩
    · exact Or.inr ⟨other, List.mem_cons_of_mem _ hother, hspan⟩

end Draft

/-! ## Bodies made of bullets -/

theorem Draft.undecided_begun : Draft.undecided.Begun := Draft.noConfusion

/-- **Every bullet keeps its expressions in the body or is reported as a whole.** -/
theorem bulletBody_keeps (items : List BodyItem) :
    ∀ p ∈ items.filterMap BodyItem.passage?,
      (∀ s ∈ p.kept, s ∈ (bulletBody items).1.keptSegments) ∨ ∃ f ∈ (bulletBody items).2, f.span = p.span := by
  intro p hp
  refine (Draft.addAll_keeps Draft.undecided_begun items p hp).imp_right ?_
  rintro ⟨f, hf, hspan⟩
  exact ⟨f, List.mem_append_left _ hf, hspan⟩

/-- **A body keeps nothing but what is kept of its bullets.** -/
theorem bulletBody_kept_subset (items : List BodyItem) :
    ∀ s ∈ (bulletBody items).1.keptSegments, ∃ p ∈ items.filterMap BodyItem.passage?, s ∈ p.kept := by
  intro s hs
  exact (Draft.addAll_kept_subset Draft.undecided_begun items s hs).resolve_left List.not_mem_nil

/-- **Every finding is about a group of lines.** -/
theorem bulletBody_concerns (items : List BodyItem) :
    ∀ f ∈ (bulletBody items).2, ∃ item ∈ items, item.Concerns f.span := by
  refine List.forall_mem_append.2 ⟨Draft.addAll_concerns .undecided items, fun f hf => ?_⟩
  rcases Draft.addAll_emptyBranches .undecided items f hf with hf | ⟨item, hitem, hspan⟩
  · exact absurd hf List.not_mem_nil
  · exact ⟨item, hitem, Or.inl hspan⟩

end LgLang.Syntax
