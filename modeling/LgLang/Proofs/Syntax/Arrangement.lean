import LgLang.Proofs.Syntax.Orders

/-!
# Where the texts of a body go

A body has places for texts: the branches of a conditional block, or the cases and the DEFAULT of a switch block
(`Body.places`). The bullets of a body fall into sections: each begins with the keyword that opened a place and goes on to
the next such keyword. What stands above the first section is the lead (`Arrangement`).

Every text goes to the place of its section, and none is lost but the texts in the lead of a switch block, which are
reported. A keyword that opens a place opens it behind the others (`Draft.Reads.arrangement`). An IF branch comes first if
there is one, and nothing comes behind an ELSE branch or a DEFAULT, whatever keywords the bullets begin with
(`bulletBody_arranged`).
-/

namespace LgLang.Syntax

open Text (byteSize)

/-! ## Places for texts -/

/-- A branch, a case or a DEFAULT: the keyword that opened it, the texts in it, and where it stands. -/
structure Place where
  keyword : Option Keyword
  texts : List TextLine
  span : Span
  deriving DecidableEq, Repr

/-- The place with one more text. -/
def Place.add (line : TextLine) (p : Place) : Place :=
  { p with texts := p.texts ++ [line], span := p.span.cover line.span }

def Branch.place (b : Branch) : Place :=
  ⟨some b.kind.keyword, b.body, b.span⟩

def Case.place (c : Case) : Place :=
  ⟨some .case, c.body, c.span⟩

def Fallback.place (f : Fallback) : Place :=
  ⟨some .fallback, f.body, f.span⟩

/-- The places of a body, in order. -/
def Body.places : Body → List Place
  | .text _ => []
  | .structured _ => []
  | .conditional bs => bs.map Branch.place
  | .switch b => b.cases.map Case.place ++ b.fallback.toList.map Fallback.place

/-- The keywords of the places of a body, in order. -/
def Body.keywords (b : Body) : List (Option Keyword) :=
  b.places.map (·.keyword)

/-- An IF branch comes first, and an ELSE branch or a DEFAULT comes last. -/
structure Body.Ordered (b : Body) : Prop where
  whenFirst : some .when ∉ b.keywords.tail
  otherwiseLast : some .otherwise ∉ b.keywords.dropLast
  fallbackLast : some .fallback ∉ b.keywords.dropLast

/-! ## Sections of bullets -/

/-- The bullet whose keyword opened a place, and the bullets below it up to the next such. -/
structure Section where
  opener : Passage
  below : List Passage
  deriving DecidableEq, Repr

/-- The text lines among bullets. -/
def textsOf (ps : List Passage) : List TextLine :=
  (ps.filter (·.keyword?.isNone)).map Passage.line

def Section.bullets (s : Section) : List Passage :=
  s.opener :: s.below

/-- The place that a section makes: it holds the texts of the section and covers them. -/
def Section.place (s : Section) : Place where
  keyword := s.opener.keyword?
  texts := textsOf s.below
  span := (textsOf s.below).foldl (fun span line => span.cover line.span) s.opener.span

/-- What becomes of the bullets above the first section. -/
def Body.HasLead (lead : List Passage) (findings : List Diagnostic) : Body → Prop
  | .text ls => ls = textsOf lead
  | .structured _ => False
  | .conditional _ => textsOf lead = []
  | .switch _ => ∀ line ∈ textsOf lead, Misplaced findings line.span

/-- How bullets are arranged in a body: the lead, and a place for each section. -/
structure Arrangement (bullets : List Passage) (body : Body) (findings : List Diagnostic) (lead : List Passage)
    (sections : List Section) : Prop where
  bullets : bullets = lead ++ sections.flatMap Section.bullets
  places : body.places = sections.map Section.place
  lead : body.HasLead lead findings

variable {p : Passage} {ps qs lead : List Passage} {body : Body} {findings more : List Diagnostic} {s : Section}
  {sections : List Section} {d : Draft} {k : Keyword} {line : TextLine}

theorem textsOf_append : textsOf (ps ++ qs) = textsOf ps ++ textsOf qs := by
  simp [textsOf]

theorem textsOf_text (h : p.keyword? = none) : textsOf [p] = [p.line] := by
  simp [textsOf, h]

theorem textsOf_keyword (h : p.keyword? = some k) : textsOf [p] = [] := by
  simp [textsOf, h]

namespace Section

/-- The section with one more bullet. -/
def add (p : Passage) (s : Section) : Section :=
  { s with below := s.below ++ [p] }

theorem bullets_add : (s.add p).bullets = s.bullets ++ [p] := rfl

theorem place_add_text (h : p.keyword? = none) : (s.add p).place = s.place.add p.line := by
  simp only [add, place, Place.add, textsOf_append, textsOf_text h, List.foldl_append, List.foldl_cons, List.foldl_nil]

theorem place_add_keyword (h : p.keyword? = some k) : (s.add p).place = s.place := by
  simp only [add, place, textsOf_append, textsOf_keyword h, List.append_nil]

end Section

/-! ## What a bullet does to the places -/

namespace Draft

/-- A text that has a place goes to the last one. -/
theorem places_addText (h : d.stage.admits none = true) (line : TextLine) :
    (d.addText line).1.body.places = mapLast (Place.add line) d.body.places := by
  cases d with
  | undecided => rfl
  | text ls => rfl
  | conditional bs =>
    apply Eq.symm
    apply mapLast_map
    intro b
    rfl
  | switch b =>
    cases hfallback : b.fallback with
    | some f =>
      simp only [addText, addToSwitch?, hfallback, body, Body.places, Option.toList_some, List.map_cons, List.map_nil,
        mapLast_append_singleton]
      rfl
    | none =>
      have hplace : b.cases.isEmpty = false := by
        by_contra hcases
        simp only [stage, hfallback, (Bool.not_eq_false _).mp hcases] at h
        cases h
      simp only [addText, addToSwitch?, hfallback, hplace, body, Body.places, Bool.false_eq_true, if_false,
        Option.toList_none, List.map_nil, List.append_nil]
      apply Eq.symm
      apply mapLast_map
      intro c
      rfl

/-- Whether a keyword opens a branch or a block, in order or not. -/
def Opens (d : Draft) (k : Keyword) : Prop :=
  d.stage.admits (some k) = true ∨ d.admitsMisplaced k = true

/-- The place that a keyword opens. A SWITCH opens none. -/
def openedPlaces (k : Keyword) (span : Span) : List Place :=
  if k = .switch then [] else [⟨some k, [], span⟩]

/-- No keyword behind an ELSE branch opens one. -/
theorem Opens.branch {bs : List Branch} (h : (conditional bs).Opens k) :
    (k = .elseWhen ∨ k = .otherwise) ∧ bs.any (·.kind == .otherwise) = false := by
  rcases h with h | h
  · rw [stage] at h
    split at h
    · cases k <;> cases h
    · next hlast =>
      refine ⟨?_, (Bool.not_eq_true _).mp hlast⟩
      cases k with
      | elseWhen => exact Or.inl rfl
      | otherwise => exact Or.inr rfl
      | when | switch | case | fallback => cases h
  · cases k <;> cases h

/-- Nothing behind a DEFAULT opens one or a case. -/
theorem Opens.case {b : SwitchBody} (h : (switch b).Opens k) : (k = .case ∨ k = .fallback) ∧ b.fallback = none := by
  have hkept : ¬ (switch b).Drops k := by
    have hadmits := isNone_misplacement? (switch b) k
    unfold Drops
    rcases h with h | h
    · rw [h] at hadmits
      simp [Option.isNone_iff_eq_none.1 hadmits]
    · simp [h]
  have hk : k = .case ∨ k = .fallback := by
    cases k with
    | case => exact Or.inl rfl
    | fallback => exact Or.inr rfl
    | when => exact absurd rfl hkept
    | elseWhen => exact absurd rfl hkept
    | otherwise => exact absurd rfl hkept
    | switch => exact absurd rfl hkept
  exact ⟨hk, fallback_eq_none_of_not_drops hk hkept⟩

theorem Opens.not_text {ls : List TextLine} : ¬ (text ls).Opens k := by
  rintro (h | h)
  · cases k <;> cases h
  · cases k <;> cases h

/-- A keyword opens its place behind the others. -/
theorem places_addKeyword (h : d.Opens k) (expression : Option Segment) (span : Span) :
    (d.addKeyword k expression span).body.places = d.body.places ++ openedPlaces k span := by
  cases d with
  | undecided => cases k <;> rfl
  | text ls => exact absurd h Opens.not_text
  | conditional bs =>
    obtain ⟨hk | hk, -⟩ := h.branch
    · subst hk
      exact List.map_append
    · subst hk
      exact List.map_append
  | switch b =>
    obtain ⟨hk | hk, hfallback⟩ := h.case
    · subst hk
      simp [addKeyword, updateSwitch, body, Body.places, hfallback, openedPlaces, Case.place]
    · subst hk
      rw [addKeyword]
      simp [updateSwitch, body, Body.places, hfallback, openedPlaces, Fallback.place]

end Draft

/-! ## Order -/

theorem keywords_mapLast (line : TextLine) (places : List Place) :
    (mapLast (Place.add line) places).map (·.keyword) = places.map (·.keyword) := by
  rcases List.eq_nil_or_concat' places with rfl | ⟨init, last, rfl⟩
  · rfl
  · simp [mapLast_append_singleton, Place.add]

theorem Body.Ordered.congr {next : Body} (h : body.Ordered) (hnext : next.keywords = body.keywords) : next.Ordered := by
  refine ⟨?_, ?_, ?_⟩
  · rw [hnext]
    exact h.whenFirst
  · rw [hnext]
    exact h.otherwiseLast
  · rw [hnext]
    exact h.fallbackLast

/-- A place behind the others keeps the order, where no ELSE branch and no DEFAULT stands before it. -/
theorem Body.Ordered.concat {next : Body} (h : body.Ordered) (hnext : next.keywords = body.keywords ++ [some k])
    (hwhen : k = .when → body.keywords = []) (hotherwise : some .otherwise ∉ body.keywords)
    (hfallback : some .fallback ∉ body.keywords) : next.Ordered := by
  refine ⟨?_, ?_, ?_⟩
  · rw [hnext]
    intro hmem
    cases hkeywords : body.keywords with
    | nil =>
      rw [hkeywords] at hmem
      cases hmem
    | cons first others =>
      rw [hkeywords, List.cons_append, List.tail_cons] at hmem
      rcases List.mem_append.1 hmem with hmem | hmem
      · apply h.whenFirst
        rwa [hkeywords]
      · have hk := Option.some.inj (List.mem_singleton.1 hmem)
        rw [hwhen hk.symm] at hkeywords
        cases hkeywords
  · rwa [hnext, List.dropLast_concat]
  · rwa [hnext, List.dropLast_concat]

namespace Draft

theorem keywords_addText (h : d.stage.admits none = true) (line : TextLine) :
    (d.addText line).1.body.keywords = d.body.keywords := by
  rw [Body.keywords, places_addText h, keywords_mapLast]
  rfl

/-- Where a keyword opens a place, an IF opens the first, and no place was opened by an ELSE or a DEFAULT. -/
theorem Opens.keywords (h : d.Opens k) :
    (k = .when → d.body.keywords = []) ∧ some .otherwise ∉ d.body.keywords ∧ some .fallback ∉ d.body.keywords := by
  cases d with
  | undecided => exact ⟨fun _ => rfl, List.not_mem_nil, List.not_mem_nil⟩
  | text ls => exact absurd h Opens.not_text
  | conditional bs =>
    obtain ⟨hkeyword, hlast⟩ := h.branch
    have hplaces : ∀ l, some l ∈ (conditional bs).body.keywords → ∃ b ∈ bs, b.kind.keyword = l := by
      intro l hl
      simpa [body, Body.keywords, Body.places, Branch.place] using hl
    refine ⟨?_, ?_, ?_⟩
    · rintro rfl
      rcases hkeyword with hkeyword | hkeyword <;> cases hkeyword
    · intro hmem
      obtain ⟨b, hb, hkind⟩ := hplaces _ hmem
      have hother := List.any_eq_false.1 hlast b hb
      cases hopener : b.kind with
      | otherwise => exact hother (beq_iff_eq.2 hopener)
      | when | elseWhen =>
        rw [hopener] at hkind
        cases hkind
    · intro hmem
      obtain ⟨b, -, hkind⟩ := hplaces _ hmem
      cases hopener : b.kind <;>
      · rw [hopener] at hkind
        cases hkind
  | switch b =>
    obtain ⟨hkeyword, hfallback⟩ := h.case
    have hplaces : ∀ l, some l ∈ (switch b).body.keywords → l = .case := by
      intro l hl
      simp only [body, Body.keywords, Body.places, hfallback, Option.toList_none, List.map_nil, List.append_nil,
        List.map_map, List.mem_map] at hl
      obtain ⟨c, -, hc⟩ := hl
      exact (Option.some.inj hc).symm
    refine ⟨?_, ?_, ?_⟩
    · rintro rfl
      rcases hkeyword with hkeyword | hkeyword <;> cases hkeyword
    · intro hmem
      cases hplaces _ hmem
    · intro hmem
      cases hplaces _ hmem

theorem Opens.ordered (h : d.Opens k) (hd : d.body.Ordered) (expression : Option Segment) (span : Span) :
    (d.addKeyword k expression span).body.Ordered := by
  have hplaces := places_addKeyword h expression span
  by_cases hk : k = .switch
  · rw [openedPlaces, if_pos hk, List.append_nil] at hplaces
    exact hd.congr (congrArg (List.map Place.keyword) hplaces)
  · rw [openedPlaces, if_neg hk] at hplaces
    obtain ⟨hwhen, hotherwise, hfallback⟩ := h.keywords
    apply hd.concat (k := k) _ hwhen hotherwise hfallback
    rw [Body.keywords, hplaces, List.map_append]
    rfl

end Draft

/-! ## One bullet more -/

variable {item : BodyItem} {items : List BodyItem} {result : Draft × List Diagnostic}

theorem Body.HasLead.mono (h : body.HasLead lead findings) (hsub : findings ⊆ more) : body.HasLead lead more := by
  cases body with
  | text ls => exact h
  | structured b => exact h
  | conditional bs => exact h
  | switch b => exact fun line hline => (h line hline).mono hsub

theorem Body.HasLead.congr (h : body.HasLead lead findings) (htexts : textsOf ps = textsOf lead) :
    body.HasLead ps findings := by
  cases body with
  | text ls => exact h.trans htexts.symm
  | structured b => exact h
  | conditional bs => exact htexts.trans h
  | switch b => exact fun line hline => h line (htexts ▸ hline)

namespace Draft

/-- A keyword that opens a block finds no text above. -/
theorem Opens.hasLead (h : d.Opens k) (hlead : d.body.HasLead lead findings) (expression : Option Segment) (span : Span) :
    (d.addKeyword k expression span).body.HasLead lead findings := by
  cases d with
  | undecided =>
    have hnone : textsOf lead = [] := Eq.symm hlead
    have hreported : ∀ line ∈ textsOf lead, Misplaced findings line.span := by
      rw [hnone]
      exact List.forall_mem_nil _
    cases k with
    | when | elseWhen | otherwise => exact hnone
    | switch | case | fallback => exact hreported
  | text ls => exact absurd h Opens.not_text
  | conditional bs =>
    obtain ⟨hk | hk, -⟩ := h.branch
    · subst hk
      exact hlead
    · subst hk
      exact hlead
  | switch b =>
    obtain ⟨hk | hk, -⟩ := h.case
    · subst hk
      exact hlead
    · subst hk
      exact hlead

end Draft

namespace Arrangement

theorem mono (h : Arrangement ps body findings lead sections) (hsub : findings ⊆ more) :
    Arrangement ps body more lead sections :=
  ⟨h.bullets, h.places, h.lead.mono hsub⟩

/-- A keyword that opens no place goes to the lead or to the section it stands in. -/
theorem keyword (h : Arrangement ps body findings lead sections) (hkind : p.keyword? = some k) :
    ∃ lead sections, Arrangement (ps ++ [p]) body findings lead sections := by
  rcases List.eq_nil_or_concat' sections with rfl | ⟨init, s, rfl⟩
  · refine ⟨lead ++ [p], [], ?_, h.places, ?_⟩
    · rw [h.bullets]
      simp
    · apply h.lead.congr
      rw [textsOf_append, textsOf_keyword hkind, List.append_nil]
  · refine ⟨lead, init ++ [s.add p], ?_, ?_, h.lead⟩
    · rw [h.bullets]
      simp [Section.bullets_add]
    · rw [h.places]
      simp [Section.place_add_keyword hkind]

/-- A text that has a place goes to the section it stands in, or to a body of texts. -/
theorem text (h : Arrangement ps d.body findings lead sections) (hd : d.Begun) (hkind : p.keyword? = none)
    (hplace : d.stage.admits none = true) :
    ∃ lead sections, Arrangement (ps ++ [p]) (d.addText p.line).1.body findings lead sections := by
  have hplaces := Draft.places_addText hplace p.line
  rw [h.places] at hplaces
  rcases List.eq_nil_or_concat' sections with rfl | ⟨init, s, rfl⟩
  · refine ⟨lead ++ [p], [], ?_, hplaces, ?_⟩
    · rw [h.bullets]
      simp
    · have hlead := h.lead
      have hnone := h.places
      cases d with
      | undecided =>
        have htexts : textsOf lead = [] := Eq.symm hlead
        show [p.line] = textsOf (lead ++ [p])
        rw [textsOf_append, textsOf_text hkind, htexts, List.nil_append]
      | text ls =>
        have htexts : ls = textsOf lead := hlead
        show ls ++ [p.line] = textsOf (lead ++ [p])
        rw [textsOf_append, textsOf_text hkind, htexts]
      | conditional bs =>
        -- A conditional block has a branch, and so a place.
        have hempty : bs = [] := List.map_eq_nil_iff.1 hnone
        rw [hempty] at hd
        exact absurd rfl hd
      | switch b =>
        -- In a switch block without places no text has a place.
        obtain ⟨hcases, hfallback⟩ := List.append_eq_nil_iff.1 hnone
        have hcases : b.cases = [] := List.map_eq_nil_iff.1 hcases
        have hfallback : b.fallback = none := by simpa using hfallback
        simp [Draft.stage, hcases, hfallback, Stage.admits] at hplace
  · refine ⟨lead, init ++ [s.add p], ?_, ?_, ?_⟩
    · rw [h.bullets]
      simp [Section.bullets_add]
    · rw [hplaces]
      simp [mapLast_append_singleton, Section.place_add_text hkind]
    · have hlead := h.lead
      cases d with
      | undecided =>
        have hsome := h.places
        simp [Draft.body, Body.places] at hsome
      | text ls =>
        have hsome := h.places
        simp [Draft.body, Body.places] at hsome
      | conditional bs => exact hlead
      | switch b =>
        simp only [Draft.addText]
        split
        · exact hlead
        · exact hlead

/-- A text that has no place is reported, and stands above all cases of a switch block. -/
theorem lost (h : Arrangement ps d.body findings lead sections) (hkind : p.keyword? = none)
    (hplace : d.stage.admits none = false) (hfindings : Misplaced findings p.span) :
    ∃ lead sections, Arrangement (ps ++ [p]) d.body findings lead sections := by
  cases d with
  | undecided => cases hplace
  | text ls => cases hplace
  | conditional bs =>
    simp only [Draft.stage] at hplace
    split at hplace <;> cases hplace
  | switch b =>
    have hnone : (Draft.switch b).body.places = [] := by
      simp only [Draft.stage] at hplace
      split at hplace
      · cases hplace
      · next hfallback =>
        split at hplace
        · next hcases =>
          have hfallback : b.fallback = none := by simpa using hfallback
          have hcases : b.cases = [] := by simpa using hcases
          simp [Draft.body, Body.places, hcases, hfallback]
        · cases hplace
    have hsections : sections = [] := by
      rw [h.places] at hnone
      exact List.map_eq_nil_iff.1 hnone
    subst hsections
    refine ⟨lead ++ [p], [], ?_, h.places, ?_⟩
    · rw [h.bullets]
      simp
    · intro line hline
      rw [textsOf_append, textsOf_text hkind] at hline
      rcases List.mem_append.1 hline with hline | hline
      · exact h.lead line hline
      · rw [List.mem_singleton.1 hline]
        exact hfindings

/-- A keyword that opens a place begins a section. -/
theorem opening (h : Arrangement ps d.body findings lead sections) (hkind : p.keyword? = some k) (hopens : d.Opens k)
    (expression : Option Segment) :
    ∃ lead sections, Arrangement (ps ++ [p]) (d.addKeyword k expression p.span).body findings lead sections := by
  have hplaces := Draft.places_addKeyword hopens expression p.span
  rw [h.places] at hplaces
  have hlead := hopens.hasLead h.lead expression p.span
  by_cases hk : k = .switch
  · rw [Draft.openedPlaces, if_pos hk, List.append_nil] at hplaces
    exact keyword ⟨h.bullets, hplaces, hlead⟩ hkind
  · rw [Draft.openedPlaces, if_neg hk] at hplaces
    refine ⟨lead, sections ++ [⟨p, []⟩], ?_, ?_, hlead⟩
    · rw [h.bullets]
      simp [Section.bullets]
    · rw [hplaces]
      simp [Section.place, textsOf, hkind]

end Arrangement

/-- **One group of lines more, and the bullets are still arranged.** -/
theorem Draft.Reads.arrangement (h : d.Reads item result) (hd : d.Begun)
    (harranged : Arrangement ps d.body findings lead sections) :
    ∃ lead sections,
      Arrangement (ps ++ item.passage?.toList) result.1.body (findings ++ result.2) lead sections := by
  have hbefore := harranged.mono (List.subset_append_left findings result.2)
  cases h with
  | stray hfindings => exact ⟨lead, sections, by simpa [BodyItem.passage?] using hbefore⟩
  | text hkind hplace hfindings => exact hbefore.text hd hkind hplace
  | lost hkind hplace hfindings =>
    exact hbefore.lost hkind hplace (hfindings.mono (List.subset_append_right _ _))
  | keyword expression hkind hplace hfindings => exact hbefore.opening hkind (Or.inl hplace) expression
  | misplaced expression hkind hplace hopens hfindings => exact hbefore.opening hkind (Or.inr hopens) expression
  | dropped hkind hplace hdrops hfindings => exact hbefore.keyword hkind

theorem Draft.Reads.ordered (h : d.Reads item result) (hd : d.body.Ordered) : result.1.body.Ordered := by
  cases h with
  | stray hfindings => exact hd
  | text hkind hplace hfindings => exact hd.congr (keywords_addText hplace _)
  | lost hkind hplace hfindings => exact hd
  | keyword expression hkind hplace hfindings => exact Opens.ordered (Or.inl hplace) hd expression _
  | misplaced expression hkind hplace hopens hfindings => exact Opens.ordered (Or.inr hopens) hd expression _
  | dropped hkind hplace hdrops hfindings => exact hd

/-! ## Whole bodies -/

theorem Draft.addAll_ordered (hd : d.body.Ordered) (items : List BodyItem) : (d.addAll items).1.body.Ordered := by
  induction items generalizing d with
  | nil => exact hd
  | cons item items ih => exact ih ((d.add_reads item).ordered hd)

theorem Draft.addAll_arrangement (hd : d.Begun) (harranged : Arrangement ps d.body findings lead sections)
    (items : List BodyItem) :
    ∃ lead sections,
      Arrangement (ps ++ items.filterMap BodyItem.passage?) (d.addAll items).1.body (findings ++ (d.addAll items).2)
        lead sections := by
  induction items generalizing d ps findings lead sections with
  | nil =>
    refine ⟨lead, sections, ?_⟩
    simpa [addAll] using harranged
  | cons item items ih =>
    obtain ⟨lead', sections', hnext⟩ := (d.add_reads item).arrangement hd harranged
    obtain ⟨lead'', sections'', hall⟩ := ih (add_begun hd item) hnext
    refine ⟨lead'', sections'', ?_⟩
    have hbullets : (item :: items).filterMap BodyItem.passage? =
        item.passage?.toList ++ items.filterMap BodyItem.passage? := by
      cases item with
      | bullet start text => rfl
      | stray span => rfl
    rw [hbullets, ← List.append_assoc]
    simpa [addAll] using hall

/-- Every place was opened by a keyword. -/
theorem Body.keyword_ne_none (b : Body) : ∀ p ∈ b.places, p.keyword ≠ none := by
  intro p hp
  cases b with
  | text ls => cases hp
  | structured s => cases hp
  | conditional bs =>
    obtain ⟨b, -, rfl⟩ := List.mem_map.1 hp
    exact Option.some_ne_none _
  | switch b =>
    rcases List.mem_append.1 hp with hp | hp
    · obtain ⟨c, -, rfl⟩ := List.mem_map.1 hp
      exact Option.some_ne_none _
    · obtain ⟨f, -, rfl⟩ := List.mem_map.1 hp
      exact Option.some_ne_none _

/-- The texts of bullets are those of the lead, and behind them those of the places. -/
theorem Arrangement.textsOf_eq (h : Arrangement ps body findings lead sections) :
    textsOf ps = textsOf lead ++ body.places.flatMap (·.texts) := by
  have hopener : ∀ s ∈ sections, textsOf s.bullets = s.place.texts := by
    intro s hs
    have hkeyword : s.opener.keyword? ≠ none := by
      apply body.keyword_ne_none s.place
      rw [h.places]
      exact List.mem_map_of_mem hs
    obtain ⟨k, hk⟩ := Option.ne_none_iff_exists'.1 hkeyword
    show textsOf ([s.opener] ++ s.below) = textsOf s.below
    rw [textsOf_append, textsOf_keyword hk, List.nil_append]
  have hsections : textsOf (sections.flatMap Section.bullets) = (sections.map Section.place).flatMap (·.texts) := by
    clear h
    induction sections with
    | nil => rfl
    | cons s rest ih =>
      obtain ⟨hs, hrest⟩ := List.forall_mem_cons.1 hopener
      rw [List.flatMap_cons, textsOf_append, hs, ih hrest, List.map_cons, List.flatMap_cons]
  rw [h.places, h.bullets, textsOf_append, hsections]

/-- The texts of bullets are those that the body keeps, behind those in the lead of a switch block. -/
theorem Arrangement.texts (h : Arrangement ps body findings lead sections) :
    textsOf ps = (if body.kind = .switch then textsOf lead else []) ++ body.textLines := by
  have htexts := h.textsOf_eq
  have hlead := h.lead
  cases body with
  | text ls =>
    have hlead : ls = textsOf lead := hlead
    rw [htexts, ← hlead]
    simp [Body.places, Body.kind, Body.textLines]
  | structured b => exact absurd hlead id
  | conditional bs =>
    have hlead : textsOf lead = [] := hlead
    rw [htexts, hlead]
    simp [Body.places, Body.kind, Body.textLines, List.flatMap_map, Branch.place]
  | switch b =>
    rw [htexts]
    cases hfallback : b.fallback <;>
      simp [Body.places, Body.kind, Body.textLines, List.flatMap_map, Case.place, Fallback.place, hfallback]

/-- **No bullet of a body is misplaced exactly when their kinds are in order. In any case the places of the body are in
order, there is one for each section of bullets, with the texts of that section, and every text is kept once, or it stands
above all cases of a switch block and is reported.** -/
theorem bulletBody_arranged (items : List BodyItem) :
    (WellPlaced (bulletBody items).2 ↔ bulletKinds items ∈ Order.all.matches') ∧
      (bulletBody items).1.Ordered ∧
        ∃ lead sections,
          Arrangement (items.filterMap BodyItem.passage?) (bulletBody items).1 (bulletBody items).2 lead sections ∧
            textsOf (items.filterMap BodyItem.passage?) =
              (if (bulletBody items).1.kind = .switch then textsOf lead else []) ++ (bulletBody items).1.textLines := by
  have hempty : Draft.undecided.body.Ordered := ⟨List.not_mem_nil, List.not_mem_nil, List.not_mem_nil⟩
  have hnothing : Arrangement [] Draft.undecided.body [] [] [] := ⟨rfl, rfl, rfl⟩
  obtain ⟨lead, sections, hall⟩ := Draft.addAll_arrangement Draft.undecided_begun hnothing items
  have harranged := hall.mono (List.subset_append_left _ (Draft.undecided.addAll items).1.emptyBranches)
  rw [List.nil_append, List.nil_append] at harranged
  exact ⟨wellPlaced_bulletBody_iff items, Draft.addAll_ordered hempty items, lead, sections, harranged, harranged.texts⟩

end LgLang.Syntax
