import LgLang.Syntax.Bullet
import LgLang.Proofs.Text.Place

/-!
# Where the groups of body lines stand

Lines that stand one below the other are grouped into items that stand in the text one behind the other
(`groupLines_grouped`). What carries this through the lines is that the text of an open bullet always reaches to the
end of the last line read (`OpenItem.EndsAt`), so that the line feed there and the next line continue it.
-/

namespace LgLang.Syntax

open Text (Stands Line Consecutive byteSize isBlank)

variable {cs : List Char} {lo mid hi n : Nat} {l prev : Line} {ls : List Line}

/-! ## Contents of lines -/

theorem content_of_bullet (h : kindOf l = .bullet) : ∃ rest, l.content = '-' :: rest := by
  unfold kindOf LineKind.ofContent at h
  split at h
  · cases h
  · cases h
  · cases h
  · next c rest _ _ hcontent =>
    split at h
    · cases h
    · split at h
      · next hc => exact ⟨rest, by rw [hcontent, eq_of_beq hc]⟩
      · cases h

/-- Behind the hyphen of a bullet the line goes on to its end. -/
theorem stands_bullet_tail (h : Stands cs l.start l.raw) (hkind : kindOf l = .bullet) :
    Stands cs (l.contentStart + 1) ((Text.trimStart l.raw).drop 1) ∧
      l.contentStart + 1 + byteSize ((Text.trimStart l.raw).drop 1) = l.rawStop := by
  obtain ⟨rest, hcontent⟩ := content_of_bullet hkind
  obtain ⟨blanks, hraw, -⟩ := l.exists_raw_eq
  have hhyphen : ('-' : Char).utf8Size = 1 := rfl
  have hfirst : ∀ c ∈ l.text.takeWhile isBlank, isBlank c = true := fun c hc => List.mem_takeWhile_imp hc
  have htail : (Text.trimStart l.raw).drop 1 = rest ++ blanks := by
    rw [hraw, hcontent, List.append_assoc, Text.trimStart, List.dropWhile_append_of_pos hfirst]
    rfl
  have hsplit : l.raw = l.text.takeWhile isBlank ++ '-' :: (rest ++ blanks) := by
    rw [hraw, hcontent, List.append_assoc, List.cons_append]
  rw [htail]
  refine ⟨?_, ?_⟩
  · rw [hsplit] at h
    have htail := h.right.tail
    rwa [hhyphen] at htail
  · unfold Line.rawStop Line.contentStart
    rw [congrArg byteSize hsplit]
    simp only [Text.byteSize_append, Text.byteSize_cons, hhyphen]
    omega

/-! ## Open groups -/

/-- The offset at which a group begins. -/
def BodyItem.start : BodyItem → Nat
  | bullet start _ => start
  | stray span => span.start

/-- A group stands where its offsets say. -/
def BodyItem.Placed (cs : List Char) : BodyItem → Prop
  | bullet start text => Stands cs start text
  | stray span => span.Fits cs

theorem BodyItem.start_le_stop (item : BodyItem) : item.start ≤ item.stop := by
  cases item with
  | bullet start text => exact Nat.le_add_right _ _
  | stray span => exact span.start_le_stop

namespace OpenItem

/-- The offset at which a group begins. -/
def start : OpenItem → Nat
  | bullet start _ => start
  | stray start _ => start

/-- A group that lines up to offset `n` have made: the text of a bullet reaches there, stray text at most. -/
def EndsAt (cs : List Char) (n : Nat) : OpenItem → Prop
  | bullet start text => Stands cs start text ∧ start + byteSize text = n
  | stray start stop => Text.isBoundary cs start = true ∧ Text.isBoundary cs stop = true ∧ start ≤ stop ∧ stop ≤ n

theorem ofBullet_endsAt (h : Stands cs l.start l.raw) (hkind : kindOf l = .bullet) :
    (ofBullet l).EndsAt cs l.rawStop ∧ l.start ≤ (ofBullet l).start := by
  obtain ⟨hstands, hstop⟩ := stands_bullet_tail h hkind
  have hstart := l.start_le_contentStart
  simp only [ofBullet, splitBlanks]
  split
  · refine ⟨⟨hstands, hstop⟩, ?_⟩
    show l.start ≤ l.contentStart + 1
    omega
  · refine ⟨?_, ?_⟩
    · have hsplit := List.takeWhile_append_dropWhile (p := isBlank) (l := (Text.trimStart l.raw).drop 1)
      rw [← hsplit] at hstands hstop
      rw [Text.byteSize_append, ← Nat.add_assoc] at hstop
      exact ⟨hstands.right, hstop⟩
    · show l.start ≤ l.contentStart + 1 + _
      omega

theorem ofStray_endsAt (h : Stands cs l.start l.raw) :
    (ofStray l).EndsAt cs l.rawStop ∧ l.start ≤ (ofStray l).start := by
  have hcontent := h.content
  refine ⟨⟨hcontent.isBoundary, hcontent.stop_isBoundary, l.contentStart_le_contentStop, ?_⟩, ?_⟩
  · exact l.contentStop_le_rawStop
  · exact l.start_le_contentStart

/-- The line right below continues the group to its own end. -/
theorem extend_endsAt {item : OpenItem} (h : item.EndsAt cs prev.rawStop) (habove : prev.RightAbove cs l)
    (hl : Stands cs l.start l.raw) : (item.extend l).EndsAt cs l.rawStop := by
  have hfeed : ('\n' : Char).utf8Size = 1 := rfl
  obtain ⟨hbetween, hstart⟩ := habove
  have hsize : byteSize ['\n'] = 1 := rfl
  cases item with
  | bullet start text =>
    obtain ⟨htext, hstop⟩ := h
    have hline : Stands cs (start + byteSize text) (['\n'] ++ l.raw) := by
      rw [hstop]
      refine hbetween.append ?_
      rwa [hsize, ← hstart]
    refine ⟨htext.append hline, ?_⟩
    have hend : l.rawStop = prev.rawStop + 1 + byteSize l.raw := congrArg (· + byteSize l.raw) hstart
    rw [Text.byteSize_append, Text.byteSize_cons, hfeed, hend]
    omega
  | stray start stop =>
    obtain ⟨hboundary, -, hle, hstop⟩ := h
    have hcontent := l.start_le_contentStart
    have hcontent' := l.contentStart_le_contentStop
    refine ⟨hboundary, hl.content.stop_isBoundary, ?_, l.contentStop_le_rawStop⟩
    show start ≤ l.contentStop
    omega

@[simp] theorem extend_start (item : OpenItem) (l : Line) : (item.extend l).start = item.start := by
  cases item <;> rfl

@[simp] theorem close_start (item : OpenItem) : item.close.start = item.start := by
  cases item <;> rfl

theorem close_placed {item : OpenItem} (h : item.EndsAt cs n) : item.close.Placed cs ∧ item.close.stop ≤ n := by
  cases item with
  | bullet start text =>
    obtain ⟨htext, hstop⟩ := h
    obtain ⟨blanks, hblanks, -⟩ := Text.exists_trimEnd_append text
    refine ⟨htext.trimEnd, ?_⟩
    rw [← hstop]
    show start + byteSize (Text.trimEnd text) ≤ start + byteSize text
    rw [congrArg byteSize hblanks, Text.byteSize_append]
    omega
  | stray start stop =>
    obtain ⟨hstart, hstop, hle, hn⟩ := h
    refine ⟨Span.fits_between hstart hstop, ?_⟩
    show max start stop ≤ n
    omega

end OpenItem

/-! ## Groups one behind the other -/

/-- Groups that stand in the text between two offsets, each behind the one before it. -/
inductive Grouped (cs : List Char) (hi : Nat) : Nat → List BodyItem → Prop where
  | nil {lo : Nat} : Grouped cs hi lo []
  | cons {lo : Nat} {item : BodyItem} {items : List BodyItem} : item.Placed cs → lo ≤ item.start →
      item.stop ≤ hi → Grouped cs hi item.stop items → Grouped cs hi lo (item :: items)

namespace Grouped

variable {item : BodyItem} {items : List BodyItem}

/-- The groups lie below any offset that none of them passes. -/
theorem of_stop_le (h : Grouped cs hi lo items) (hle : ∀ item ∈ items, item.stop ≤ n) : Grouped cs n lo items := by
  induction h with
  | nil => exact .nil
  | cons hplaced hlo _ _ ih =>
    obtain ⟨hitem, hitems⟩ := List.forall_mem_cons.1 hle
    exact .cons hplaced hlo hitem (ih hitems)

theorem le_stop (h : Grouped cs hi lo items) : ∀ item ∈ items, lo ≤ item.stop ∧ item.stop ≤ hi := by
  induction h with
  | nil => exact fun _ hmem => absurd hmem List.not_mem_nil
  | @cons lo first items _ hlo hhi _ ih =>
    have hfirst := first.start_le_stop
    refine List.forall_mem_cons.2 ⟨⟨by omega, hhi⟩, fun item hitem => ?_⟩
    have hstop := ih item hitem
    omega

end Grouped

/-- Lines that go on right below the end of an open group, if there is one. -/
def Awaits (cs : List Char) (lo hi : Nat) (ls : List Line) : Option OpenItem → Prop
  | none => Consecutive cs ls ∧ ∀ l ∈ ls, lo ≤ l.start
  | some item => ∃ prev, Consecutive cs (prev :: ls) ∧ item.EndsAt cs prev.rawStop ∧ lo ≤ item.start ∧ prev.rawStop ≤ hi

namespace Awaits

variable {current : Option OpenItem}

theorem consecutive (h : Awaits cs lo hi ls current) : Consecutive cs ls := by
  cases current with
  | none => exact h.1
  | some item =>
    obtain ⟨prev, hlines, -⟩ := h
    exact hlines.tail

/-- The open group is closed, and the lines below it make more groups. -/
theorem grouped_close (h : Awaits cs lo hi ls current) {items : List BodyItem}
    (hitems : ∀ lo', (∀ l ∈ ls, lo' ≤ l.start) → Grouped cs hi lo' items) :
    Grouped cs hi lo ((current.map OpenItem.close).toList ++ items) := by
  cases current with
  | none => exact hitems lo h.2
  | some item =>
    obtain ⟨prev, hlines, hends, hlo, hhi⟩ := h
    obtain ⟨hplaced, hstop⟩ := OpenItem.close_placed hends
    refine .cons hplaced (by rwa [OpenItem.close_start]) (Nat.le_trans hstop hhi) (hitems _ ?_)
    intro l hl
    have hbelow := hlines.rawStop_lt l hl
    omega

/-- The line right below continues the group. -/
theorem extend {item : OpenItem} (h : Awaits cs lo hi (l :: ls) (some item)) (hhi : l.rawStop ≤ hi) :
    Awaits cs lo hi ls (some (item.extend l)) := by
  obtain ⟨prev, hlines, hends, hlo, -⟩ := h
  refine ⟨l, hlines.tail, OpenItem.extend_endsAt hends hlines.rightAbove hlines.tail.head, ?_, hhi⟩
  rwa [OpenItem.extend_start]

theorem open_bullet (h : Consecutive cs (l :: ls)) (hkind : kindOf l = .bullet) (hlo : lo ≤ l.start)
    (hhi : l.rawStop ≤ hi) : Awaits cs lo hi ls (some (.ofBullet l)) := by
  obtain ⟨hends, hstart⟩ := OpenItem.ofBullet_endsAt h.head hkind
  exact ⟨l, h, hends, Nat.le_trans hlo hstart, hhi⟩

theorem open_stray (h : Consecutive cs (l :: ls)) (hlo : lo ≤ l.start) (hhi : l.rawStop ≤ hi) :
    Awaits cs lo hi ls (some (.ofStray l)) := by
  obtain ⟨hends, hstart⟩ := OpenItem.ofStray_endsAt h.head
  exact ⟨l, h, hends, Nat.le_trans hlo hstart, hhi⟩

end Awaits

theorem groupFrom_grouped {current : Option OpenItem} (h : Awaits cs lo hi ls current)
    (hhi : ∀ l ∈ ls, l.rawStop ≤ hi) : Grouped cs hi lo (groupFrom current ls) := by
  fun_induction groupFrom current ls generalizing lo with
  | case1 current =>
    have hclosed := h.grouped_close fun _ _ => Grouped.nil
    rwa [List.append_nil] at hclosed
  | case2 current l ls _ ih | case3 current l ls _ ih =>
    obtain ⟨-, hrest⟩ := List.forall_mem_cons.1 hhi
    refine h.grouped_close fun lo' hlo' => ih ⟨h.consecutive.tail, ?_⟩ hrest
    exact (List.forall_mem_cons.1 hlo').2
  | case4 current l ls hkind ih =>
    obtain ⟨hl, hrest⟩ := List.forall_mem_cons.1 hhi
    refine h.grouped_close fun lo' hlo' => ih ?_ hrest
    exact .open_bullet h.consecutive hkind (hlo' l List.mem_cons_self) hl
  | case5 l ls item _ _ _ ih =>
    obtain ⟨hl, hrest⟩ := List.forall_mem_cons.1 hhi
    exact ih (h.extend hl) hrest
  | case6 l ls _ _ _ ih =>
    obtain ⟨hl, hrest⟩ := List.forall_mem_cons.1 hhi
    exact ih (.open_stray h.1 (h.2 l List.mem_cons_self) hl) hrest

/-- **Lines one below the other make groups one behind the other.** -/
theorem groupLines_grouped (h : Consecutive cs ls) (hlo : ∀ l ∈ ls, lo ≤ l.start) (hhi : ∀ l ∈ ls, l.rawStop ≤ hi) :
    Grouped cs hi lo (groupLines ls) :=
  groupFrom_grouped ⟨h, hlo⟩ hhi

end LgLang.Syntax
