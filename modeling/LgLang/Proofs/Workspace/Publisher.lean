import LgLang.Proofs.Maps
import LgLang.Workspace.Publisher

/-!
# What a client has been sent

The list that counts for a document is the last one sent for it (`lastSent?`, and `latest?` for its items). As long as
the client listens, a list that is accepted becomes the latest for its document and takes the place of the tag, and
nothing else changes.
-/

namespace LgLang.Workspace.Publisher

variable {α : Type} {p : Publisher α} {u v : Uri} {tag : Tag} {items : List α}

/-- The list that was last sent for a document. -/
def latest? (p : Publisher α) (u : Uri) : Option (List α) :=
  (p.sent.find? (·.uri == u)).map (·.items)

/-- The last that was sent for a document, with its version. -/
def lastSent? (p : Publisher α) (u : Uri) : Option (Publication α) :=
  p.sent.find? (·.uri == u)

theorem lastSent?_send (h : p.connected = true) (m : Publication α) (v : Uri) :
    (p.send m).lastSent? v = if m.uri = v then some m else p.lastSent? v := by
  unfold send lastSent?
  rw [if_pos h, List.find?_cons]
  by_cases hv : m.uri = v
  · rw [if_pos hv, beq_iff_eq.2 hv]
  · rw [if_neg hv, beq_false_of_ne hv]

theorem latest?_of_lastSent? {q : Publisher α} {m : Publication α}
    (h : q.lastSent? v = if m.uri = v then some m else p.lastSent? v) :
    q.latest? v = if m.uri = v then some m.items else p.latest? v := by
  refine (congrArg (Option.map (·.items)) h).trans ?_
  split <;> rfl

theorem tags_send (p : Publisher α) (m : Publication α) : (p.send m).tags = p.tags := by
  unfold send
  split <;> rfl

theorem connected_send (p : Publisher α) (m : Publication α) : (p.send m).connected = p.connected := by
  unfold send
  split <;> rfl

theorem sentAfter_length (p : Publisher α) : p.sentAfter p.sent.length = [] := by
  unfold sentAfter
  exact List.drop_eq_nil_of_le (Nat.le_of_eq List.length_reverse)

/-- What is sent is a single list, or nothing when the client does not listen. -/
theorem sentAfter_send (p : Publisher α) (m : Publication α) :
    (p.send m).sentAfter p.sent.length = if p.connected then [m] else [] := by
  unfold send
  split
  · show (m :: p.sent).reverse.drop p.sent.length = [m]
    rw [List.reverse_cons, ← List.length_reverse, List.drop_left]
  · exact p.sentAfter_length

/-! ## Taking back -/

theorem connected_clear (p : Publisher α) (u : Uri) : (p.clear u).connected = p.connected :=
  connected_send _ _

theorem get?_tags_clear (p : Publisher α) (u v : Uri) :
    (p.clear u).tags.get? v = if u = v then none else p.tags.get? v := by
  unfold clear
  rw [tags_send]
  exact Maps.get?_erase _ _ _

theorem lastSent?_clear (h : p.connected = true) (u v : Uri) :
    (p.clear u).lastSent? v = if u = v then some ⟨u, none, []⟩ else p.lastSent? v :=
  lastSent?_send (p := { p with tags := p.tags.erase u }) h _ v

theorem latest?_clear (h : p.connected = true) (u v : Uri) :
    (p.clear u).latest? v = if u = v then some [] else p.latest? v :=
  latest?_of_lastSent? (m := ⟨u, none, []⟩) (lastSent?_clear h u v)

theorem sentAfter_clear (p : Publisher α) (u : Uri) :
    (p.clear u).sentAfter p.sent.length = if p.connected then [⟨u, none, []⟩] else [] :=
  sentAfter_send { p with tags := p.tags.erase u } _

/-! ## Sending -/

theorem connected_publish (p : Publisher α) (u : Uri) (tag : Tag) (items : List α) :
    (p.publish u tag items).connected = p.connected := by
  unfold publish
  split
  · exact connected_send _ _
  · rfl

theorem get?_tags_publish (haccepts : p.accepts u tag = true) (v : Uri) :
    (p.publish u tag items).tags.get? v = if u = v then some tag else p.tags.get? v := by
  unfold publish
  rw [if_pos haccepts, tags_send]
  exact Maps.get?_insert _ _ _ _

theorem lastSent?_publish (h : p.connected = true) (haccepts : p.accepts u tag = true) (v : Uri) :
    (p.publish u tag items).lastSent? v = if u = v then some ⟨u, some tag.version, items⟩ else p.lastSent? v := by
  unfold publish
  rw [if_pos haccepts]
  exact lastSent?_send (p := { p with tags := p.tags.insert u tag }) h _ v

theorem latest?_publish (h : p.connected = true) (haccepts : p.accepts u tag = true) (v : Uri) :
    (p.publish u tag items).latest? v = if u = v then some items else p.latest? v :=
  latest?_of_lastSent? (m := ⟨u, some tag.version, items⟩) (lastSent?_publish h haccepts v)

/-- A list is accepted if the one before it was taken back or has an older tag. -/
theorem accepts_iff : p.accepts u tag = true ↔ ∀ old, p.last? u = some old → tag.newer old = true := by
  unfold accepts
  cases p.last? u with
  | none => simp
  | some old => simp

theorem sentAfter_publish (p : Publisher α) (u : Uri) (tag : Tag) (items : List α) :
    (p.publish u tag items).sentAfter p.sent.length =
      if p.accepts u tag ∧ p.connected then [⟨u, some tag.version, items⟩] else [] := by
  unfold publish
  by_cases haccepts : p.accepts u tag = true
  · rw [if_pos haccepts]
    refine (sentAfter_send { p with tags := p.tags.insert u tag } _).trans ?_
    simp only [haccepts, true_and]
  · rw [if_neg haccepts, if_neg fun h => haccepts h.1]
    exact p.sentAfter_length

end LgLang.Workspace.Publisher
