import LgLang.Proofs.Disk.Cache
import LgLang.Proofs.Maps
import LgLang.Proofs.Workspace.Dependencies
import LgLang.Workspace
import Mathlib.Data.List.Induction

/-!
# What the workspace keeps

What each operation on a workspace does to the parts that others look up: the open documents, the results kept for them
and the files read. With a valid cache, reading is looking at the open documents and the disk (`read_eq_present`).
-/

namespace LgLang.Workspace

variable {w : Workspace} {d : Disk} {u v : Uri}

/-! ## Documents -/

theorem Documents.isOpen_iff {ds : Documents} : ds.isOpen u = true ↔ ∃ document, ds.get? u = some document := by
  rw [isOpen, Maps.contains_eq_isSome, Option.isSome_iff_exists]
  exact Iff.rfl

theorem Documents.get?_opened (ds : Documents) (u : Uri) (document : Document) (v : Uri) :
    (ds.opened u document).get? v = if u = v then some document else ds.get? v :=
  Maps.get?_insert _ _ _ _

theorem Documents.get?_close (ds : Documents) (u v : Uri) :
    (ds.close u).get? v = if u = v then none else ds.get? v :=
  Maps.get?_erase _ _ _

/-- A batch that is taken is newer, and it leaves the text behind all of its changes. -/
theorem Document.change_eq_ok_iff_applyAll {document new : Document} {version : Int} {changes : List Change} :
    document.change u version changes = .ok new ↔
      document.version < version ∧ ∃ cs, applyAll document.content.toList changes = .ok cs ∧
        new = { document with version, content := String.ofList cs } := by
  unfold Document.change
  by_cases hversion : version ≤ document.version
  · simp [hversion, Int.not_lt.2 hversion]
  · have hnewer : document.version < version := Int.not_le.1 hversion
    cases happly : applyAll document.content.toList changes with
    | error p => simp [hversion]
    | ok cs => simp [hversion, hnewer, eq_comm]

theorem Documents.change_eq_ok_iff_document {ds ds' : Documents} {version : Int} {changes : List Change} :
    ds.change u version changes = .ok ds' ↔ ∃ document new, ds.get? u = some document ∧
      document.change u version changes = .ok new ∧ ds' = ds.opened u new := by
  unfold Documents.change
  cases hget : ds.get? u with
  | none => simp
  | some document =>
    cases hchange : document.change u version changes with
    | error e => simp [hchange]
    | ok new =>
      simp only [hchange, Except.ok.injEq, Option.some.injEq, exists_and_left, exists_eq_left', eq_comm (a := ds')]
      exact Iff.rfl

/-- A batch of changes that is taken gives the open document a newer version. -/
theorem Documents.of_change {ds ds' : Documents} {version : Int} {changes : List Change}
    (h : ds.change u version changes = .ok ds') :
    ∃ old new, ds.get? u = some old ∧ old.version < new.version ∧
      ∀ v, ds'.get? v = if u = v then some new else ds.get? v := by
  obtain ⟨old, new, hold, hchange, rfl⟩ := change_eq_ok_iff_document.1 h
  obtain ⟨hnewer, cs, _, rfl⟩ := Document.change_eq_ok_iff_applyAll.1 hchange
  exact ⟨old, _, hold, hnewer, ds.get?_opened u _⟩

/-! ## Results -/

/-- A result whose ground has changed. -/
def Snapshot.outdated {α : Type} (s : Snapshot α) : Snapshot α :=
  { s with stale := true }

theorem Snapshots.get?_markStale {α : Type} (s : Snapshots α) (u v : Uri) :
    (s.markStale u).get? v = if u = v then (s.get? v).map Snapshot.outdated else s.get? v := by
  unfold markStale
  cases hget : s.get? u with
  | none =>
    by_cases hu : u = v
    · rw [if_pos hu, ← hu, hget]
      rfl
    · rw [if_neg hu]
  | some snapshot =>
    refine (Maps.get?_insert _ _ _ _).trans ?_
    by_cases hu : u = v
    · rw [if_pos hu, if_pos hu, ← hu, hget]
      rfl
    · rw [if_neg hu, if_neg hu]
      rfl

/-- A result that is outdated twice is outdated. -/
theorem Snapshot.outdated_twice {α : Type} {p q both : Prop} [Decidable p] [Decidable q] [Decidable both]
    (h : both ↔ p ∨ q) (s : Option (Snapshot α)) :
    (if q then (if p then s.map outdated else s).map outdated else if p then s.map outdated else s) =
      if both then s.map outdated else s := by
  by_cases hq : q
  · rw [if_pos hq, if_pos (h.2 (Or.inr hq))]
    split
    · rw [Option.map_map]
      rfl
    · rfl
  · rw [if_neg hq]
    by_cases hp : p
    · rw [if_pos hp, if_pos (h.2 (Or.inl hp))]
    · rw [if_neg hp, if_neg fun hboth => (h.1 hboth).elim hp hq]

theorem Snapshots.get?_foldl_markStale {α : Type} (us : List Uri) (s : Snapshots α) (v : Uri) :
    (us.foldl markStale s).get? v = if v ∈ us then (s.get? v).map Snapshot.outdated else s.get? v := by
  induction us generalizing s with
  | nil => rfl
  | cons u us ih =>
    rw [List.foldl_cons, ih, get?_markStale]
    refine Snapshot.outdated_twice ?_ _
    rw [List.mem_cons, eq_comm]

theorem Snapshots.get?_remove {α : Type} (s : Snapshots α) (u v : Uri) :
    (s.remove u).get? v = if u = v then none else s.get? v :=
  Maps.get?_erase _ _ _

theorem Tag.newer_iff {a b : Tag} :
    a.newer b = true ↔ b.version < a.version ∨ (a.version = b.version ∧ b.sequence < a.sequence) := by
  unfold newer
  rw [beq_iff_eq]
  show (compare a.version b.version).then (compare a.sequence b.sequence) = .gt ↔ _
  rw [Ordering.then_eq_gt, Int.compare_eq_gt, Nat.compare_eq_gt, Int.compare_eq_eq]

/-- Only its version can make the tag of an earlier job the newer one. -/
theorem Tag.version_lt_of_not_newer {a b : Tag} (h : a.newer b = false) (hsequence : b.sequence < a.sequence) :
    a.version < b.version := by
  have hnot := Bool.eq_false_iff.1 h
  rw [Ne, newer_iff] at hnot
  omega

/-- A result is accepted unless there is one whose tag is as new. -/
theorem Snapshots.commit?_eq {α : Type} (s : Snapshots α) (u : Uri) (snapshot : Snapshot α) :
    s.commit? u snapshot =
      if ∀ old, s.get? u = some old → snapshot.tag.newer old.tag = true then some ⟨s.byUri.insert u snapshot⟩
      else none := by
  unfold commit?
  cases hget : s.get? u with
  | none => rw [if_pos fun _ h => by cases h]
  | some old => simp

/-- What a mark leaves of a result. -/
theorem Snapshot.of_outdated {α : Type} {p : Prop} [Decidable p] {before after : Option (Snapshot α)} {s' : Snapshot α}
    (h : after = if p then before.map Snapshot.outdated else before) (hs' : after = some s') :
    ∃ s, before = some s ∧ s'.content = s.content ∧ s'.tag = s.tag ∧ (p → s'.stale = true) := by
  by_cases hp : p
  · rw [if_pos hp, hs'] at h
    obtain ⟨s, hs, rfl⟩ := Option.map_eq_some_iff.1 h.symm
    exact ⟨s, hs, rfl, rfl, fun _ => rfl⟩
  · rw [if_neg hp, hs'] at h
    exact ⟨s', h.symm, rfl, rfl, fun h => absurd h hp⟩

theorem Snapshot.none_of_outdated {α : Type} {p : Prop} [Decidable p] {before after : Option (Snapshot α)}
    (h : after = if p then before.map Snapshot.outdated else before) (hnone : after = none) : before = none := by
  by_cases hp : p
  · rw [if_pos hp, hnone] at h
    exact Option.map_eq_none_iff.1 h.symm
  · rw [if_neg hp, hnone] at h
    exact h.symm

theorem mem_openDependents : v ∈ w.openDependents u ↔ v ∈ w.dependencies.affected u ∧ w.documents.isOpen v = true :=
  List.mem_filter

theorem openDependents_markDependentsStale (w : Workspace) (u v : Uri) :
    (w.markDependentsStale u).openDependents v = w.openDependents v :=
  rfl

theorem get?_markDependentsStale (w : Workspace) (u v : Uri) :
    (w.markDependentsStale u).snapshots.get? v =
      if v ∈ w.openDependents u then (w.snapshots.get? v).map Snapshot.outdated else w.snapshots.get? v :=
  Snapshots.get?_foldl_markStale _ _ v

/-! ## Changes of documents -/

/-- What a change of a document leads to. The results of the document and of those that depend on it are outdated. -/
structure ChangeFollowed (w : Workspace) (u : Uri) (after : Workspace) (old new : Document) : Prop where
  document : w.documents.get? u = some old
  newer : old.version < new.version
  documents : ∀ v, after.documents.get? v = if u = v then some new else w.documents.get? v
  dependencies : after.dependencies = w.dependencies
  files : after.files = w.files
  config : after.config = w.config
  snapshots : ∀ v, after.snapshots.get? v =
    if v = u ∨ v ∈ after.openDependents u then (w.snapshots.get? v).map Snapshot.outdated else w.snapshots.get? v

theorem changeDocument_followed {version : Int} {changes : List Change} {after : Workspace}
    (h : w.changeDocument u version changes = .ok after) : ∃ old new, w.ChangeFollowed u after old new := by
  unfold changeDocument at h
  cases hdocuments : w.documents.change u version changes with
  | error e =>
    simp only [hdocuments] at h
    cases h
  | ok documents =>
    simp only [hdocuments] at h
    obtain rfl := Except.ok.inj h
    obtain ⟨old, new, hold, hnewer, hget⟩ := Documents.of_change hdocuments
    refine ⟨old, new, hold, hnewer, hget, rfl, rfl, rfl, fun v => ?_⟩
    rw [get?_markDependentsStale, openDependents_markDependentsStale, Snapshots.get?_markStale]
    exact Snapshot.outdated_twice (or_congr_left eq_comm) _

/-- The results of the documents that depend on a closed one are outdated, and its own is gone. -/
theorem get?_closeDocument (w : Workspace) (u v : Uri) :
    (w.closeDocument u).snapshots.get? v =
      if u = v then none
      else if v ∈ (w.closeDocument u).openDependents u then (w.snapshots.get? v).map Snapshot.outdated
      else w.snapshots.get? v := by
  unfold closeDocument
  rw [get?_markDependentsStale, openDependents_markDependentsStale, Snapshots.get?_remove]
  by_cases hu : u = v
  · rw [if_pos hu, if_pos hu, Option.map_none, ite_self]
  · rw [if_neg hu, if_neg hu]

/-! ## Reading -/

/-- What the open documents and the disk say of a document. -/
def present (w : Workspace) (d : Disk) (u : Uri) : Except SourceError String :=
  match w.documents.get? u with
  | some document => .ok document.content
  | none => (FileCache.empty.read d u).1

theorem present_of_get? {document : Document} (h : w.documents.get? u = some document) :
    w.present d u = .ok document.content := by
  rw [present, h]

theorem present_of_closed (h : w.documents.get? u = none) : w.present d u = (FileCache.empty.read d u).1 := by
  rw [present, h]

theorem present_congr {w' : Workspace} (h : w'.documents.get? u = w.documents.get? u) :
    w'.present d u = w.present d u := by
  rw [present, present, h]

/-- **With a valid cache, reading is looking at the open documents and the disk.** -/
theorem read_eq_present (h : w.files.Valid d) : w.read d = w.present d := by
  funext u
  unfold read present
  cases w.documents.get? u with
  | none => exact h.read_fst u
  | some _ => rfl

theorem afterRead_parts (w : Workspace) (d : Disk) (u : Uri) :
    (w.afterRead d u).documents = w.documents ∧ (w.afterRead d u).dependencies = w.dependencies ∧
      (w.afterRead d u).snapshots = w.snapshots ∧ (w.afterRead d u).config = w.config := by
  unfold afterRead
  split <;> exact ⟨rfl, rfl, rfl, rfl⟩

theorem afterReads_parts (us : List Uri) (w : Workspace) (d : Disk) :
    (w.afterReads d us).documents = w.documents ∧ (w.afterReads d us).dependencies = w.dependencies ∧
      (w.afterReads d us).snapshots = w.snapshots ∧ (w.afterReads d us).config = w.config := by
  induction us generalizing w with
  | nil => exact ⟨rfl, rfl, rfl, rfl⟩
  | cons u us ih =>
    obtain ⟨hdocuments, hdependencies, hsnapshots, hconfig⟩ := ih (w.afterRead d u)
    obtain ⟨hdocuments', hdependencies', hsnapshots', hconfig'⟩ := w.afterRead_parts d u
    exact ⟨hdocuments.trans hdocuments', hdependencies.trans hdependencies', hsnapshots.trans hsnapshots',
      hconfig.trans hconfig'⟩

theorem valid_afterRead (h : w.files.Valid d) (u : Uri) : (w.afterRead d u).files.Valid d := by
  unfold afterRead
  split
  · exact h
  · exact h.read_snd u

theorem valid_afterReads (us : List Uri) (h : w.files.Valid d) : (w.afterReads d us).files.Valid d := by
  induction us generalizing w with
  | nil => exact h
  | cons u us ih => exact ih (valid_afterRead h u)

/-! ## Changes of files -/

/-- What follows from changes of files: the files are forgotten, and the results of the open documents that depend on a
changed file that is not open are outdated. -/
structure FilesFollowed (w : Workspace) (us : List Uri) (after : Workspace) (concerned : List Uri) : Prop where
  documents : after.documents = w.documents
  dependencies : after.dependencies = w.dependencies
  config : after.config = w.config
  files : ∀ v f, after.files.files.get? v = some f → v ∉ us ∧ w.files.files.get? v = some f
  mem_concerned : ∀ v, v ∈ concerned ↔ ∃ u ∈ us, w.documents.isOpen u = false ∧ v ∈ w.openDependents u
  snapshots : ∀ v, after.snapshots.get? v =
    if v ∈ concerned then (w.snapshots.get? v).map Snapshot.outdated else w.snapshots.get? v

/-- One more file concerns the open documents that depend on it, unless it is open itself. -/
theorem concerned_append (us : List Uri) (u v : Uri) :
    (∃ x ∈ us ++ [u], w.documents.isOpen x = false ∧ v ∈ w.openDependents x) ↔
      (∃ x ∈ us, w.documents.isOpen x = false ∧ v ∈ w.openDependents x) ∨
        (w.documents.isOpen u = false ∧ v ∈ w.openDependents u) := by
  constructor
  · rintro ⟨x, hx, hrest⟩
    rcases List.mem_append.1 hx with hold | hnew
    · exact Or.inl ⟨x, hold, hrest⟩
    · exact Or.inr (List.mem_singleton.1 hnew ▸ hrest)
  · rintro (⟨x, hx, hrest⟩ | hrest)
    · exact ⟨x, List.mem_append_left _ hx, hrest⟩
    · exact ⟨u, List.mem_append_right _ List.mem_cons_self, hrest⟩

/-- Nothing that was forgotten is in the cache again when one more file is. -/
theorem FilesFollowed.files_invalidate {us : List Uri} {after : Workspace} {concerned : List Uri}
    (h : w.FilesFollowed us after concerned) (u v : Uri) (f : CachedFile)
    (hv : (after.files.invalidate u).files.get? v = some f) : v ∉ us ++ [u] ∧ w.files.files.get? v = some f := by
  obtain ⟨hne, hv⟩ := FileCache.get?_invalidate hv
  obtain ⟨hus, hv⟩ := h.files v f hv
  refine ⟨fun hmem => ?_, hv⟩
  rcases List.mem_append.1 hmem with hold | hnew
  · exact hus hold
  · exact hne (List.mem_singleton.1 hnew)

theorem FilesFollowed.next {us : List Uri} {after : Workspace} {concerned : List Uri}
    (h : w.FilesFollowed us after concerned) (u : Uri) :
    w.FilesFollowed (us ++ [u]) (after.fileChanged u).1 (concerned ++ (after.fileChanged u).2) := by
  have hdependents : openDependents { after with files := after.files.invalidate u } u = w.openDependents u := by
    unfold openDependents
    rw [h.documents, h.dependencies]
  by_cases hopen : w.documents.isOpen u = true
  · -- An open document is read from the client, so that a change of its file concerns nobody.
    have hstep : after.fileChanged u = ({ after with files := after.files.invalidate u }, []) := by
      unfold fileChanged
      rw [← h.documents] at hopen
      simp only [hopen, if_true]
    rw [hstep, List.append_nil]
    refine
      { documents := h.documents
        dependencies := h.dependencies
        config := h.config
        files := h.files_invalidate u
        mem_concerned := fun v => ?_
        snapshots := h.snapshots }
    rw [concerned_append, h.mem_concerned]
    exact (or_iff_left fun hu => absurd hopen (Bool.eq_false_iff.1 hu.1)).symm
  · have hclosed : w.documents.isOpen u = false := Bool.eq_false_iff.2 hopen
    have hstep : after.fileChanged u =
        (markDependentsStale { after with files := after.files.invalidate u } u, w.openDependents u) := by
      unfold fileChanged
      rw [← h.documents] at hopen
      simp only [hopen]
      rw [hdependents]
      rfl
    rw [hstep]
    refine
      { documents := h.documents
        dependencies := h.dependencies
        config := h.config
        files := h.files_invalidate u
        mem_concerned := fun v => ?_
        snapshots := fun v => ?_ }
    · rw [List.mem_append, h.mem_concerned, concerned_append]
      exact or_congr_right (and_iff_right hclosed).symm
    · show (markDependentsStale { after with files := after.files.invalidate u } u).snapshots.get? v = _
      rw [get?_markDependentsStale, hdependents, h.snapshots]
      exact Snapshot.outdated_twice List.mem_append _

theorem filesChanged_followed (w : Workspace) (us : List Uri) :
    w.FilesFollowed us (w.filesChanged us).1 (w.filesChanged us).2 := by
  have hfold : ∀ us : List Uri, w.FilesFollowed us
      (us.foldl (fun all u => ((all.1.fileChanged u).1, all.2 ++ (all.1.fileChanged u).2)) (w, [])).1
      (us.foldl (fun all u => ((all.1.fileChanged u).1, all.2 ++ (all.1.fileChanged u).2)) (w, [])).2 := by
    intro us
    induction us using List.reverseRecOn with
    | nil =>
      exact
        { documents := rfl
          dependencies := rfl
          config := rfl
          files := fun _ _ h => ⟨List.not_mem_nil, h⟩
          mem_concerned := fun _ =>
            ⟨fun h => absurd h List.not_mem_nil, fun h => absurd h.choose_spec.1 List.not_mem_nil⟩
          snapshots := fun _ => rfl }
    | append_singleton us u ih =>
      rw [List.foldl_append]
      exact ih.next u
  have hall := hfold us
  have hsort : ∀ (concerned : List Uri) (v : Uri), v ∈ (Std.TreeSet.ofList concerned).toList ↔ v ∈ concerned := by
    intro concerned v
    rw [Std.TreeSet.mem_toList, Std.TreeSet.mem_ofList, List.contains_iff_mem]
  refine
    { documents := hall.documents
      dependencies := hall.dependencies
      config := hall.config
      files := hall.files
      mem_concerned := fun v => (hsort _ v).trans (hall.mem_concerned v)
      snapshots := fun v => ?_ }
  refine (hall.snapshots v).trans ?_
  by_cases hv : v ∈ (w.filesChanged us).2
  · rw [if_pos hv, if_pos ((hsort _ v).1 hv)]
  · rw [if_neg hv, if_neg fun h => hv ((hsort _ v).2 h)]

end LgLang.Workspace
