import LgLang.Disk.Cache
import LgLang.Proofs.Maps

/-!
# Valid caches

A cache is valid for a disk when each of its texts is the text of the file that is there, modified at the noted time.
Reading through a valid cache is reading without one (`Valid.read_fst`), and it keeps the cache valid. When the disk
changes, a cache stays valid if the files that have changed are forgotten.
-/

namespace LgLang.FileCache

variable {c : FileCache} {d d' : Disk} {u v : Uri}

/-- What the disk has at the path of a URL. -/
def entryAt (d : Disk) (u : Uri) : Option (Except DiskError DiskEntry) :=
  u.url.filePath?.map d.entry

/-- Each cached text is the text of its file. -/
def Valid (c : FileCache) (d : Disk) : Prop :=
  ∀ u f, c.files.get? u = some f → entryAt d u = some (.ok (.file (some f.text) f.modified))

theorem valid_empty (d : Disk) : Valid empty d := by
  intro u f h
  rw [empty, Maps.get?_empty] at h
  cases h

theorem contains_of_get? {f : CachedFile} (h : c.files.get? u = some f) : c.contains u = true := by
  rw [contains, Maps.contains_eq_isSome, h]
  rfl

theorem fresh?_eq_some {modified : Option Nat} {text : String} (h : c.fresh? u modified = some text) :
    c.files.get? u = some ⟨modified, text⟩ ∧ modified.isSome = true := by
  unfold fresh? at h
  split at h
  · next f hget =>
    split at h
    · next hmodified =>
      obtain ⟨hsome, heq⟩ := Bool.and_eq_true_iff.1 hmodified
      obtain rfl := eq_of_beq heq
      obtain rfl := Option.some.inj h
      exact ⟨hget, hsome⟩
    · cases h
  · cases h

theorem fresh?_empty (u : Uri) (modified : Option Nat) : empty.fresh? u modified = none := by
  simp [fresh?, empty]

/-- A cache changes nothing about what is read, if the text that it would give is the one that is there. -/
theorem read_fst_of_fresh (h : ∀ content modified text, entryAt d u = some (.ok (.file content modified)) →
    c.fresh? u modified = some text → content = some text) : (c.read d u).1 = (empty.read d u).1 := by
  unfold read
  cases hpath : u.url.filePath? with
  | none => simp only
  | some path =>
    cases hentry : d.entry path with
    | error e => simp only [hentry]
    | ok entry =>
      cases entry with
      | directory => simp only [hentry]
      | file content modified =>
        simp only [fresh?_empty, hentry]
        cases hfresh : c.fresh? u modified with
        | none => cases content <;> rfl
        | some text =>
          obtain rfl := h content modified text (by rw [entryAt, hpath, Option.map_some, hentry]) hfresh
          rfl

/-- What is cached behind a read was cached before, or is what the disk has. -/
theorem get?_read {f : CachedFile} (h : (c.read d u).2.files.get? v = some f) :
    c.files.get? v = some f ∨ entryAt d v = some (.ok (.file (some f.text) f.modified)) := by
  unfold read at h
  cases hpath : u.url.filePath? with
  | none =>
    simp only [hpath] at h
    exact Or.inl h
  | some path =>
    simp only [hpath] at h
    cases hentry : d.entry path with
    | error e =>
      simp only [hentry] at h
      exact Or.inl h
    | ok entry =>
      simp only [hentry] at h
      cases entry with
      | directory => exact Or.inl h
      | file content modified =>
        cases hfresh : c.fresh? u modified with
        | some text =>
          simp only [hfresh] at h
          exact Or.inl h
        | none =>
          simp only [hfresh] at h
          cases content with
          | none => exact Or.inl h
          | some text =>
            dsimp only at h
            rw [Maps.get?_insert] at h
            by_cases hu : u = v
            · subst hu
              rw [if_pos rfl] at h
              obtain rfl := Option.some.inj h
              right
              rw [entryAt, hpath, Option.map_some, hentry]
            · rw [if_neg hu] at h
              exact Or.inl h

/-- **Reading through a valid cache is reading without one.** -/
theorem Valid.read_fst (h : c.Valid d) (u : Uri) : (c.read d u).1 = (empty.read d u).1 := by
  apply read_fst_of_fresh
  intro content modified text hentry hfresh
  have hvalid := h u _ (fresh?_eq_some hfresh).1
  rw [hentry] at hvalid
  cases hvalid
  rfl

theorem Valid.read_snd (h : c.Valid d) (u : Uri) : (c.read d u).2.Valid d := by
  intro v f hget
  rcases get?_read hget with hcached | hentry
  · exact h v f hcached
  · exact hentry

theorem get?_invalidate {f : CachedFile} (h : (c.invalidate u).files.get? v = some f) :
    v ≠ u ∧ c.files.get? v = some f := by
  rw [invalidate, Maps.get?_erase] at h
  by_cases hu : u = v
  · rw [if_pos hu] at h
    cases h
  · rw [if_neg hu] at h
    exact ⟨Ne.symm hu, h⟩

/-- Without a cache, what is read depends on the entry of the disk only. -/
theorem read_empty_congr (h : entryAt d' u = entryAt d u) : (empty.read d' u).1 = (empty.read d u).1 := by
  unfold read
  cases hpath : u.url.filePath? with
  | none => rfl
  | some path =>
    simp only [entryAt, hpath, Option.map_some, Option.some.injEq] at h
    simp only [h]

end LgLang.FileCache
