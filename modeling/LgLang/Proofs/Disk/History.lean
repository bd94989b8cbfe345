import LgLang.Proofs.Disk.Cache
import Mathlib.Data.List.Induction

/-!
# Caches along a history

Files are written, removed and replaced while others are read, and a cache is not told of it. Still, reading through the
cache is reading the disk, after every history in which two contents of a file never have the same time of modification
(`Dated`, `read_run_transparent`). A cached text may be out of date, but some disk of the history had it in its file at
the noted time (`Recorded`): it is used only where the file has this time again, and then the file has the text again.
-/

namespace LgLang.FileCache

/-! ## Histories -/

/-- What happens to a disk and to a cache of its files. -/
inductive Event where
  /-- The disk has become this one. -/
  | changed (disk : Disk)
  | read (u : Uri)
  | invalidated (u : Uri)
  | cleared

/-- The disk that an event brings. -/
def Event.disk? : Event → Option Disk
  | .changed disk => some disk
  | _ => none

/-- A disk with a cache of its files. -/
structure Setting where
  disk : Disk
  cache : FileCache

def Setting.step (s : Setting) : Event → Setting
  | .changed disk => { s with disk }
  | .read u => { s with cache := (s.cache.read s.disk u).2 }
  | .invalidated u => { s with cache := s.cache.invalidate u }
  | .cleared => { s with cache := empty }

/-- The disk and the cache at the end of a history, which began with that disk and without cached files. -/
def run (d : Disk) (es : List Event) : Setting :=
  es.foldl Setting.step ⟨d, empty⟩

/-- The disks of a history. -/
def disks (d : Disk) (es : List Event) : List Disk :=
  d :: es.filterMap Event.disk?

/-- Two contents of a file never have the same time of modification. -/
def Dated (ds : List Disk) : Prop :=
  ∀ d ∈ ds, ∀ d' ∈ ds, ∀ path content content' time, d.entry path = .ok (.file content (some time)) →
    d'.entry path = .ok (.file content' (some time)) → content = content'

/-- What is to be told of a document that is read from a disk. -/
inductive Tells (d : Disk) (u : Uri) : Except SourceError String → Prop
  | notAFile (hpath : u.url.filePath? = none) : Tells d u (.error (.notAFile u))
  | missing {path : String} (hpath : u.url.filePath? = some path) (hentry : d.entry path = .error .notFound) :
      Tells d u (.error (.notFound u))
  | unreachable {path : String} {e : DiskError} (hpath : u.url.filePath? = some path)
      (hentry : d.entry path = .error e) (he : e ≠ .notFound) : Tells d u (.error (.unreadable u e.message))
  | irregular {path : String} (hpath : u.url.filePath? = some path) (hentry : d.entry path = .ok .directory) :
      Tells d u (.error (.unreadable u "not a regular file"))
  | noText {path : String} {modified : Option Nat} (hpath : u.url.filePath? = some path)
      (hentry : d.entry path = .ok (.file none modified)) :
      Tells d u (.error (.unreadable u "stream did not contain valid UTF-8"))
  | text {path text : String} {modified : Option Nat} (hpath : u.url.filePath? = some path)
      (hentry : d.entry path = .ok (.file (some text) modified)) : Tells d u (.ok text)

variable {c : FileCache} {d d' : Disk} {ds : List Disk} {u v : Uri} {e : Event} {es : List Event} {s : Setting}

/-- Only what is not found is told to be missing. -/
theorem sourceError_of_ne {e : DiskError} (h : e ≠ .notFound) (u : Uri) :
    e.sourceError u = .unreadable u e.message := by
  cases e with
  | notFound => exact absurd rfl h
  | _ => rfl

/-- Without a cache, the disk tells everything. -/
theorem read_empty_tells (d : Disk) (u : Uri) : Tells d u (empty.read d u).1 := by
  unfold read
  cases hpath : u.url.filePath? with
  | none => exact .notAFile hpath
  | some path =>
    cases hentry : d.entry path with
    | error e =>
      simp only [hentry]
      by_cases hmissing : e = .notFound
      · subst hmissing
        exact .missing hpath hentry
      · rw [sourceError_of_ne hmissing]
        exact .unreachable hpath hentry hmissing
    | ok entry =>
      simp only [hentry]
      cases entry with
      | directory => exact .irregular hpath hentry
      | file content modified =>
        simp only [fresh?_empty]
        cases content with
        | none => exact .noText hpath hentry
        | some text => exact .text hpath hentry

/-! ## What a cache remembers -/

/-- Each text that is cached with a time was in its file at that time, on one of the disks. -/
def Recorded (ds : List Disk) (c : FileCache) : Prop :=
  ∀ u f, c.files.get? u = some f → f.modified.isSome = true →
    ∃ d ∈ ds, entryAt d u = some (.ok (.file (some f.text) f.modified))

theorem recorded_empty (ds : List Disk) : Recorded ds empty := by
  intro u f hget
  rw [empty, Maps.get?_empty] at hget
  cases hget

theorem Recorded.mono {ds' : List Disk} (h : Recorded ds c) (hds : ds ⊆ ds') : Recorded ds' c := by
  intro u f hget hmodified
  obtain ⟨d, hd, hentry⟩ := h u f hget hmodified
  exact ⟨d, hds hd, hentry⟩

theorem Recorded.step (h : Recorded ds s.cache) (hdisk : s.disk ∈ ds) (e : Event) :
    Recorded ds (s.step e).cache := by
  cases e with
  | changed disk => exact h
  | read u =>
    intro v f hget hmodified
    rcases get?_read hget with hcached | hentry
    · exact h v f hcached hmodified
    · exact ⟨s.disk, hdisk, hentry⟩
  | invalidated u =>
    intro v f hget hmodified
    exact h v f (get?_invalidate hget).2 hmodified
  | cleared => exact recorded_empty ds

/-- A cache whose texts were recorded on dated disks gives no text that the file does not have. -/
theorem Recorded.read_fst (h : Recorded ds c) (hdated : Dated ds) (hd : d ∈ ds) (u : Uri) :
    (c.read d u).1 = (empty.read d u).1 := by
  apply read_fst_of_fresh
  intro content modified text hentry hfresh
  obtain ⟨hget, hmodified⟩ := fresh?_eq_some hfresh
  obtain ⟨time, rfl⟩ := Option.isSome_iff_exists.1 hmodified
  obtain ⟨d', hd', hentry'⟩ := h u _ hget hmodified
  obtain ⟨path, hpath, hpresent⟩ := Option.map_eq_some_iff.1 hentry
  obtain ⟨path', hpath', hrecorded⟩ := Option.map_eq_some_iff.1 hentry'
  obtain rfl := Option.some.inj (hpath.symm.trans hpath')
  exact hdated d hd d' hd' path content (some text) time hpresent hrecorded

/-! ## Whole histories -/

theorem run_concat : run d (es ++ [e]) = (run d es).step e := by
  rw [run, List.foldl_append]
  rfl

theorem disks_concat : disks d (es ++ [e]) = disks d es ++ e.disk?.toList := by
  rw [disks, List.filterMap_append, List.filterMap_cons, List.filterMap_nil]
  cases e.disk? <;> rfl

theorem disk_run_mem (d : Disk) (es : List Event) : (run d es).disk ∈ disks d es := by
  induction es using List.reverseRecOn with
  | nil => exact List.mem_cons_self
  | append_singleton es e ih =>
    rw [run_concat, disks_concat]
    cases e with
    | changed disk => exact List.mem_append_right _ List.mem_cons_self
    | read u => exact List.mem_append_left _ ih
    | invalidated u => exact List.mem_append_left _ ih
    | cleared => exact List.mem_append_left _ ih

theorem recorded_run (d : Disk) (es : List Event) : Recorded (disks d es) (run d es).cache := by
  induction es using List.reverseRecOn with
  | nil => exact recorded_empty _
  | append_singleton es e ih =>
    rw [run_concat, disks_concat]
    exact (ih.step (disk_run_mem d es) e).mono (List.subset_append_left _ _)

/-- **After every history of a disk in which two contents of a file never have the same time of modification, reading
through the cache is reading without one, and tells what the disk has.** -/
theorem read_run_transparent (d : Disk) (es : List Event) (h : Dated (disks d es)) (u : Uri) :
    ((run d es).cache.read (run d es).disk u).1 = (empty.read (run d es).disk u).1 ∧
      Tells (run d es).disk u ((run d es).cache.read (run d es).disk u).1 := by
  have hread := (recorded_run d es).read_fst h (disk_run_mem d es) u
  refine ⟨hread, ?_⟩
  rw [hread]
  exact read_empty_tells _ u

/-- A disk with nothing but this entry, if it is one. -/
def diskWith (entry : Except DiskError DiskEntry) : Disk where
  entry path := if path = "/lib.lg" then entry else .error .notFound
  canonical path := .ok path

/-- A disk with one file. -/
def greeting : Disk :=
  diskWith (.ok (.file (some "# Greet") (some 1)))

/-- A file is read, removed, replaced by a directory and by another file, and then restored. -/
def restored : List Event :=
  [.read ⟨"file:///lib.lg"⟩, .changed (diskWith (.error .notFound)), .read ⟨"file:///lib.lg"⟩,
    .changed (diskWith (.ok .directory)), .read ⟨"file:///lib.lg"⟩, .changed (diskWith (.ok (.file none (some 2)))),
    .read ⟨"file:///lib.lg"⟩, .changed greeting]

theorem read_run_transparent_restored :
    Dated (disks greeting restored) ∧
      ((run greeting restored).cache.read (run greeting restored).disk ⟨"file:///lib.lg"⟩).1 = .ok "# Greet" := by
  have hcontent : ∀ d ∈ disks greeting restored, ∀ path content time,
      d.entry path = .ok (.file content (some time)) → content = if time = 1 then some "# Greet" else none := by
    intro d hd path content time h
    simp only [disks, restored, Event.disk?, List.filterMap_cons, List.filterMap_nil, List.mem_cons, List.not_mem_nil,
      or_false] at hd
    rcases hd with rfl | rfl | rfl | rfl | rfl <;>
    · dsimp only [greeting, diskWith] at h
      split at h
      · cases h <;> rfl
      · cases h
  have hdated : Dated (disks greeting restored) := by
    intro d hd d' hd' path content content' time h h'
    rw [hcontent d hd path content time h, hcontent d' hd' path content' time h']
  refine ⟨hdated, (read_run_transparent _ _ hdated _).1.trans ?_⟩
  decide +kernel

/-- Behind a change that leaves the time of a file as it was, its former text is read. -/
theorem read_undated {path text : String} {content : Option String} {time : Nat} (hpath : u.url.filePath? = some path)
    (hbefore : d.entry path = .ok (.file (some text) (some time)))
    (hafter : d'.entry path = .ok (.file content (some time))) :
    ((run d [.read u, .changed d']).cache.read (run d [.read u, .changed d']).disk u).1 = .ok text := by
  have hcached : (empty.read d u).2.fresh? u (some time) = some text := by
    rw [read]
    simp only [hpath, hbefore, fresh?_empty]
    simp [fresh?]
  show ((empty.read d u).2.read d' u).1 = .ok text
  generalize (empty.read d u).2 = c at hcached
  rw [read]
  simp only [hpath, hafter, hcached]

end LgLang.FileCache
