import LgLang.Text.Utf8

/-!
# Spans

A span is a range of bytes of a text, written as the offsets of its first byte and of the byte after its last. The
order of the two ends is part of the type. Spans are ordered by their start, then by their stop.
-/

namespace LgLang

/-- The bytes from offset `start` up to offset `stop`. -/
@[ext] structure Span where
  start : Nat
  stop : Nat
  start_le_stop : start ≤ stop
  deriving DecidableEq, Repr

namespace Span

/-- The span from `start` to `stop`; empty at `start` when `stop` comes before it. -/
def between (start stop : Nat) : Span :=
  ⟨start, max start stop, by omega⟩

/-- The span of `size` bytes that begins at `start`. -/
def ofSize (start size : Nat) : Span :=
  ⟨start, start + size, by omega⟩

/-- The empty span at the beginning of a text. -/
def origin : Span :=
  ⟨0, 0, by omega⟩

instance : Inhabited Span := ⟨origin⟩

/-- The same range of bytes, counted from `base` bytes earlier. -/
def shift (base : Nat) (s : Span) : Span :=
  ⟨base + s.start, base + s.stop, by have := s.start_le_stop; omega⟩

def size (s : Span) : Nat :=
  s.stop - s.start

def isEmpty (s : Span) : Bool :=
  s.start == s.stop

/-- Whether the offset touches the span. Both ends count, so that a cursor right behind a word is on it. -/
def contains (s : Span) (offset : Nat) : Bool :=
  s.start ≤ offset && offset ≤ s.stop

/-- The smallest span that covers both. -/
def cover (s t : Span) : Span :=
  between (min s.start t.start) (max s.stop t.stop)

/-- Spans are compared by their start, then by their stop. -/
instance : Ord Span where
  compare s t := (compare s.start t.start).then (compare s.stop t.stop)

@[simp] theorem between_start (a b : Nat) : (between a b).start = a := rfl

@[simp] theorem between_stop (a b : Nat) : (between a b).stop = max a b := rfl

@[simp] theorem ofSize_start (a n : Nat) : (ofSize a n).start = a := rfl

@[simp] theorem ofSize_stop (a n : Nat) : (ofSize a n).stop = a + n := rfl

@[simp] theorem shift_start (n : Nat) (s : Span) : (s.shift n).start = n + s.start := rfl

@[simp] theorem shift_stop (n : Nat) (s : Span) : (s.shift n).stop = n + s.stop := rfl

theorem contains_iff {s : Span} {n : Nat} : s.contains n = true ↔ s.start ≤ n ∧ n ≤ s.stop := by
  simp [contains]

/-- The characters of the text in the span, when both ends are character boundaries of it. -/
def slice? (s : Span) (cs : List Char) : Option (List Char) :=
  Text.slice? cs s.start s.stop

end Span

end LgLang
