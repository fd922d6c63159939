/-! # Source spans

    A span is a half-open range of byte offsets into the text of one unit.
    Offsets count the bytes of the UTF-8 encoding, so a span is the same
    whether a text is read by bytes or by characters. -/

namespace DeclCheck

/-- The half-open byte range from `start` up to, but not including, `stop`. -/
structure Span where
  start : Nat
  stop : Nat
  deriving DecidableEq, Repr, Inhabited

namespace Span

/-- The empty span at an offset. -/
def point (offset : Nat) : Span := ⟨offset, offset⟩

/-- The number of bytes covered; a reversed span covers none. -/
def length (s : Span) : Nat := s.stop - s.start

/-- Whether a span covers no byte. -/
def isEmpty (s : Span) : Bool := s.stop ≤ s.start

/-- The smallest span that covers both spans. -/
def cover (s t : Span) : Span := ⟨min s.start t.start, max s.stop t.stop⟩

/-- Whether an offset lies inside a span. -/
def contains (s : Span) (offset : Nat) : Bool := s.start ≤ offset && offset < s.stop

@[simp] theorem length_point (o : Nat) : (point o).length = 0 := by simp [point, length]

theorem isEmpty_iff_length {s : Span} : s.isEmpty = true ↔ s.length = 0 := by
  simp only [isEmpty, length, decide_eq_true_eq]
  omega

end Span

end DeclCheck
