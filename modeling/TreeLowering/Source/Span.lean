set_option autoImplicit false

/-!
# Source: spans

A span is a half-open range of byte offsets in a source text.  The dummy span
`0..0` stands for "no position": it is neutral for `merge`, and a diagnostic
that would point at it points at nothing.
-/

namespace TreeLowering

/-- A range of source positions. -/
structure Span where
  /-- First position covered. -/
  start : Nat
  /-- First position after the covered ones. -/
  stop : Nat
  deriving DecidableEq, Repr, Inhabited

namespace Span

/-- The span that says nothing about a position. -/
def dummy : Span := ⟨0, 0⟩

/-- The span says nothing about a position. -/
def isDummy (s : Span) : Bool := s.start == 0 && s.stop == 0

/-- Number of positions covered; none when the ends are out of order. -/
def length (s : Span) : Nat := s.stop - s.start

/-- No position is covered. -/
def isEmpty (s : Span) : Bool := s.length == 0

/-- The least span covering both; a dummy span adds nothing. -/
def merge (s t : Span) : Span :=
  if s.isDummy then t
  else if t.isDummy then s
  else ⟨min s.start t.start, max s.stop t.stop⟩

/-- The written form `start..stop`. -/
def text (s : Span) : String := toString s.start ++ ".." ++ toString s.stop

theorem isDummy_iff (s : Span) : s.isDummy = true ↔ s = dummy := by
  cases s
  simp [isDummy, dummy]

@[simp] theorem dummy_merge (s : Span) : dummy.merge s = s := by
  simp [merge, (isDummy_iff dummy).2 rfl]

@[simp] theorem merge_dummy (s : Span) : s.merge dummy = s := by
  unfold merge
  split
  · rename_i h
    exact ((isDummy_iff s).1 h).symm
  · simp [(isDummy_iff dummy).2 rfl]

end Span

end TreeLowering
