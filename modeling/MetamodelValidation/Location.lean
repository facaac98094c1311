/-! # Source locations

A location is a file together with a span of positions in it. Lines and columns
count from zero. Nothing here opens a file: locations are only compared and
carried through to diagnostics.
-/

namespace MetamodelValidation

/-- A source file, known only by the number that its owner gave it. -/
structure SourceFile where
  index : UInt32 := 0
deriving DecidableEq, Repr, Inhabited

instance : Ord SourceFile where
  compare f g := compare f.index g.index

structure Position where
  line : Nat := 0
  column : Nat := 0
deriving DecidableEq, Repr, Inhabited

namespace Position

/-- Positions are ordered by line, and within a line by column. -/
instance : Ord Position where
  compare p q := (compare p.line q.line).then (compare p.column q.column)

instance : LE Position where
  le p q := p.line < q.line ∨ p.line = q.line ∧ p.column ≤ q.column

instance (p q : Position) : Decidable (p ≤ q) :=
  inferInstanceAs (Decidable (p.line < q.line ∨ p.line = q.line ∧ p.column ≤ q.column))

theorem le_iff {p q : Position} :
    p ≤ q ↔ p.line < q.line ∨ p.line = q.line ∧ p.column ≤ q.column :=
  Iff.rfl

/-- The three-way comparison and the order are two views of one order. -/
theorem isLE_compare {p q : Position} : (compare p q).isLE = true ↔ p ≤ q := by
  change ((compare p.line q.line).then (compare p.column q.column)).isLE = true ↔ _
  rw [le_iff]
  rcases Nat.lt_trichotomy p.line q.line with h | h | h
  · simp [Nat.compare_eq_lt.mpr h, h]
  · simp [h, Nat.isLE_compare]
  · simp [Nat.compare_eq_gt.mpr h]
    omega

end Position

/-- A stretch of source text with both ends included. The ends may stand in
either order, so a span can be empty. -/
structure Span where
  start : Position := {}
  stop : Position := {}
deriving DecidableEq, Repr, Inhabited

namespace Span

def ofCoords (startLine startColumn stopLine stopColumn : Nat) : Span where
  start := ⟨startLine, startColumn⟩
  stop := ⟨stopLine, stopColumn⟩

/-- Tests a position line by line. The columns of the two ends matter on their
own lines only. -/
def contains (s : Span) (p : Position) : Bool :=
  s.start.line ≤ p.line && p.line ≤ s.stop.line
    && (p.line != s.start.line || s.start.column ≤ p.column)
    && (p.line != s.stop.line || p.column ≤ s.stop.column)

end Span

end MetamodelValidation
