import Mathlib.Order.Interval.Set.OrdConnected
import MetamodelValidation.Location

/-! # A span is an interval

Containment is tested on lines and on columns, one test after the other. All of them
together come to this: a position is in a span if it is between the two ends, in the
order that goes by lines first and by columns second. The ends themselves may stand in
either order, and between ends that are reversed there is nothing.
-/

namespace MetamodelValidation

namespace Position

variable {p q : Position}

/-- The columns matter only where the lines are the same. -/
theorem le_iff_line_column :
    p ≤ q ↔ p.line ≤ q.line ∧ (p.line = q.line → p.column ≤ q.column) := by
  rw [le_iff]
  omega

instance : PartialOrder Position where
  le_refl p := le_iff.mpr (.inr ⟨rfl, Nat.le_refl p.column⟩)
  le_trans p q r := by
    simp only [le_iff]
    omega
  le_antisymm := by
    rintro ⟨line, column⟩ ⟨line', column'⟩ h h'
    simp only [le_iff] at h h'
    rw [mk.injEq]
    omega

theorem lt_iff : p < q ↔ p.line < q.line ∨ p.line = q.line ∧ p.column < q.column := by
  rw [lt_iff_le_not_ge, le_iff, le_iff]
  omega

theorem compare_eq_lt_iff : compare p q = .lt ↔ p < q := by
  change (compare p.line q.line).then (compare p.column q.column) = .lt ↔ _
  rw [Ordering.then_eq_lt, Nat.compare_eq_lt, Nat.compare_eq_eq, Nat.compare_eq_lt, lt_iff]

theorem compare_eq_eq_iff : compare p q = .eq ↔ p = q := by
  change (compare p.line q.line).then (compare p.column q.column) = .eq ↔ _
  rw [Ordering.then_eq_eq, Nat.compare_eq_eq, Nat.compare_eq_eq]
  cases p
  cases q
  rw [mk.injEq]

/-- The three-way comparison is the one of this order. -/
instance : LinearOrder Position where
  le_total p q := by
    rw [le_iff, le_iff]
    omega
  toDecidableLE := inferInstance
  toDecidableEq := inferInstance
  compare := compare
  compare_eq_compareOfLessAndEq p q := by
    unfold compareOfLessAndEq
    split
    · exact compare_eq_lt_iff.mpr ‹p < q›
    · split
      · exact compare_eq_eq_iff.mpr ‹p = q›
      · cases h : compare p q with
        | lt => exact absurd (compare_eq_lt_iff.mp h) ‹¬p < q›
        | eq => exact absurd (compare_eq_eq_iff.mp h) ‹¬p = q›
        | gt => rfl

end Position

namespace Span

theorem contains_iff {s : Span} {p : Position} :
    s.contains p = true ↔ s.start ≤ p ∧ p ≤ s.stop := by
  rw [Position.le_iff_line_column, Position.le_iff_line_column]
  simp only [contains, Bool.and_eq_true, Bool.or_eq_true, bne_iff_ne, decide_eq_true_eq]
  omega

theorem setOf_contains (s : Span) : {p | s.contains p = true} = Set.Icc s.start s.stop := by
  ext p
  exact contains_iff

/-- A span contains what is between its ends in the order of positions, which is the order
of their three-way comparison. So it is empty if its ends are reversed, contains its ends
otherwise, and has no gaps. -/
theorem contains_iff_between_ends (s : Span) :
    (∀ p q : Position, p ≤ q ↔ (compare p q).isLE = true) ∧
    (∀ p, s.contains p = true ↔ s.start ≤ p ∧ p ≤ s.stop) ∧
    ((∀ p, s.contains p = false) ↔ s.stop < s.start) ∧
    (s.contains s.start = true ↔ s.start ≤ s.stop) ∧
    (s.contains s.stop = true ↔ s.start ≤ s.stop) ∧
    {p | s.contains p = true}.OrdConnected := by
  refine ⟨fun p q => Position.isLE_compare.symm, fun p => contains_iff, ?_, ?_, ?_, ?_⟩
  · have empty : (∀ p, s.contains p = false) ↔ {p | s.contains p = true} = ∅ := by
      simp [Set.eq_empty_iff_forall_notMem]
    rw [empty, setOf_contains, Set.Icc_eq_empty_iff, not_le]
  · rw [contains_iff, and_iff_right le_rfl]
  · rw [contains_iff, and_iff_left le_rfl]
  · rw [setOf_contains]
    exact Set.ordConnected_Icc

-- The columns of the ends may be reversed, but not on one line.
example : (ofCoords 1 8 4 2).contains ⟨1, 30⟩ = true ∧
    (ofCoords 3 8 3 2).contains ⟨3, 5⟩ = false := by
  decide

end Span

end MetamodelValidation
