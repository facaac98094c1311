import MetamodelValidation.Proofs.Conformance

/-! # The failing positions of an array

A value held against an array of a type is no array, or conforms, or fails at some of
its positions. These are the positions of the elements that the type does not accept:
all of them, each once and in ascending order. They are found one level deep, so what
a nested array holds plays no part, and in the parts of an array as in the whole.
-/

namespace MetamodelValidation

theorem ArrayVerdict.isConforming_iff {verdict : ArrayVerdict} :
    verdict.isConforming = true ↔ verdict = .conforming := by
  cases verdict <;> simp [isConforming]

namespace DataType

variable {t : DataType} {elements : List Value} {s : Span}

theorem accepts_array (t : DataType) (elements : List Value) (s : Span) :
    t.accepts (.array elements s) = false := by
  rw [← Bool.not_eq_true, accepts_iff]
  cases t <;> simp [literalKind?, Value.kind]

theorem accepts_of_isReference (h : t.isReference = true) (v : Value) : t.accepts v = false := by
  rw [← Bool.not_eq_true, accepts_iff, literalKind?_eq_none_iff.mpr h]
  simp

theorem getElem?_of_mem_failingElements {x : Value × Nat} (h : x ∈ t.failingElements elements) :
    elements[x.2]? = some x.1 :=
  List.mem_zipIdx_iff_getElem?.mp (List.mem_filter.mp h).1

theorem failingElements_eq_nil_iff :
    t.failingElements elements = [] ↔ ∀ e ∈ elements, t.accepts e = true := by
  rw [← List.length_eq_zero_iff, length_failingElements, List.countP_eq_zero]
  simp [← not_accepts]

theorem failingElements_of_isReference (h : t.isReference = true) (elements : List Value) :
    t.failingElements elements = elements.zipIdx := by
  apply List.filter_eq_self.mpr
  intro e _
  simp [accepts_of_isReference h]

/-- In the second part they are found as if it stood alone, and then shifted. -/
theorem failingElements_append (t : DataType) (xs ys : List Value) :
    t.failingElements (xs ++ ys) =
      t.failingElements xs ++ (t.failingElements ys).map (Prod.map id (· + xs.length)) := by
  rw [failingElements, List.zipIdx_append, List.filter_append, Nat.add_comm,
    ← List.map_snd_add_zipIdx_eq_zipIdx, List.filter_map]
  rfl

/-- An array conforms or fails. If it fails, the verdict names the failing elements by
their positions. -/
theorem checkArray_cases (t : DataType) (elements : List Value) (s : Span) :
    ((∀ e ∈ elements, t.accepts e = true) ∧
      t.checkArray (.array elements s) = .conforming) ∨
    ((∃ e ∈ elements, t.accepts e = false) ∧
      t.checkArray (.array elements s) =
        .failing ((t.failingElements elements).map Prod.snd)) := by
  simp only [checkArray, Value.elements?]
  split
  · rename_i empty
    exact .inl ⟨failingElements_eq_nil_iff.mp empty, rfl⟩
  · rename_i nonempty
    rw [failingElements_eq_nil_iff] at nonempty
    exact .inr ⟨by simpa using nonempty, rfl⟩

theorem positions_checkArray (t : DataType) (elements : List Value) (s : Span) :
    (t.checkArray (.array elements s)).positions = (t.failingElements elements).map Prod.snd := by
  rcases t.checkArray_cases elements s with ⟨all, verdict⟩ | ⟨-, verdict⟩
  · rw [verdict, failingElements_eq_nil_iff.mpr all]
    rfl
  · rw [verdict]
    rfl

theorem checkArray_eq_notArray_iff {v : Value} :
    t.checkArray v = .notArray ↔ ∀ elements s, v ≠ .array elements s := by
  cases v with
  | scalar x s => simp [checkArray, Value.elements?]
  | array elements s =>
    rcases t.checkArray_cases elements s with ⟨-, verdict⟩ | ⟨-, verdict⟩
    · simp [verdict]
    · simp [verdict]

theorem checkArray_eq_conforming_iff {v : Value} :
    t.checkArray v = .conforming ↔
      ∃ elements s, v = .array elements s ∧ ∀ e ∈ elements, t.accepts e = true := by
  cases v with
  | scalar x s => simp [checkArray, Value.elements?]
  | array elements s =>
    rcases t.checkArray_cases elements s with ⟨all, verdict⟩ | ⟨misfit, verdict⟩
    · simpa [verdict] using all
    · simpa [verdict] using misfit

theorem checkArray_of_misfit (h : ∃ e ∈ elements, t.accepts e = false) (s : Span) :
    t.checkArray (.array elements s) =
      .failing (t.checkArray (.array elements s)).positions := by
  rcases t.checkArray_cases elements s with ⟨all, -⟩ | ⟨-, verdict⟩
  · obtain ⟨e, he, refused⟩ := h
    rw [all e he] at refused
    cases refused
  · rw [verdict]
    rfl

theorem mem_positions_checkArray {p : Nat} :
    p ∈ (t.checkArray (.array elements s)).positions ↔
      ∃ e, elements[p]? = some e ∧ t.accepts e = false := by
  simp [positions_checkArray, failingElements, List.mk_mem_zipIdx_iff_getElem?]

theorem pairwise_positions_checkArray (t : DataType) (elements : List Value) (s : Span) :
    (t.checkArray (.array elements s)).positions.Pairwise (· < ·) := by
  rw [positions_checkArray, List.pairwise_map]
  exact pairwise_failingElements t elements

/-- A verdict tells exactly where an array fails. It fails at each nested array, whatever
that holds, and throughout if the type has no literals. -/
theorem checkArray_tells_failing_positions (t : DataType) :
    (∀ v, t.checkArray v = .notArray ↔ ∀ elements s, v ≠ .array elements s) ∧
    (∀ v, t.checkArray v = .conforming ↔
      ∃ elements s, v = .array elements s ∧ ∀ e ∈ elements, t.accepts e = true) ∧
    (∀ v, (t.checkArray v).isConforming = true ↔ t.checkArray v = .conforming) ∧
    (∀ elements s, (∃ e ∈ elements, t.accepts e = false) → ∃ positions,
      t.checkArray (.array elements s) = .failing positions ∧ positions ≠ [] ∧
      positions.Pairwise (· < ·) ∧ (∀ p ∈ positions, p < elements.length) ∧
      (∀ (p : Nat) (h : p < elements.length), p ∈ positions ↔ t.accepts elements[p] = false) ∧
      (∀ (p : Nat) (inner : List Value) (place : Span),
        elements[p]? = some (.array inner place) → p ∈ positions) ∧
      (t.isReference = true → positions = List.range elements.length)) ∧
    ∀ xs ys s s' s'', (t.checkArray (.array (xs ++ ys) s)).positions =
      (t.checkArray (.array xs s')).positions
        ++ (t.checkArray (.array ys s'')).positions.map (· + xs.length) := by
  refine ⟨fun v => checkArray_eq_notArray_iff, fun v => checkArray_eq_conforming_iff,
    fun v => ArrayVerdict.isConforming_iff, ?_, ?_⟩
  · intro elements s h
    refine ⟨_, checkArray_of_misfit h s, ?_, pairwise_positions_checkArray t elements s, ?_, ?_,
      ?_, ?_⟩
    · obtain ⟨e, he, refused⟩ := h
      obtain ⟨p, hp⟩ := List.mem_iff_getElem?.mp he
      exact List.ne_nil_of_mem (mem_positions_checkArray.mpr ⟨e, hp, refused⟩)
    · intro p hp
      obtain ⟨e, he, -⟩ := mem_positions_checkArray.mp hp
      exact (List.getElem?_eq_some_iff.mp he).1
    · intro p hp
      rw [mem_positions_checkArray, List.getElem?_eq_getElem hp]
      simp
    · intro p inner place nested
      exact mem_positions_checkArray.mpr ⟨_, nested, accepts_array t inner place⟩
    · intro reference
      rw [positions_checkArray, failingElements_of_isReference reference, List.zipIdx_map_snd,
        List.range_eq_range']
  · intro xs ys s s' s''
    simp [positions_checkArray, failingElements_append]

def mixed : List Value :=
  [.scalar (.integer 7) (.ofCoords 0 1 0 2),
    .array [.scalar (.integer 8) (.ofCoords 0 5 0 6)] (.ofCoords 0 4 0 7),
    .scalar (.string "x") (.ofCoords 0 9 0 12)]

theorem checkArray_tells_failing_positions_of_mixed :
    (∃ e ∈ mixed, integer.accepts e = false) ∧ (reference "C").isReference = true ∧
    (∃ positions, integer.checkArray (.array mixed {}) = .failing positions ∧
      positions.Pairwise (· < ·) ∧ 0 ∉ positions ∧ 1 ∈ positions ∧ 2 ∈ positions) ∧
    (reference "C").checkArray (.array mixed {}) = .failing [0, 1, 2] := by
  have misfit : ∃ e ∈ mixed, integer.accepts e = false := ⟨_, .tail _ (.head _), rfl⟩
  have misfit' : ∃ e ∈ mixed, (reference "C").accepts e = false := ⟨_, .head _, rfl⟩
  obtain ⟨positions, verdict, -, ascending, -, refused, nested, -⟩ :=
    (checkArray_tells_failing_positions integer).2.2.2.1 mixed {} misfit
  obtain ⟨positions', verdict', -, -, -, -, -, throughout⟩ :=
    (checkArray_tells_failing_positions (reference "C")).2.2.2.1 mixed {} misfit'
  refine ⟨misfit, rfl, ⟨positions, verdict, ascending, ?_, nested 1 _ _ rfl, ?_⟩, ?_⟩
  · rw [refused 0 (by decide)]
    decide
  · exact (refused 2 (by decide)).mpr rfl
  · rw [verdict', throughout rfl]
    rfl

end DataType

end MetamodelValidation
