import Mathlib.Data.List.Basic
import MetamodelValidation.Conformance

/-! # Conformance by kind

Each predicate on values picks out one kind of them. The pairings say no more than
this: a type of objects has no literals, and each other type has the literals of one
kind.
-/

namespace MetamodelValidation

theorem Value.isArray_scalar (x : Scalar) (s : Span) : Value.isArray (.scalar x s) = false :=
  rfl

theorem Value.isArray_array (vs : List Value) (s : Span) : Value.isArray (.array vs s) = true :=
  rfl

/-- The predicate for the values of a kind. -/
def ValueKind.test : ValueKind → Value → Bool
  | boolean => Value.isBoolean
  | string => Value.isString
  | float => Value.isFloat
  | integer => Value.isInteger
  | enumerationLiteral => Value.isEnumerationLiteral
  | array => Value.isArray

/-- Each predicate holds of the values of its kind, and of no others. -/
theorem ValueKind.test_iff {k : ValueKind} {v : Value} : k.test v = true ↔ v.kind = k := by
  have agree : k.test v = decide (v.kind = k) := by
    cases v with
    | scalar x s => cases x <;> cases k <;> rfl
    | array vs s => cases k <;> rfl
  rw [agree, decide_eq_true_iff]

namespace DataType

def isReference : DataType → Bool
  | reference _ => true
  | _ => false

def literalKind? : DataType → Option ValueKind
  | boolean => some .boolean
  | string => some .string
  | float => some .float
  | integer => some .integer
  | enumeration _ => some .enumerationLiteral
  | reference _ => none

/-- A type accepts the values that pass the test of its literals' kind. -/
theorem accepts_eq_any_test (t : DataType) (v : Value) :
    t.accepts v = t.literalKind?.any (·.test v) := by
  cases t <;> rfl

theorem accepts_iff {t : DataType} {v : Value} :
    t.accepts v = true ↔ t.literalKind? = some v.kind := by
  rw [accepts_eq_any_test]
  cases t.literalKind? with
  | none => simp
  | some k => rw [Option.any_some, ValueKind.test_iff, Option.some_inj, eq_comm]

def misfits (t : DataType) (v : Value) : Bool := t.literalKind? ≠ some v.kind

theorem misfits_iff {t : DataType} {v : Value} :
    t.misfits v = true ↔ t.literalKind? ≠ some v.kind := by
  simp [misfits]

theorem not_accepts (t : DataType) (v : Value) : (!t.accepts v) = t.misfits v := by
  rw [Bool.eq_iff_iff, misfits_iff, Bool.not_eq_true', ← Bool.not_eq_true, accepts_iff]

theorem valueLabel?_eq (t : DataType) : t.valueLabel? = t.literalKind?.map ValueKind.label := by
  cases t <;> rfl

theorem literalKind?_eq_none_iff {t : DataType} :
    t.literalKind? = none ↔ t.isReference = true := by
  cases t <;> simp [literalKind?, isReference]

theorem isReference_eq_false_iff {t : DataType} :
    t.isReference = false ↔ ∃ k, t.literalKind? = some k := by
  cases t <;> simp [literalKind?, isReference]

theorem exists_valueLabel? {t : DataType} (h : t.isReference = false) :
    ∃ label, t.valueLabel? = some label := by
  obtain ⟨k, hk⟩ := isReference_eq_false_iff.mp h
  exact ⟨k.label, by rw [valueLabel?_eq, hk, Option.map_some]⟩

theorem eq_accepts_of_valueTest? {t : DataType} {test : Value → Bool}
    (h : t.valueTest? = some test) : test = t.accepts := by
  obtain ⟨pairing, hpairing, rfl⟩ := Option.map_eq_some_iff.mp h
  funext v
  rw [accepts, hpairing, Option.any_some]

/-- A type with a name for its literals also has a test for them. -/
theorem valueTest?_of_valueLabel? {t : DataType} {label : String}
    (h : t.valueLabel? = some label) : t.valueTest? = some t.accepts := by
  obtain ⟨pairing, hpairing, -⟩ := Option.map_eq_some_iff.mp h
  have test : t.valueTest? = some pairing.accepts := by
    rw [valueTest?, hpairing, Option.map_some]
  rw [test, eq_accepts_of_valueTest? test]

/-- Without their positions, the failing elements are those that misfit. -/
theorem map_fst_failingElements (t : DataType) (elements : List Value) :
    (t.failingElements elements).map Prod.fst = elements.filter t.misfits := by
  have hfilter : (fun e : Value × Nat => !t.accepts e.1) = t.misfits ∘ Prod.fst := by
    funext e
    exact not_accepts t e.1
  rw [failingElements, hfilter, ← List.filter_map, List.zipIdx_map_fst]

theorem length_failingElements (t : DataType) (elements : List Value) :
    (t.failingElements elements).length = elements.countP t.misfits := by
  rw [List.countP_eq_length_filter, ← map_fst_failingElements, List.length_map]

/-- The positions of the failing elements ascend. -/
theorem pairwise_failingElements (t : DataType) (elements : List Value) :
    (t.failingElements elements).Pairwise fun x y => x.2 < y.2 := by
  have hpositions : (elements.zipIdx.map Prod.snd).Pairwise (· < ·) := by
    rw [List.zipIdx_map_snd]
    exact List.pairwise_lt_range'
  exact (List.pairwise_map.mp hpositions).sublist List.filter_sublist

private theorem mem_take_filter {α : Type} {p : α → Bool} {xs : List α} {n : Nat} {x : α} :
    x ∈ (xs.filter p).take n ↔
      ∃ before after, xs = before ++ x :: after ∧ p x = true ∧ before.countP p < n := by
  induction xs generalizing n with
  | nil => simp
  | cons y ys ih =>
    constructor
    · intro h
      by_cases hy : p y = true
      · rw [List.filter_cons_of_pos hy] at h
        cases n with
        | zero => simp at h
        | succ n =>
          rcases List.mem_cons.mp h with rfl | h
          · exact ⟨[], ys, rfl, hy, by simp⟩
          · rcases ih.mp h with ⟨before, after, rfl, hx, hcount⟩
            refine ⟨y :: before, after, rfl, hx, ?_⟩
            rw [List.countP_cons_of_pos hy]
            omega
      · rw [List.filter_cons_of_neg hy] at h
        rcases ih.mp h with ⟨before, after, rfl, hx, hcount⟩
        refine ⟨y :: before, after, rfl, hx, ?_⟩
        rwa [List.countP_cons_of_neg hy]
    · rintro ⟨before, after, hsplit, hx, hcount⟩
      cases before with
      | nil =>
        rcases List.cons.inj hsplit with ⟨rfl, rfl⟩
        rcases Nat.exists_eq_succ_of_ne_zero (Nat.ne_of_gt hcount) with ⟨m, rfl⟩
        rw [List.filter_cons_of_pos hx]
        exact List.mem_cons_self
      | cons z before =>
        rcases List.cons.inj hsplit with ⟨rfl, rfl⟩
        by_cases hy : p y = true
        · rw [List.countP_cons_of_pos hy] at hcount
          rcases Nat.exists_eq_succ_of_ne_zero (by omega : n ≠ 0) with ⟨m, rfl⟩
          rw [List.filter_cons_of_pos hy]
          exact List.mem_cons_of_mem y (ih.mpr ⟨before, after, rfl, hx, by omega⟩)
        · rw [List.countP_cons_of_neg hy] at hcount
          rw [List.filter_cons_of_neg hy]
          exact ih.mpr ⟨before, after, rfl, hx, hcount⟩

/-- An element is among the first `n` that fail if it fails and fewer than `n`
do so before it. -/
theorem mem_take_failingElements {t : DataType} {elements : List Value} {n : Nat} {e : Value} :
    e ∈ ((t.failingElements elements).take n).map Prod.fst ↔
      ∃ before after, elements = before ++ e :: after ∧ t.misfits e = true ∧
        before.countP t.misfits < n := by
  rw [List.map_take, map_fst_failingElements, mem_take_filter]

end DataType

end MetamodelValidation
