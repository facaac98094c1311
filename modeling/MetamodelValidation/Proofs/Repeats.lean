import Mathlib.Data.List.Basic
import MetamodelValidation.Check.DuplicateAttribute

/-! # Repeated declarations

The check goes through the attributes once and remembers first declarations.
Here its findings are given attribute by attribute: each attribute is held
against all that stand before it in the class.
-/

namespace MetamodelValidation.DuplicateAttribute

/-- The remembered attributes answer for each name as all attributes gone
through so far do. -/
def Remembers (first before : List Attribute) : Prop :=
  ∀ name, first.find? (·.name == name) = before.find? (·.name == name)

theorem Remembers.repeated {first before : List Attribute} {a b : Attribute}
    (h : Remembers first before) (hb : first.find? (·.name == a.name) = some b) :
    Remembers first (before ++ [a]) := by
  intro name
  rw [h, List.find?_append]
  by_cases hname : a.name = name
  · rw [← hname, ← h, hb, Option.some_or]
  · simp [hname]

theorem Remembers.declared {first before : List Attribute} {a : Attribute}
    (h : Remembers first before) (ha : first.find? (·.name == a.name) = none) :
    Remembers (a :: first) (before ++ [a]) := by
  intro name
  rw [List.find?_append, ← h, List.find?_cons]
  by_cases hname : a.name = name
  · rw [← hname, ha]
    simp
  · simp [beq_false_of_ne hname]

/-- The finding for an attribute at its position, if a declaration of its name
stands before it. -/
def repeatAt (className : String) (attributes : List Attribute) (x : Attribute × Nat) :
    Option Finding :=
  ((attributes.take x.2).find? (·.name == x.1.name)).map fun b =>
    .duplicateAttribute x.1.span x.1.name className b.span

theorem findingsFrom_eq_filterMap (className : String) {first before : List Attribute}
    (h : Remembers first before) (as : List Attribute) :
    findingsFrom className first as =
      (as.zipIdx before.length).filterMap (repeatAt className (before ++ as)) := by
  induction as generalizing first before with
  | nil => rfl
  | cons a as ih =>
    have hat : repeatAt className (before ++ a :: as) (a, before.length) =
        (first.find? (·.name == a.name)).map fun b =>
          .duplicateAttribute a.span a.name className b.span := by
      rw [repeatAt, List.take_left, h]
    have hsplit : before ++ a :: as = before ++ [a] ++ as := by simp
    rw [List.zipIdx_cons, List.filterMap_cons, hat, findingsFrom]
    cases ha : first.find? (·.name == a.name) with
    | none =>
      rw [hsplit]
      simpa using ih (h.declared ha)
    | some b =>
      rw [hsplit]
      simpa using ih (h.repeated ha)

theorem findings_eq_filterMap (c : Class) :
    findings c = c.attributes.zipIdx.filterMap (repeatAt c.name c.attributes) :=
  findingsFrom_eq_filterMap c.name (fun _ => rfl) c.attributes

theorem mem_findings_iff {c : Class} {f : Finding} :
    f ∈ findings c ↔ ∃ before a after b, c.attributes = before ++ a :: after ∧
      before.find? (·.name == a.name) = some b ∧
      f = .duplicateAttribute a.span a.name c.name b.span := by
  rw [findings_eq_filterMap, List.mem_filterMap]
  constructor
  · rintro ⟨⟨a, i⟩, hmem, hf⟩
    obtain ⟨b, hb, rfl⟩ := Option.map_eq_some_iff.mp hf
    have hi : c.attributes[i]? = some a := List.mem_zipIdx_iff_getElem?.mp hmem
    rcases List.getElem?_eq_some_iff.mp hi with ⟨hlt, ha⟩
    refine ⟨c.attributes.take i, a, c.attributes.drop (i + 1), b, ?_, hb, rfl⟩
    rw [← ha, ← List.drop_eq_getElem_cons hlt, List.take_append_drop]
  · rintro ⟨before, a, after, b, hsplit, hb, rfl⟩
    refine ⟨(a, before.length), List.mem_zipIdx_iff_getElem?.mpr ?_, ?_⟩
    · simp [hsplit]
    · rw [repeatAt, hsplit, List.take_left, hb, Option.map_some]

/-- The declaration referred to is the first of its name in the whole class. -/
theorem exists_first_of_mem_findings {c : Class} {f : Finding} (h : f ∈ findings c) :
    ∃ a b : Attribute, c.attributes.find? (·.name == a.name) = some b ∧
      f = .duplicateAttribute a.span a.name c.name b.span := by
  rcases mem_findings_iff.mp h with ⟨before, a, after, b, hsplit, hb, hf⟩
  refine ⟨a, b, ?_, hf⟩
  rw [hsplit, List.find?_append, hb, Option.some_or]

theorem map_span_findingsFrom_sublist (className : String) (first as : List Attribute) :
    ((findingsFrom className first as).map Finding.span).Sublist (as.map Attribute.span) := by
  induction as generalizing first with
  | nil => exact .slnil
  | cons a as ih =>
    rw [findingsFrom]
    cases first.find? (·.name == a.name) with
    | none => exact (ih _).cons _
    | some b => exact (ih _).cons_cons _

/-- Findings are reported at different attributes, in the order of these. -/
theorem map_span_findings_sublist (c : Class) :
    ((findings c).map Finding.span).Sublist (c.attributes.map Attribute.span) :=
  map_span_findingsFrom_sublist c.name [] c.attributes

end MetamodelValidation.DuplicateAttribute
