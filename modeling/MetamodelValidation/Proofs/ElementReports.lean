import Mathlib.Data.List.Forall2
import MetamodelValidation.Proofs.ArrayConformance
import MetamodelValidation.Proofs.FaultCoverage

/-! # Every misfit of an array is accounted for

The misfits of a default array are stated one by one up to the cap, and the others are
counted in one more diagnostic. Together these make up all misfits. To see that none is
passed over in silence, the default is also examined in steps that look up what they
need as they go. None of the steps finds anything missing.
-/

namespace MetamodelValidation

namespace DefaultValue
open Finding

/-- States the elements at the positions up to the cap, each as it is found in the array,
and counts the others. Gives up if there is no element at a position. -/
def examineElements? (cap : Option Nat) (expected : String) (span : Span) (elements : List Value)
    (positions : List Nat) : Option (List Finding) := do
  let shown := cap.getD positions.length
  let omitted := positions.length - shown
  let stated ← (positions.take shown).mapM fun p =>
    elements[p]?.map fun e => .elementMismatch e.span p expected e.kind
  return stated ++ if omitted = 0 then [] else [.elementsOmitted span omitted expected]

def examineMany? (cap : Option Nat) (a : Attribute) (v : Value) : Option (List Finding) := do
  let expected ← a.type.valueLabel?
  match a.type.checkArray v with
  | .conforming => return []
  | .notArray => return [.expectedArray v.span a.name expected v.kind]
  | .failing positions => examineElements? cap expected v.span (← v.elements?) positions

def examineSingle? (a : Attribute) (v : Value) : Option (List Finding) := do
  let test ← a.type.valueTest?
  let expected ← a.type.valueLabel?
  return if v.isArray then [.unexpectedArray v.span a.name expected]
    else if test v then [] else [.typeMismatch v.span expected v.kind]

/-- Examines a default step by step. Gives up if the type has no test or no name for its
literals, or if a failing position is outside the array. -/
def examine? (cap : Option Nat) (a : Attribute) (v : Value) : Option (List Finding) :=
  if a.many then examineMany? cap a v else examineSingle? a v

section Found

variable {a : Attribute} {expected : String}

private theorem mapM_eq_some_map {α β : Type} {xs : List α} {f : α → Option β} {g : α → β}
    (h : ∀ x ∈ xs, f x = some (g x)) : xs.mapM f = some (xs.map g) := by
  induction xs with
  | nil => rfl
  | cons x xs ih =>
    rw [List.mapM_cons, h x List.mem_cons_self, ih fun y hy => h y (List.mem_cons_of_mem x hy)]
    rfl

/-- Each failing position leads back to the element that fails there. -/
theorem examineElements?_positions (cap : Option Nat) (expected : String) (s : Span)
    (t : DataType) (elements : List Value) :
    examineElements? cap expected s elements (t.checkArray (.array elements s)).positions =
      some (elementFindings cap expected s (t.failingElements elements)) := by
  have found : ∀ x ∈ (t.failingElements elements).take
        (cap.getD (t.failingElements elements).length),
      (elements[x.2]?.map fun e => Finding.elementMismatch e.span x.2 expected e.kind) =
        some (.elementMismatch x.1.span x.2 expected x.1.kind) := by
    intro x hx
    rw [DataType.getElem?_of_mem_failingElements (List.mem_of_mem_take hx)]
    rfl
  rw [DataType.positions_checkArray, examineElements?, List.length_map, ← List.map_take,
    List.mapM_map]
  simp only [Function.comp_def, mapM_eq_some_map found]
  rfl

theorem examineMany?_eq_some (h : a.type.valueLabel? = some expected) (cap : Option Nat)
    (v : Value) : examineMany? cap a v = some (manyFindings cap a expected v) := by
  rw [examineMany?, h]
  cases v with
  | scalar x s => rfl
  | array elements s =>
    rcases a.type.checkArray_cases elements s with ⟨all, verdict⟩ | ⟨-, verdict⟩
    · rw [verdict]
      simp [manyFindings, Value.elements?, elementFindings,
        DataType.failingElements_eq_nil_iff.mpr all]
    · have found := examineElements?_positions cap expected s a.type elements
      rw [verdict] at found ⊢
      exact found

theorem examineSingle?_eq_some (h : a.type.valueLabel? = some expected) (v : Value) :
    examineSingle? a v = some (singleFindings a expected v) := by
  rw [examineSingle?, DataType.valueTest?_of_valueLabel? h, h]
  rfl

/-- To examine a default step by step gives its findings. -/
theorem examine?_eq_some (h : a.type.valueLabel? = some expected) (cap : Option Nat) (v : Value) :
    examine? cap a v = some (valueFindings cap a v) := by
  rw [examine?, examineMany?_eq_some h, examineSingle?_eq_some h, valueFindings, h]
  split <;> rfl

end Found

section Accounts

variable {a : Attribute} {elements : List Value} {s : Span} {expected : String}

theorem findings_of_array (literals : a.type.valueLabel? = some expected) (many : a.many = true)
    (value : a.defaultValue = some (.array elements s)) (cap : Option Nat) :
    findings cap a = elementFindings cap expected s (a.type.failingElements elements) := by
  simp [findings, value, valueFindings, literals, many, manyFindings, Value.elements?, Value.span]

/-- What is raised for one attribute stands between what is raised for those around it. -/
theorem entries_visit_split {c : Class} {before after : List Attribute}
    (split : c.attributes = before ++ a :: after) (ctx : Context) (r : Report) :
    (check.visit ctx c r).report.entries =
      (check.visit ctx { c with attributes := before } r).report.entries
        ++ (findings ctx.settings.elementCap a).map (·.toDiagnostic ctx.file)
        ++ check.raised ctx { c with attributes := after } := by
  simp [check, Check.raised, split]

/-- Each misfit of a default array is stated or counted: the first ones are stated, as many
as the cap allows, and the others are counted in one diagnostic of the array. Nothing that
is looked up on the way is missing. -/
theorem misfits_stated_or_counted (ctx : Context) (c : Class) (r : Report) :
    (∀ (before after : List Attribute) (a : Attribute) (elements : List Value) (s : Span),
      c.attributes = before ++ a :: after → a.type.isReference = false → a.many = true →
      a.defaultValue = some (.array elements s) →
      ∃ (expected : String) (positions : List Nat) (stated : List Diagnostic) (counted : Nat),
        a.type.valueLabel? = some expected ∧ positions.Pairwise (· < ·) ∧
        (∀ p, p ∈ positions ↔ ∃ e, elements[p]? = some e ∧ a.type.accepts e = false) ∧
        stated.length = ctx.settings.elementCap.elim positions.length (min · positions.length) ∧
        stated.length + counted = positions.length ∧
        List.Forall₂ (fun p d => ∃ e, elements[p]? = some e ∧ d =
          { file := ctx.file, span := e.span, severity := .error, code := some "E0103",
            message := "type mismatch at position " ++ toString p ++ ": expected "
              ++ quoted expected ++ ", found " ++ quoted e.kind.label })
          (positions.take stated.length) stated ∧
        (check.visit ctx c r).report.entries =
          (check.visit ctx { c with attributes := before } r).report.entries ++
            (stated ++ if counted = 0 then [] else
              [{ file := ctx.file, span := s, severity := .error, code := some "E0103",
                 message := toString counted ++ " more array element(s) do not match "
                  ++ quoted expected }])
            ++ check.raised ctx { c with attributes := after }) ∧
    ∀ a ∈ c.attributes, ∀ v, a.defaultValue = some v → a.type.isReference = false →
      a.type.valueTest?.isSome = true ∧ a.type.valueLabel?.isSome = true ∧
      (∀ elements s, v = .array elements s → ∀ p ∈ (a.type.checkArray v).positions,
        elements[p]?.isSome = true) ∧
      examine? ctx.settings.elementCap a v = some (findings ctx.settings.elementCap a) := by
  constructor
  · intro before after a elements s split literals many value
    obtain ⟨expected, label⟩ := DataType.exists_valueLabel? literals
    let failing := a.type.failingElements elements
    let shown := ctx.settings.elementCap.getD failing.length
    let stated := ((failing.take shown).map fun x =>
      Finding.elementMismatch x.1.span x.2 expected x.1.kind).map (·.toDiagnostic ctx.file)
    have positions : (a.type.checkArray (.array elements s)).positions = failing.map Prod.snd :=
      DataType.positions_checkArray a.type elements s
    have length : stated.length = min shown failing.length := by simp [stated]
    refine ⟨expected, (a.type.checkArray (.array elements s)).positions, stated,
      failing.length - shown, label, DataType.pairwise_positions_checkArray a.type elements s,
      fun p => DataType.mem_positions_checkArray, ?_, ?_, ?_, ?_⟩
    · rw [length, positions, List.length_map]
      cases cap : ctx.settings.elementCap <;> simp [shown, cap]
    · rw [length, positions, List.length_map]
      omega
    · rw [length, positions, ← List.map_take, ← List.take_eq_take_min, List.forall₂_map_left_iff,
        List.forall₂_map_right_iff, List.forall₂_map_right_iff, List.forall₂_same]
      intro x hx
      exact ⟨x.1, DataType.getElem?_of_mem_failingElements (List.mem_of_mem_take hx), rfl⟩
    · rw [entries_visit_split split, findings_of_array label many value, elementFindings,
        List.map_append, apply_ite (List.map _)]
      rfl
  · intro a _ v value literals
    obtain ⟨expected, label⟩ := DataType.exists_valueLabel? literals
    refine ⟨?_, ?_, ?_, ?_⟩
    · rw [DataType.valueTest?_of_valueLabel? label, Option.isSome_some]
    · rw [label, Option.isSome_some]
    · rintro elements s rfl p hp
      obtain ⟨e, he, -⟩ := DataType.mem_positions_checkArray.mp hp
      rw [he, Option.isSome_some]
    · rw [examine?_eq_some label]
      simp [findings, value]

def sizes : Attribute where
  name := "sizes"
  type := .integer
  many := true
  defaultValue := some (.array DataType.mixed (.ofCoords 0 0 0 13))

/-- With room for one of the two misfits, the nested array is stated and the text counted. -/
theorem misfits_stated_or_counted_of_sizes :
    ∃ (positions : List Nat) (stated : List Diagnostic) (counted : Nat),
      0 ∉ positions ∧ 1 ∈ positions ∧ 2 ∈ positions ∧ stated.length = 1 ∧ counted ≠ 0 ∧
      stated.length + counted = positions.length ∧
      examine? (some 1) sizes (.array DataType.mixed (.ofCoords 0 0 0 13)) =
        some (findings (some 1) sizes) := by
  let ctx : Context := { model := {}, settings := { elementCap := some 1 } }
  let c : Class := { name := "C", attributes := [sizes] }
  obtain ⟨expected, positions, stated, counted, -, -, exactly, length, total, -, entries⟩ :=
    (misfits_stated_or_counted ctx c {}).1 [] [] sizes DataType.mixed _ rfl rfl rfl rfl
  obtain ⟨-, -, -, examined⟩ :=
    (misfits_stated_or_counted ctx c {}).2 sizes (.head _) _ rfl rfl
  have nested : 1 ∈ positions := (exactly 1).mpr ⟨_, rfl, rfl⟩
  have one : stated.length = 1 := length.trans (Nat.min_eq_left (List.length_pos_of_mem nested))
  refine ⟨positions, stated, counted, ?_, nested, (exactly 2).mpr ⟨_, rfl, rfl⟩, one, ?_, total,
    examined⟩
  · rw [exactly]
    rintro ⟨e, he, refused⟩
    cases he
    cases refused
  · rintro rfl
    rw [if_pos rfl] at entries
    have size := congrArg List.length entries
    rw [List.length_append, List.length_append, List.length_append, one] at size
    exact absurd size (by decide)

end Accounts

end DefaultValue

end MetamodelValidation
