import Mathlib.Data.List.Forall2
import MetamodelValidation.Proofs.FaultCoverage

/-! # What validation looks at

Of a value only its kind and its place are looked at, and the elements of an array
only where they are checked one by one. Two metamodels that agree in this have the
same findings, and if one shows the other at moved places, the findings are moved
alike.
-/

namespace MetamodelValidation

def Finding.mapSpan (move : Span → Span) : Finding → Finding
  | typeMismatch s expected found => typeMismatch (move s) expected found
  | expectedArray s attrName expected found => expectedArray (move s) attrName expected found
  | elementMismatch s position expected found => elementMismatch (move s) position expected found
  | elementsOmitted s count expected => elementsOmitted (move s) count expected
  | unexpectedArray s attrName expected => unexpectedArray (move s) attrName expected
  | unsupportedDefault s attrName typeName => unsupportedDefault (move s) attrName typeName
  | duplicateAttribute s attrName className previous =>
    duplicateAttribute (move s) attrName className (move previous)

theorem Finding.mapSpan_id : Finding.mapSpan id = id := by
  funext f
  cases f <;> rfl

/-- The types differ at most in the name of an enumeration. -/
inductive DataType.Resembles : DataType → DataType → Prop
  | refl (t : DataType) : Resembles t t
  | enumeration (name name' : String) : Resembles (.enumeration name) (.enumeration name')

/-- The second value has the kind of the first, and stands where the place of the
first is moved to. -/
structure Value.Resembles (move : Span → Span) (v w : Value) : Prop where
  kind : w.kind = v.kind
  span : w.span = move v.span

def Value.ResemblesAt (move : Span → Span) (x y : Value × Nat) : Prop :=
  x.1.Resembles move y.1 ∧ y.2 = x.2

/-- Elements are compared only in an array of literals that are checked one by one. -/
structure Attribute.Resembles (move : Span → Span) (a b : Attribute) : Prop where
  name : b.name = a.name
  type : a.type.Resembles b.type
  many : b.many = a.many
  span : b.span = move a.span
  value : Option.Rel (Value.Resembles move) a.defaultValue b.defaultValue
  elements : a.many = true → a.type.isReference = false → ∀ vs ws s t,
    a.defaultValue = some (.array vs s) → b.defaultValue = some (.array ws t) →
      List.Forall₂ (Value.Resembles move) vs ws

structure Class.Resembles (move : Span → Span) (c d : Class) : Prop where
  name : d.name = c.name
  attributes : List.Forall₂ (Attribute.Resembles move) c.attributes d.attributes

/-- Class by class and attribute by attribute, the second metamodel shows what the
first does, at moved places. -/
def Metamodel.Resembles (move : Span → Span) (model other : Metamodel) : Prop :=
  List.Forall₂ (Class.Resembles move) model.classes other.classes

variable {move : Span → Span}

namespace DataType.Resembles

variable {t u : DataType} (h : t.Resembles u)

include h

theorem literalKind?_eq : u.literalKind? = t.literalKind? := by
  cases h <;> rfl

theorem isReference_eq : u.isReference = t.isReference := by
  cases h <;> rfl

theorem name_eq (reference : t.isReference = true) : u.name = t.name := by
  cases h with
  | refl => rfl
  | enumeration => exact absurd reference Bool.false_ne_true

theorem accepts_eq {v w : Value} (hvw : v.Resembles move w) : u.accepts w = t.accepts v := by
  rw [Bool.eq_iff_iff, accepts_iff, accepts_iff, h.literalKind?_eq, hvw.kind]

theorem forall₂_failingElements {vs ws : List Value}
    (hvs : List.Forall₂ (Value.Resembles move) vs ws) :
    List.Forall₂ (Value.ResemblesAt move) (t.failingElements vs) (u.failingElements ws) := by
  have hzip (n : Nat) : List.Forall₂ (Value.ResemblesAt move) (vs.zipIdx n) (ws.zipIdx n) := by
    induction hvs generalizing n with
    | nil => exact .nil
    | cons hvw _ ih => exact .cons ⟨hvw, rfl⟩ (ih (n + 1))
  refine List.rel_filter ?_ (hzip 0)
  intro x y hxy
  change (!t.accepts x.1) = true ↔ (!u.accepts y.1) = true
  rw [h.accepts_eq hxy.1]

end DataType.Resembles

namespace Value.Resembles

variable {v w : Value} (h : v.Resembles move w)

include h

theorem isArray_eq : w.isArray = v.isArray := by
  change ValueKind.array.test w = ValueKind.array.test v
  rw [Bool.eq_iff_iff, ValueKind.test_iff, ValueKind.test_iff, h.kind]

theorem shape_cases :
    (∃ x y s, v = .scalar x s ∧ w = .scalar y (move s)) ∨
      ∃ vs ws s, v = .array vs s ∧ w = .array ws (move s) := by
  have harray := h.isArray_eq
  cases v with
  | scalar x s =>
    cases w with
    | scalar y t =>
      obtain rfl : t = move s := h.span
      exact .inl ⟨x, y, s, rfl, rfl⟩
    | array ws t => simp [isArray_scalar, isArray_array] at harray
  | array vs s =>
    cases w with
    | scalar y t => simp [isArray_scalar, isArray_array] at harray
    | array ws t =>
      obtain rfl : t = move s := h.span
      exact .inr ⟨vs, ws, s, rfl, rfl⟩

end Value.Resembles

namespace DefaultValue
open Finding

theorem map_elementFindings {xs ys : List (Value × Nat)}
    (h : List.Forall₂ (Value.ResemblesAt move) xs ys) (cap : Option Nat) (expected : String)
    (s : Span) :
    (elementFindings cap expected s xs).map (mapSpan move) =
      elementFindings cap expected (move s) ys := by
  have hshown (n : Nat) :
      ((xs.take n).map fun e => elementMismatch e.1.span e.2 expected e.1.kind).map
          (mapSpan move) =
        (ys.take n).map fun e => elementMismatch e.1.span e.2 expected e.1.kind := by
    rw [List.map_map, ← List.forall₂_eq_eq_eq, List.forall₂_map_left_iff,
      List.forall₂_map_right_iff]
    apply (List.forall₂_take n h).imp
    intro x y hxy
    simp [mapSpan, hxy.1.span, hxy.1.kind, hxy.2]
  simp only [elementFindings, List.map_append, hshown, h.length_eq, apply_ite (List.map _),
    List.map_nil, List.map_cons, mapSpan]

variable {a b : Attribute} {v w : Value} (h : a.Resembles move b) (hvw : v.Resembles move w)

include h hvw

theorem map_singleFindings (expected : String) :
    (singleFindings a expected v).map (mapSpan move) = singleFindings b expected w := by
  simp only [singleFindings, hvw.isArray_eq, h.type.accepts_eq hvw, hvw.span, hvw.kind, h.name,
    apply_ite (List.map _), List.map_cons, List.map_nil, mapSpan]

theorem map_manyFindings (hv : a.defaultValue = some v) (hw : b.defaultValue = some w)
    (literals : a.type.isReference = false) (many : a.many = true) (cap : Option Nat)
    (expected : String) :
    (manyFindings cap a expected v).map (mapSpan move) = manyFindings cap b expected w := by
  obtain ⟨x, y, s, rfl, rfl⟩ | ⟨vs, ws, s, rfl, rfl⟩ := hvw.shape_cases
  · simp [manyFindings, Value.elements?, mapSpan, Value.span, hvw.kind, h.name]
  · have helements := h.elements many literals vs ws s (move s) hv hw
    exact map_elementFindings (h.type.forall₂_failingElements helements) cap expected s

theorem map_valueFindings (hv : a.defaultValue = some v) (hw : b.defaultValue = some w)
    (cap : Option Nat) :
    (valueFindings cap a v).map (mapSpan move) = valueFindings cap b w := by
  cases literals : a.type.isReference with
  | true =>
    rw [valueFindings_of_isReference v literals,
      valueFindings_of_isReference w (h.type.isReference_eq.trans literals), hvw.span, h.name,
      h.type.name_eq literals]
    rfl
  | false =>
    rcases DataType.isReference_eq_false_iff.mp literals with ⟨k, hk⟩
    rw [valueFindings_of_literalKind? v hk,
      valueFindings_of_literalKind? w (h.type.literalKind?_eq.trans hk), h.many]
    cases many : a.many with
    | true => exact map_manyFindings h hvw hv hw literals many cap k.label
    | false => exact map_singleFindings h hvw k.label

omit hvw in
theorem map_findings (cap : Option Nat) :
    (findings cap a).map (mapSpan move) = findings cap b := by
  have hvalue := h.value
  unfold findings
  generalize hv : a.defaultValue = x, hw : b.defaultValue = y at hvalue ⊢
  cases hvalue with
  | none => rfl
  | some hvw => simpa using map_valueFindings h hvw hv hw cap

end DefaultValue

namespace DuplicateAttribute

variable {as bs first first' : List Attribute}

theorem find?_resembles (h : List.Forall₂ (Attribute.Resembles move) as bs) (name : String) :
    Option.Rel (Attribute.Resembles move) (as.find? (·.name == name))
      (bs.find? (·.name == name)) := by
  induction h with
  | nil => exact .none
  | cons hab _ ih =>
    rw [List.find?_cons, List.find?_cons, hab.name]
    split
    · exact .some hab
    · exact ih

/-- Both passes remember first declarations that resemble each other. -/
theorem map_findingsFrom (className : String)
    (hfirst : List.Forall₂ (Attribute.Resembles move) first first')
    (h : List.Forall₂ (Attribute.Resembles move) as bs) :
    (findingsFrom className first as).map (Finding.mapSpan move) =
      findingsFrom className first' bs := by
  induction h generalizing first first' with
  | nil => rfl
  | @cons a b as bs hab _ ih =>
    have hfound := find?_resembles hfirst a.name
    rw [findingsFrom, findingsFrom, hab.name]
    generalize first.find? (·.name == a.name) = x, first'.find? (·.name == a.name) = y
      at hfound ⊢
    cases hfound with
    | none => exact ih (.cons hab hfirst)
    | some hearlier =>
      simp only [List.map_cons, Finding.mapSpan, ih hfirst, hab.span, hearlier.span]

theorem map_findings {c d : Class} (h : c.Resembles move d) :
    (findings c).map (Finding.mapSpan move) = findings d := by
  rw [findings, findings, h.name]
  exact map_findingsFrom c.name .nil h.attributes

end DuplicateAttribute

/-- Findings made item by item are moved item by item. -/
theorem Finding.map_flatMap {α : Type} {R : α → α → Prop} {xs ys : List α}
    {found : α → List Finding} (h : List.Forall₂ R xs ys)
    (hfound : ∀ x y, R x y → (found x).map (mapSpan move) = found y) :
    (xs.flatMap found).map (mapSpan move) = ys.flatMap found := by
  induction h with
  | nil => rfl
  | cons hxy _ ih =>
    rw [List.flatMap_cons, List.flatMap_cons, List.map_append, hfound _ _ hxy, ih]

namespace Metamodel

variable {model other : Metamodel}

theorem Resembles.forall₂_attributes (h : model.Resembles move other) :
    List.Forall₂ (Attribute.Resembles move) model.attributes other.attributes :=
  List.rel_flatMap h fun _ _ hcd => hcd.attributes

/-- The findings of a metamodel are those of one that it resembles, at moved places. -/
theorem Resembles.map_findings (h : model.Resembles move other) (settings : Settings) :
    (model.findings settings).map (Finding.mapSpan move) = other.findings settings := by
  have hdefaults : (model.defaultFindings settings.elementCap).map (Finding.mapSpan move) =
      other.defaultFindings settings.elementCap :=
    Finding.map_flatMap h.forall₂_attributes fun a b hab => DefaultValue.map_findings hab _
  have hduplicates : model.duplicateFindings.map (Finding.mapSpan move) =
      other.duplicateFindings :=
    Finding.map_flatMap h fun c d hcd => DuplicateAttribute.map_findings hcd
  simp only [findings, List.map_append, apply_ite (List.map _), List.map_nil, hdefaults,
    hduplicates]

/-- Names, types, places and the kinds of values decide what is reported. Names of
metamodels and enumerations, contents of scalars and of nested arrays, and elements
that are not checked one by one have no influence. -/
theorem validateWith_eq_of_resembles (h : model.Resembles id other) (file : SourceFile)
    {settings : Settings} (known : ∀ name ∈ settings.disabled, name ∈ Suite.builtin.names) :
    ∃ ds, model.validateWith settings file = .ok ds ∧
      other.validateWith settings file = .ok ds := by
  have hfindings : other.findings settings = model.findings settings := by
    rw [← h.map_findings settings, Finding.mapSpan_id, List.map_id]
  refine ⟨_, validateWith_eq_ok settings known model file, ?_⟩
  rw [validateWith_eq_ok settings known, hfindings]

/-- A metamodel given by the parts of it that are not looked at. -/
def veiled (text : String) (number : Binary64) (nested : List Value) : Metamodel where
  name := text
  enumerations := [{ name := text, literals := [text] }]
  classes := [{
    name := "C"
    span := .ofCoords nested.length 0 0 0
    attributes := [
      { name := "colors", type := .enumeration text, many := true, span := .ofCoords 1 0 1 20,
        defaultValue := some (.array
          [.scalar (.literal text) (.ofCoords 1 1 1 4), .scalar (.float number) (.ofCoords 1 6 1 9),
            .array nested (.ofCoords 1 11 1 19)]
          (.ofCoords 1 0 1 20)) },
      { name := "owners", type := .reference "D", many := true, span := .ofCoords 2 0 2 9,
        defaultValue := some (.array nested (.ofCoords 2 4 2 9)) },
      { name := "owners", type := .string, span := .ofCoords 3 0 3 9,
        defaultValue := some (.array nested (.ofCoords 3 4 3 9)) }] }]

theorem veiled_resembles (text text' : String) (number number' : Binary64)
    (nested nested' : List Value) :
    (veiled text number nested).Resembles id (veiled text' number' nested') := by
  have same {v w : Value} (kind : w.kind = v.kind) (span : w.span = v.span) :
      v.Resembles id w := ⟨kind, span⟩
  refine .cons ⟨rfl, .cons ?_ (.cons ?_ (.cons ?_ .nil))⟩ .nil
  · refine ⟨rfl, .enumeration text text', rfl, rfl, .some (same rfl rfl), ?_⟩
    rintro - - vs ws s t hv hw
    cases hv
    cases hw
    exact .cons (same rfl rfl) (.cons (same rfl rfl) (.cons (same rfl rfl) .nil))
  · exact ⟨rfl, .refl _, rfl, rfl, .some (same rfl rfl), fun _ literals => nomatch literals⟩
  · exact ⟨rfl, .refl _, rfl, rfl, .some (same rfl rfl), fun many => nomatch many⟩

/-- Neither the texts, nor a NaN in place of a zero, nor the contents of the arrays
change the four diagnostics of the default values. -/
theorem validateWith_eq_of_veiled_resembles :
    (veiled "red" ⟨0⟩ []).Resembles id
      (veiled "blue" ⟨0x7FF8000000000000⟩ [.scalar (.boolean true) {}]) ∧
    "duplicate-attribute" ∈ Suite.builtin.names ∧
    ∃ ds, ds.length = 4 ∧
      (veiled "red" ⟨0⟩ []).validateWith (({} : Settings).disable "duplicate-attribute") {} =
        .ok ds ∧
      (veiled "blue" ⟨0x7FF8000000000000⟩ [.scalar (.boolean true) {}]).validateWith
        (({} : Settings).disable "duplicate-attribute") {} = .ok ds := by
  have known : ∀ name ∈ (({} : Settings).disable "duplicate-attribute").disabled.names,
      name ∈ Suite.builtin.names := by decide
  have looks := veiled_resembles "red" "blue" ⟨0⟩ ⟨0x7FF8000000000000⟩ []
    [.scalar (.boolean true) {}]
  rcases validateWith_eq_of_resembles looks {} known with ⟨ds, run, run'⟩
  exact ⟨looks, by decide, ds, Suite.apply_eq_of_validate run rfl, run, run'⟩

end Metamodel

end MetamodelValidation
