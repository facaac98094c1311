import Mathlib.Data.Finset.Card
import Mathlib.Data.List.Forall2
import MetamodelValidation.Proofs.Raised
import MetamodelValidation.Proofs.Repeats

/-! # Every repeated name is reported once

An attribute repeats a name if an attribute before it has that name. This compares each
attribute with all before it, while the check goes through the attributes once. Both find
the same repetitions and the same first declarations. How many there are is the number of
attributes less the number of their names, and so does not depend on their order.
-/

namespace MetamodelValidation.DuplicateAttribute

/-- At position `j` stands `b`, the first declaration of the name that `a` repeats at
position `i`. -/
structure Repeats (attributes : List Attribute) (i j : Nat) (a b : Attribute) : Prop where
  here : attributes[i]? = some a
  there : attributes[j]? = some b
  earlier : j < i
  same : b.name = a.name
  first : ∀ k b', k < j → attributes[k]? = some b' → b'.name ≠ a.name

/-- The positions of the attributes that have the name of an earlier one, ascending. -/
def repeatedPositions (attributes : List Attribute) : List Nat :=
  (List.range attributes.length).filter fun i =>
    ∃ j < i, attributes[j]?.map Attribute.name = attributes[i]?.map Attribute.name

variable {attributes : List Attribute} {className : String} {a : Attribute} {i : Nat} {f : Finding}

theorem exists_repeats_of_repeatAt (here : attributes[i]? = some a)
    (h : repeatAt className attributes (a, i) = some f) :
    ∃ j b, Repeats attributes i j a b ∧
      f = .duplicateAttribute a.span a.name className b.span := by
  obtain ⟨b, found, rfl⟩ := Option.map_eq_some_iff.mp h
  obtain ⟨same, j, hj, there, before⟩ := List.find?_eq_some_iff_getElem.mp found
  have earlier : j < i := lt_of_lt_of_le hj (List.length_take_le i attributes)
  refine ⟨j, b, ⟨here, ?_, earlier, by simpa using same, ?_⟩, rfl⟩
  · rw [← there, List.getElem_take, List.getElem?_eq_getElem]
  · intro k b' hk hb'
    obtain ⟨hlt, rfl⟩ := List.getElem?_eq_some_iff.mp hb'
    simpa using before k hk

theorem isSome_repeatAt_iff (here : attributes[i]? = some a) :
    (repeatAt className attributes (a, i)).isSome = true ↔
      ∃ j < i, attributes[j]?.map Attribute.name = attributes[i]?.map Attribute.name := by
  rw [repeatAt, Option.isSome_map, List.find?_isSome, here]
  constructor
  · rintro ⟨b, hb, same⟩
    obtain ⟨j, hj, rfl⟩ := List.mem_take_iff_getElem.mp hb
    have hj : j < i ∧ j < attributes.length := by omega
    refine ⟨j, hj.1, ?_⟩
    rw [List.getElem?_eq_getElem hj.2]
    simpa using same
  · rintro ⟨j, hj, same⟩
    obtain ⟨b, hb, hname⟩ := Option.map_eq_some_iff.mp same
    refine ⟨b, ?_, by simpa using hname⟩
    apply List.mem_of_getElem? (i := j)
    rw [List.getElem?_take_of_lt hj, hb]

/-- The positions are those at which the comparison with all that stands before succeeds. -/
theorem repeatedPositions_eq (className : String) (attributes : List Attribute) :
    repeatedPositions attributes =
      (attributes.zipIdx.filter fun x => (repeatAt className attributes x).isSome).map
        Prod.snd := by
  have positions : List.range attributes.length = attributes.zipIdx.map Prod.snd := by
    rw [List.zipIdx_map_snd, List.range_eq_range']
  rw [repeatedPositions, positions, List.filter_map]
  congr 1
  apply List.filter_congr
  intro x hx
  rw [Bool.eq_iff_iff, isSome_repeatAt_iff (List.mem_zipIdx_iff_getElem?.mp hx)]
  simp

private theorem forall₂_filterMap {α β : Type} {R : α → β → Prop} {f : α → Option β}
    {xs : List α} (h : ∀ x ∈ xs, ∀ y, f x = some y → R x y) :
    List.Forall₂ R (xs.filter fun x => (f x).isSome) (xs.filterMap f) := by
  induction xs with
  | nil => exact .nil
  | cons x xs ih =>
    have others := ih fun y hy => h y (List.mem_cons_of_mem x hy)
    cases hx : f x with
    | none => simpa [hx] using others
    | some y => simpa [hx] using ⟨h x List.mem_cons_self y hx, others⟩

/-- There is one finding for each position at which a name is repeated, in order. -/
theorem forall₂_findings (c : Class) :
    List.Forall₂ (fun i f => ∃ j a b, Repeats c.attributes i j a b ∧
      f = .duplicateAttribute a.span a.name c.name b.span)
      (repeatedPositions c.attributes) (findings c) := by
  rw [repeatedPositions_eq c.name, findings_eq_filterMap, List.forall₂_map_left_iff]
  apply forall₂_filterMap
  rintro ⟨a, i⟩ hx f hf
  obtain ⟨j, b, repeats, rfl⟩ :=
    exists_repeats_of_repeatAt (List.mem_zipIdx_iff_getElem?.mp hx) hf
  exact ⟨j, a, b, repeats, rfl⟩

def names (attributes : List Attribute) : Finset String :=
  (attributes.map Attribute.name).toFinset

theorem mem_names {name : String} :
    name ∈ names attributes ↔ ∃ a ∈ attributes, a.name = name := by
  simp [names]

theorem names_cons (a : Attribute) (attributes : List Attribute) :
    names (a :: attributes) = insert a.name (names attributes) := by
  simp [names]

theorem names_eq_of_perm {as bs : List Attribute} (h : as.Perm bs) : names as = names bs :=
  List.toFinset_eq_of_perm _ _ (h.map Attribute.name)

/-- Each attribute is a finding, or its name is new to those remembered. -/
theorem length_findingsFrom_add_card (className : String) (first as : List Attribute) :
    (findingsFrom className first as).length + (names (first ++ as)).card =
      as.length + (names first).card := by
  induction as generalizing first with
  | nil => simp [findingsFrom]
  | cons a as ih =>
    have front : names (first ++ a :: as) = insert a.name (names (first ++ as)) := by
      rw [names_eq_of_perm List.perm_middle, names_cons]
    rw [findingsFrom]
    cases found : first.find? (·.name == a.name) with
    | none =>
      have new : a.name ∉ names first := by
        rw [mem_names]
        rintro ⟨b, hb, same⟩
        exact List.find?_eq_none.mp found b hb (by simpa using same)
      have count := ih (a :: first)
      rw [List.cons_append, names_cons, ← front, names_cons, Finset.card_insert_of_notMem new]
        at count
      simp only [List.length_cons]
      omega
    | some b =>
      have old : a.name ∈ names (first ++ as) := by
        have same : b.name = a.name := by simpa using List.find?_some found
        exact mem_names.mpr
          ⟨b, List.mem_append_left as (List.mem_of_find?_eq_some found), same⟩
      have count := ih first
      rw [front, Finset.insert_eq_of_mem old]
      simp only [List.length_cons]
      omega

theorem length_findings_add_card (c : Class) :
    (findings c).length + (names c.attributes).card = c.attributes.length :=
  length_findingsFrom_add_card c.name [] c.attributes

theorem length_findings_of_perm {c c' : Class} (h : c'.attributes.Perm c.attributes) :
    (findings c').length = (findings c).length := by
  have count := length_findings_add_card c
  have count' := length_findings_add_card c'
  rw [names_eq_of_perm h, h.length_eq] at count'
  omega

/-- One error is appended for each attribute that repeats a name, in the order of the
attributes, and refers to the first attribute of that name. There are as many as there are
attributes beyond the different names, in whatever order the attributes stand. -/
theorem repetitions_reported (ctx : Context) (c : Class) (r : Report) :
    ∃ ds : List Diagnostic, (check.visit ctx c r).report.entries = r.entries ++ ds ∧
      List.Forall₂ (fun i d => ∃ j a b, Repeats c.attributes i j a b ∧ d =
        { file := ctx.file, span := a.span, severity := .error, code := some "E0106",
          message := "duplicate attribute: " ++ Finding.quoted a.name ++ " is already declared in "
            ++ Finding.quoted c.name
          related := [{ file := ctx.file, span := b.span,
                        message := "previous declaration of " ++ Finding.quoted b.name }] })
        (repeatedPositions c.attributes) ds ∧
      ds.length + (c.attributes.map Attribute.name).toFinset.card = c.attributes.length ∧
      ∀ (c' : Class) (ctx' : Context) (r' : Report), c'.attributes.Perm c.attributes →
        (check.visit ctx' c' r').report.size = r'.size + ds.length := by
  refine ⟨(findings c).map (·.toDiagnostic ctx.file), rfl, ?_, ?_, ?_⟩
  · rw [List.forall₂_map_right_iff]
    apply (forall₂_findings c).imp
    rintro i f ⟨j, a, b, repeats, rfl⟩
    refine ⟨j, a, b, repeats, ?_⟩
    rw [repeats.same]
    rfl
  · rw [List.length_map]
    exact length_findings_add_card c
  · intro c' ctx' r' perm
    simp [check, Report.size, length_findings_of_perm perm]

def interleaved : Class where
  name := "C"
  attributes := [
    { name := "a", type := .integer, span := .ofCoords 0 0 0 1 },
    { name := "", type := .integer, span := .ofCoords 1 0 1 1 },
    { name := "a", type := .string, span := .ofCoords 2 0 2 1 },
    { name := "", type := .integer, span := .ofCoords 3 0 3 1 },
    { name := "a", type := .integer, span := .ofCoords 4 0 4 1 }]

/-- The third declaration of a name refers to the first one, not to the second. -/
theorem repetitions_reported_of_interleaved :
    interleaved.attributes.reverse.Perm interleaved.attributes ∧
    repeatedPositions interleaved.attributes = [2, 3, 4] ∧
    ∃ ds, (check.visit { model := {} } interleaved {}).report.entries = ds ∧ ds.length = 3 ∧
      ds.map (fun d => d.related.map (·.span.start.line)) = [[0], [1], [0]] ∧
      (check.visit { model := {} }
        { interleaved with attributes := interleaved.attributes.reverse } {}).report.size = 3 := by
  obtain ⟨ds, entries, -, count, any_order⟩ := repetitions_reported { model := {} } interleaved {}
  have three : ds.length = 3 := Nat.add_right_cancel (count.trans (by decide : 5 = 3 + 2))
  have size := any_order { interleaved with attributes := interleaved.attributes.reverse }
    { model := {} } {} (List.reverse_perm _)
  refine ⟨List.reverse_perm _, by decide, ds, entries, three, ?_, ?_⟩
  · rw [← List.nil_append ds]
    exact entries ▸ rfl
  · rw [size, three]
    rfl

end MetamodelValidation.DuplicateAttribute
