import MetamodelValidation.Proofs.Disabling
import MetamodelValidation.Proofs.SuiteRuns

/-! # A metamodel that grows keeps its diagnostics

Later declarations add findings after those of the default values, and so before
those of the repeated declarations. They have codes of their own, and hide nothing
of what comes after them.
-/

namespace MetamodelValidation

/-- Findings in the middle hide nothing of what comes after them if their codes
differ. -/
theorem Settings.shape_append_sublist (s : Settings) (file : SourceFile)
    {as xs bs : List Finding} (h : ∀ x ∈ xs, ∀ b ∈ bs, x.code ≠ b.code) (ys : List Finding) :
    (s.shape ((as ++ bs).map (·.toDiagnostic file))).Sublist
      (s.shape ((as ++ xs ++ (bs ++ ys)).map (·.toDiagnostic file))) := by
  simp only [List.map_append]
  unfold shape
  split
  · apply Diagnostic.distinct_append_sublist
    intro d hd e he hkey
    obtain ⟨x, hx, rfl⟩ := List.mem_map.mp hd
    obtain ⟨b, hb, rfl⟩ := List.mem_map.mp he
    exact h x hx b hb (Finding.code_eq_of_key_eq hkey)
  · exact (List.sublist_append_left _ _).append (List.sublist_append_left _ _)

namespace DuplicateAttribute

theorem findingsFrom_prefix_append (className : String) (first as bs : List Attribute) :
    findingsFrom className first as <+: findingsFrom className first (as ++ bs) := by
  induction as generalizing first with
  | nil => exact List.nil_prefix
  | cons a as ih =>
    rw [List.cons_append, findingsFrom, findingsFrom]
    cases first.find? (·.name == a.name) with
    | none => exact ih _
    | some b => exact (List.prefix_cons_inj _).mpr (ih _)

theorem findings_prefix_addAttribute (c : Class) (a : Attribute) :
    findings c <+: findings (c.addAttribute a) :=
  findingsFrom_prefix_append c.name [] c.attributes [a]

end DuplicateAttribute

namespace Metamodel

/-- A metamodel keeps its diagnostics if attributes and repeated declarations are
only added at the end. -/
theorem shape_findings_sublist {model grown : Metamodel}
    (hattributes : model.attributes <+: grown.attributes)
    (hduplicates : model.duplicateFindings <+: grown.duplicateFindings) (settings : Settings)
    (file : SourceFile) :
    (settings.shape ((model.findings settings).map (·.toDiagnostic file))).Sublist
      (settings.shape ((grown.findings settings).map (·.toDiagnostic file))) := by
  obtain ⟨added, hadded⟩ := hattributes
  obtain ⟨repeats, hrepeats⟩ := hduplicates
  have hdefaults : grown.defaultFindings settings.elementCap =
      model.defaultFindings settings.elementCap
        ++ added.flatMap (DefaultValue.findings settings.elementCap) := by
    rw [defaultFindings, ← hadded, List.flatMap_append]
    rfl
  simp only [findings_eq_filter, hdefaults, ← hrepeats, List.filter_append]
  apply Settings.shape_append_sublist
  intro x hx b hb
  have hx' : x ∈ grown.defaultFindings settings.elementCap := by
    rw [hdefaults]
    exact List.mem_append_right _ (List.mem_filter.mp hx).1
  exact code_ne_of_mem_findings hx' (List.mem_filter.mp hb).1

theorem attributes_prefix_addClass (model : Metamodel) (c : Class) :
    model.attributes <+: (model.addClass c).attributes := by
  simp [attributes, addClass]

theorem duplicateFindings_prefix_addClass (model : Metamodel) (c : Class) :
    model.duplicateFindings <+: (model.addClass c).duplicateFindings := by
  simp [duplicateFindings, addClass]

section LastClass

variable {model : Metamodel} {front : List Class} {last : Class}
  (h : model.classes = front ++ [last]) (a : Attribute)

include h

theorem attributes_prefix_addAttribute :
    model.attributes <+:
      ({ model with classes := front ++ [last.addAttribute a] } : Metamodel).attributes := by
  simp [attributes, h, Class.addAttribute]

theorem duplicateFindings_prefix_addAttribute :
    model.duplicateFindings <+:
      ({ model with classes := front ++ [last.addAttribute a] } : Metamodel).duplicateFindings := by
  simp only [duplicateFindings, h, List.flatMap_append, List.flatMap_singleton]
  exact (List.prefix_append_right_inj _).mpr
    (DuplicateAttribute.findings_prefix_addAttribute last a)

end LastClass

/-- All diagnostics of a metamodel are still there, in order and unaltered, after a
class is added, or an attribute to its last class. -/
theorem growth_keeps_diagnostics (model : Metamodel) (file : SourceFile) {settings : Settings}
    (known : ∀ name ∈ settings.disabled, name ∈ Suite.builtin.names) :
    ∃ ds, model.validateWith settings file = .ok ds ∧
      (∀ c : Class, ∃ grown, (model.addClass c).validateWith settings file = .ok grown ∧
        ds.Sublist grown) ∧
      ∀ front last, model.classes = front ++ [last] → ∀ a : Attribute, ∃ grown,
        ({ model with classes := front ++ [last.addAttribute a] } : Metamodel).validateWith
          settings file = .ok grown ∧ ds.Sublist grown := by
  refine ⟨_, validateWith_eq_ok settings known model file, ?_, ?_⟩
  · intro c
    refine ⟨_, validateWith_eq_ok settings known _ file, ?_⟩
    exact shape_findings_sublist (model.attributes_prefix_addClass c)
      (model.duplicateFindings_prefix_addClass c) settings file
  · intro front last h a
    refine ⟨_, validateWith_eq_ok settings known _ file, ?_⟩
    exact shape_findings_sublist (attributes_prefix_addAttribute h a)
      (duplicateFindings_prefix_addAttribute h a) settings file

end Metamodel

/-- Its default is a misfit at the place where the faulty class repeats a name. -/
def Attribute.overlapping : Attribute where
  name := "b"
  type := .string
  defaultValue := some (.scalar (.boolean true) (.ofCoords 2 0 2 9))

/-- The diagnostic of the new class comes between the two that were there. -/
theorem Metamodel.growth_keeps_diagnostics_of_faulty :
    (∃ ds grown, ds.length = 2 ∧ grown.length = 3 ∧
      validateWith { classes := [.faulty] } {} {} = .ok ds ∧
      validateWith { classes := [.faulty, { name := "D", attributes := [.overlapping] }] }
        {} {} = .ok grown ∧
      ds.Sublist grown) ∧
    "duplicate-attribute" ∈ Suite.builtin.names ∧
    ∃ ds grown, ds.length = 1 ∧ grown.length = 2 ∧
      validateWith { classes := [.faulty] }
        (({} : Settings).disable "duplicate-attribute") {} = .ok ds ∧
      validateWith { classes := [Class.faulty.addAttribute .overlapping] }
        (({} : Settings).disable "duplicate-attribute") {} = .ok grown ∧
      ds.Sublist grown := by
  refine ⟨?_, by decide, ?_⟩
  · have known : ∀ name ∈ ({} : Settings).disabled, name ∈ Suite.builtin.names :=
      Suite.builtin.known_empty
    rcases growth_keeps_diagnostics { classes := [.faulty] } {} known with
      ⟨ds, run, addClass, -⟩
    rcases addClass { name := "D", attributes := [.overlapping] } with ⟨grown, run', sublist⟩
    exact ⟨ds, grown, Suite.apply_eq_of_validate run rfl, Suite.apply_eq_of_validate run' rfl, run,
      run', sublist⟩
  · have known : ∀ name ∈ (({} : Settings).disable "duplicate-attribute").disabled.names,
        name ∈ Suite.builtin.names := by decide
    rcases growth_keeps_diagnostics { classes := [.faulty] } {} known with
      ⟨ds, run, -, addAttribute⟩
    rcases addAttribute [] .faulty rfl .overlapping with ⟨grown, run', sublist⟩
    exact ⟨ds, grown, Suite.apply_eq_of_validate run rfl, Suite.apply_eq_of_validate run' rfl, run,
      run', sublist⟩

end MetamodelValidation
