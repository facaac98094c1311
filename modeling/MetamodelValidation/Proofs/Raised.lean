import MetamodelValidation.Pass
import MetamodelValidation.Proofs.Distinct

/-! # What a pass reports

A check that only appends to the report is known by what it raises in each
class. A pass of such checks reports what its enabled checks raise, check by
check and class by class, and the built-in checks are of this sort: their
reports are the diagnostics of one list of findings.
-/

namespace MetamodelValidation

namespace Report

@[simp] theorem addAll_nil (r : Report) : r.addAll [] = r := by
  simp [addAll]

theorem addAll_addAll (r : Report) (ds es : List Diagnostic) :
    (r.addAll ds).addAll es = r.addAll (ds ++ es) := by
  simp [addAll]

end Report

theorem Settings.isEnabled_of_disabled_eq_empty {s : Settings} (h : s.disabled = ∅)
    (name : String) : s.isEnabled name = true := by
  rw [isEnabled_iff, h]
  exact NameSet.not_mem_empty name

/-- Visits that each append their own diagnostics append them all in order. -/
theorem Visit.report_each {α : Type} {visit : α → Report → Visit} {found : α → List Diagnostic}
    {as : List α} (h : ∀ a ∈ as, ∀ r, (visit a r).report = r.addAll (found a)) (r : Report) :
    (Visit.each visit as r).report = r.addAll (as.flatMap found) := by
  induction as generalizing r with
  | nil => simp
  | cons a as ih =>
    change (Visit.each visit as (visit a r).report).report = _
    rw [ih (fun b hb => h b (List.mem_cons_of_mem a hb)), h a List.mem_cons_self,
      Report.addAll_addAll, List.flatMap_cons]

namespace Check

/-- What the check puts into an empty report when it visits the class. -/
def raised (check : Check) (ctx : Context) (c : Class) : List Diagnostic :=
  (check.visit ctx c {}).report.entries

/-- The check adds the same diagnostics whatever was reported before. -/
def AppendOnly (check : Check) : Prop :=
  ∀ ctx c r, (check.visit ctx c r).report = r.addAll (check.raised ctx c)

theorem AppendOnly.report_visitAll {check : Check} (h : check.AppendOnly) (ctx : Context)
    (r : Report) :
    (check.visitAll ctx r).report = r.addAll (ctx.model.classes.flatMap (check.raised ctx)) :=
  Visit.report_each (fun c _ r => h ctx c r) r

end Check

def Suite.raised (suite : Suite) (ctx : Context) (c : Class) : List Diagnostic :=
  (suite.checks.filter (ctx.settings.isEnabled ·.name)).flatMap fun check => check.raised ctx c

theorem Suite.mem_raised {suite : Suite} {ctx : Context} {c : Class} {d : Diagnostic} :
    d ∈ suite.raised ctx c ↔ ∃ check ∈ suite.checks,
      ctx.settings.isEnabled check.name = true ∧ d ∈ check.raised ctx c := by
  simp only [raised, List.mem_flatMap, List.mem_filter, and_assoc]

namespace Pass

def context (p : Pass) (model : Metamodel) (file : SourceFile) : Context :=
  { file, model, settings := p.settings }

theorem report_visitCheck {ctx : Context} {check : Check} (h : check.AppendOnly) (r : Report) :
    (visitCheck ctx check r).report =
      r.addAll (if ctx.settings.isEnabled check.name then
        ctx.model.classes.flatMap (check.raised ctx) else []) := by
  unfold visitCheck
  split
  · exact h.report_visitAll ctx r
  · simp

/-- The order is that of the checks first, and of the classes second. -/
theorem entries_visit {p : Pass} (h : ∀ check ∈ p.suite.checks, check.AppendOnly)
    (ctx : Context) :
    (p.visit ctx).report.entries = p.suite.checks.flatMap fun check =>
      if ctx.settings.isEnabled check.name then
        ctx.model.classes.flatMap (check.raised ctx) else [] := by
  rw [visit, Visit.report_each (fun check hcheck r => report_visitCheck (h check hcheck) r)]
  simp

theorem mem_entries_visit {p : Pass} (h : ∀ check ∈ p.suite.checks, check.AppendOnly)
    {ctx : Context} {d : Diagnostic} :
    d ∈ (p.visit ctx).report.entries ↔ ∃ c ∈ ctx.model.classes, d ∈ p.suite.raised ctx c := by
  rw [entries_visit h, List.mem_flatMap]
  constructor
  · rintro ⟨check, hcheck, hd⟩
    split at hd
    · rename_i enabled
      obtain ⟨c, hc, hraised⟩ := List.mem_flatMap.mp hd
      exact ⟨c, hc, Suite.mem_raised.mpr ⟨check, hcheck, enabled, hraised⟩⟩
    · exact absurd hd List.not_mem_nil
  · rintro ⟨c, hc, hd⟩
    rcases Suite.mem_raised.mp hd with ⟨check, hcheck, enabled, hraised⟩
    refine ⟨check, hcheck, ?_⟩
    rw [if_pos enabled]
    exact List.mem_flatMap.mpr ⟨c, hc, hraised⟩

end Pass

theorem Pass.diagnostics_run (p : Pass) (model : Metamodel) (file : SourceFile) :
    (p.run model file).diagnostics =
      p.settings.shape (p.visit (p.context model file)).report.entries := by
  simp [run, context, Settings.shape]

namespace DefaultValue

theorem appendOnly_check : check.AppendOnly := by
  intro ctx c r
  simp [check, Check.raised]

theorem raised_check (ctx : Context) (c : Class) :
    check.raised ctx c =
      (c.attributes.flatMap (findings ctx.settings.elementCap)).map
        (·.toDiagnostic ctx.file) := by
  simp [check, Check.raised]

end DefaultValue

namespace DuplicateAttribute

theorem appendOnly_check : check.AppendOnly := by
  intro ctx c r
  simp [check, Check.raised]

theorem raised_check (ctx : Context) (c : Class) :
    check.raised ctx c = (findings c).map (·.toDiagnostic ctx.file) := by
  simp [check, Check.raised]

end DuplicateAttribute

theorem Suite.appendOnly_of_mem_builtinChecks {check : Check} (h : check ∈ builtinChecks) :
    check.AppendOnly := by
  rcases List.mem_cons.mp h with rfl | h
  · exact DefaultValue.appendOnly_check
  · rw [List.mem_singleton.mp h]
    exact DuplicateAttribute.appendOnly_check

/-- All that a built-in check raises are findings of the class. -/
theorem Suite.exists_finding_of_mem_raised {check : Check} (h : check ∈ builtinChecks)
    {ctx : Context} {c : Class} {d : Diagnostic} (hd : d ∈ check.raised ctx c) :
    ∃ f : Finding, f.toDiagnostic ctx.file = d ∧
      (f ∈ c.attributes.flatMap (DefaultValue.findings ctx.settings.elementCap) ∨
        f ∈ DuplicateAttribute.findings c) := by
  rcases List.mem_cons.mp h with rfl | h
  · rw [DefaultValue.raised_check] at hd
    obtain ⟨f, hf, rfl⟩ := List.mem_map.mp hd
    exact ⟨f, rfl, .inl hf⟩
  · rw [List.mem_singleton.mp h, DuplicateAttribute.raised_check] at hd
    obtain ⟨f, hf, rfl⟩ := List.mem_map.mp hd
    exact ⟨f, rfl, .inr hf⟩

namespace Metamodel

def attributes (model : Metamodel) : List Attribute :=
  model.classes.flatMap Class.attributes

def defaultFindings (cap : Option Nat) (model : Metamodel) : List Finding :=
  model.attributes.flatMap (DefaultValue.findings cap)

def duplicateFindings (model : Metamodel) : List Finding :=
  model.classes.flatMap DuplicateAttribute.findings

/-- The findings of the built-in checks that are enabled. -/
def findings (settings : Settings) (model : Metamodel) : List Finding :=
  (if settings.isEnabled DefaultValue.check.name then
      model.defaultFindings settings.elementCap else [])
    ++ if settings.isEnabled DuplicateAttribute.check.name then model.duplicateFindings else []

theorem findings_of_disabled_eq_empty {settings : Settings} (h : settings.disabled = ∅)
    (model : Metamodel) :
    model.findings settings =
      model.defaultFindings settings.elementCap ++ model.duplicateFindings := by
  have enabled := Settings.isEnabled_of_disabled_eq_empty h
  rw [findings, if_pos (enabled _), if_pos (enabled _)]

end Metamodel

namespace DefaultValue

theorem flatMap_raised_check (ctx : Context) :
    ctx.model.classes.flatMap (check.raised ctx) =
      (ctx.model.defaultFindings ctx.settings.elementCap).map (·.toDiagnostic ctx.file) := by
  rw [Metamodel.defaultFindings, Metamodel.attributes, List.flatMap_assoc, List.map_flatMap]
  rfl

end DefaultValue

namespace DuplicateAttribute

theorem flatMap_raised_check (ctx : Context) :
    ctx.model.classes.flatMap (check.raised ctx) =
      ctx.model.duplicateFindings.map (·.toDiagnostic ctx.file) := by
  rw [Metamodel.duplicateFindings, List.map_flatMap]
  rfl

end DuplicateAttribute

namespace Pass

theorem entries_visit_builtin {p : Pass} (hp : p.suite = .builtin) (model : Metamodel)
    (file : SourceFile) :
    (p.visit (p.context model file)).report.entries =
      (model.findings p.settings).map (·.toDiagnostic file) := by
  rw [entries_visit (by rw [hp]; exact fun _ => Suite.appendOnly_of_mem_builtinChecks), hp]
  simp only [Suite.builtin, Suite.builtinChecks, List.flatMap_cons, List.flatMap_nil,
    List.append_nil, DefaultValue.flatMap_raised_check, DuplicateAttribute.flatMap_raised_check]
  rw [Metamodel.findings, List.map_append, apply_ite (List.map _), apply_ite (List.map _),
    List.map_nil]
  rfl

end Pass

theorem Suite.apply_eq_of_validate {β : Type} {suite : Suite} {settings : Settings}
    {model : Metamodel} {file : SourceFile} {ds : List Diagnostic}
    (h : suite.validate settings model file = .ok ds) {f : List Diagnostic → β} {b : β}
    (hb : (suite.validate settings model file).map f = .ok b) : f ds = b := by
  rw [h] at hb
  exact Except.ok.inj hb

namespace Metamodel

theorem validateWith_eq_ok (settings : Settings)
    (known : ∀ name ∈ settings.disabled, name ∈ Suite.builtin.names) (model : Metamodel)
    (file : SourceFile) :
    model.validateWith settings file =
      .ok (settings.shape ((model.findings settings).map (·.toDiagnostic file))) := by
  let p : Pass := ⟨.builtin, settings, known⟩
  calc model.validateWith settings file
      = .ok (p.run model file).diagnostics := p.validate_suite model file
    _ = .ok (settings.shape ((model.findings settings).map (·.toDiagnostic file))) := by
        rw [Pass.diagnostics_run, Pass.entries_visit_builtin rfl]

/-- What is reported before repetitions are dropped is what the classes raise. -/
theorem mem_findings_iff_mem_raised (settings : Settings)
    (known : ∀ name ∈ settings.disabled, name ∈ Suite.builtin.names) {model : Metamodel}
    {file : SourceFile} {d : Diagnostic} :
    d ∈ (model.findings settings).map (·.toDiagnostic file) ↔
      ∃ c ∈ model.classes, d ∈ Suite.builtin.raised { file, model, settings } c := by
  let p : Pass := ⟨.builtin, settings, known⟩
  rw [← Pass.entries_visit_builtin (rfl : p.suite = .builtin)]
  exact Pass.mem_entries_visit fun _ => Suite.appendOnly_of_mem_builtinChecks

end Metamodel

end MetamodelValidation
