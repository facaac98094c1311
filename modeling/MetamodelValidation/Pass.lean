import MetamodelValidation.Suite

/-! # Validation passes

A pass is a suite with settings that fit it. It can be run on any number of
metamodels, and every run starts from an empty report.
-/

namespace MetamodelValidation

/-- Only checks of the suite are disabled. -/
structure Pass where
  suite : Suite
  settings : Settings
  known : ∀ name ∈ settings.disabled, name ∈ suite.names

/-- What a run gives back. -/
structure Outcome where
  diagnostics : List Diagnostic
  events : List Event
deriving DecidableEq, Repr

namespace Pass

theorem known_of_unknown_eq_nil {suite : Suite} {settings : Settings}
    (h : suite.unknown settings = []) : ∀ name ∈ settings.disabled, name ∈ suite.names := by
  intro name hname
  simpa using List.filter_eq_nil_iff.mp h name hname

/-- Joins a suite and settings. Settings that disable a name outside the suite
are refused, and the least such name is given as the reason. -/
def prepare (suite : Suite) (settings : Settings) : Except SetupError Pass :=
  match h : suite.unknown settings with
  | [] => .ok ⟨suite, settings, known_of_unknown_eq_nil h⟩
  | name :: _ => .error (.unknownCheck name)

/-- Settings that disable checks of the suite only are accepted. -/
theorem prepare_eq_ok {suite : Suite} {settings : Settings}
    (known : ∀ name ∈ settings.disabled, name ∈ suite.names) :
    prepare suite settings = .ok ⟨suite, settings, known⟩ := by
  unfold prepare
  split
  · rfl
  · rename_i name others hunknown
    have hmem : name ∈ suite.unknown settings := hunknown ▸ List.mem_cons_self
    obtain ⟨hdisabled, hname⟩ := List.mem_filter.mp hmem
    exact absurd (known name hdisabled) (by simpa using hname)

/-- All built-in checks under the default settings. -/
def standard : Pass where
  suite := .builtin
  settings := {}
  known _ h := absurd h (NameSet.not_mem_empty _)

/-- Runs one check on the whole metamodel, or notes that it is disabled. -/
def visitCheck (ctx : Context) (check : Check) (r : Report) : Visit :=
  if ctx.settings.isEnabled check.name then check.visitAll ctx r
  else { report := r, events := [.checkDisabled check.name] }

/-- Runs the checks of the suite in order, each on the whole metamodel. -/
def visit (p : Pass) (ctx : Context) : Visit :=
  Visit.each (visitCheck ctx) p.suite.checks {}

def run (p : Pass) (model : Metamodel) (file : SourceFile := {}) : Outcome :=
  let visit := p.visit { file, model, settings := p.settings }
  let diagnostics :=
    if p.settings.deduplicate then visit.report.takeDistinct.1 else visit.report.take.1
  { diagnostics
    events := .started model.name model.classes.length :: visit.events
      ++ [.finished model.name diagnostics.length] }

end Pass

/-- Validates a metamodel with the checks of the suite under the given settings. -/
def Suite.validate (suite : Suite) (settings : Settings) (model : Metamodel)
    (file : SourceFile := {}) : Except SetupError (List Diagnostic) :=
  (Pass.prepare suite settings).map fun p => (p.run model file).diagnostics

theorem Pass.validate_suite (p : Pass) (model : Metamodel) (file : SourceFile) :
    p.suite.validate p.settings model file = .ok (p.run model file).diagnostics := by
  rw [Suite.validate, prepare_eq_ok p.known]
  rfl

namespace Metamodel

/-- Validates a metamodel with the built-in checks under the given settings. -/
def validateWith (model : Metamodel) (settings : Settings) (file : SourceFile := {}) :
    Except SetupError (List Diagnostic) :=
  Suite.builtin.validate settings model file

/-- Validates a metamodel with the built-in checks and the default settings. -/
def validate (model : Metamodel) (file : SourceFile := {}) : List Diagnostic :=
  (Pass.standard.run model file).diagnostics

/-- The default settings are never refused. -/
theorem validateWith_default (model : Metamodel) (file : SourceFile) :
    model.validateWith {} file = .ok (model.validate file) :=
  Pass.standard.validate_suite model file

end Metamodel

end MetamodelValidation
