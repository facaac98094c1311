import MetamodelValidation.Proofs.SuiteRuns

/-! # A disabled check is a check left out

A disabled check is passed over before it sees the report. The checks after it find the
report as if it had never been registered, and if none of them looks at the names that
are disabled, they do the same with it.
-/

namespace MetamodelValidation

namespace Suite

def without (suite : Suite) (names : NameSet) : Suite where
  checks := suite.checks.filter (·.name ∉ names)
  nodup := suite.nodup.sublist (List.filter_sublist.map Check.name)

theorem registerAll_without (suite : Suite) (names : NameSet) :
    ({} : Suite).registerAll (suite.checks.filter (·.name ∉ names)) =
      (suite.without names, none) :=
  registerAll_eq {} (suite.without names).nodup

/-- With nothing disabled, the checks that were not left out are all enabled. -/
theorem enabled_without (suite : Suite) (settings : Settings) :
    (suite.without settings.disabled).enabled { settings with disabled := ∅ } =
      suite.enabled settings := by
  apply List.filter_eq_self.mpr
  intro check _
  exact Settings.isEnabled_of_disabled_eq_empty rfl check.name

/-- A suite with some checks disabled gives the same diagnostics as a suite in which
they were never registered, whatever the other checks do with the report. -/
theorem disabling_eq_not_registering (suite : Suite)
    (reads : ∀ check ∈ suite.checks, check.ReadsOnly fun s => (s.deduplicate, s.elementCap))
    {settings : Settings} (known : ∀ name ∈ settings.disabled, name ∈ suite.names)
    (model : Metamodel) (file : SourceFile) :
    ∃ rest ds,
      ({} : Suite).registerAll (suite.checks.filter (·.name ∉ settings.disabled)) =
        (rest, none) ∧
      suite.validate settings model file = .ok ds ∧
      rest.validate { settings with disabled := ∅ } model file = .ok ds := by
  refine ⟨suite.without settings.disabled, _, suite.registerAll_without settings.disabled,
    validate_eq_ok settings known model file, ?_⟩
  rw [validate_eq_ok { settings with disabled := ∅ } (known_empty _), enabled_without,
    gather_enabled_eq_of_readsOnly reads settings file model
      (s := { settings with disabled := ∅ }) (t := settings) rfl]
  rfl

end Suite

namespace Check

def tally : Check where
  name := "tally"
  visit ctx _ r :=
    { report := r.add { file := ctx.file, severity := .info, message := toString r.errorCount } }

def wipe : Check where
  name := "wipe"
  visit _ _ r := { report := r.clear }

theorem readsOnly_tally {α : Type} (view : Settings → α) : tally.ReadsOnly view :=
  fun _ _ _ _ _ => rfl

theorem readsOnly_wipe {α : Type} (view : Settings → α) : wipe.ReadsOnly view :=
  fun _ _ _ _ _ => rfl

end Check

namespace Suite

def meddling : Suite where
  checks := [DefaultValue.check, .tally, .wipe, DuplicateAttribute.check]
  nodup := by decide

/-- The errors that a disabled check would have found are not counted, and a disabled
check clears nothing. -/
theorem disabling_eq_not_registering_of_meddling :
    ∃ rest ds,
      ({} : Suite).registerAll [.tally, DuplicateAttribute.check] = (rest, none) ∧
      meddling.validate ((({} : Settings).disable "wipe").disable "attribute-default-value")
        { classes := [.faulty] } {} = .ok ds ∧
      rest.validate {} { classes := [.faulty] } {} = .ok ds ∧
      ds.map (·.message) = ["0", "duplicate attribute: 'a' is already declared in 'C'"] := by
  have reads : ∀ check ∈ meddling.checks,
      check.ReadsOnly fun s => (s.deduplicate, s.elementCap) := by
    have capOnly : DefaultValue.check.ReadsOnly fun s => (s.deduplicate, s.elementCap) :=
      DefaultValue.readsOnly_check fun s t same => (Prod.mk.inj same).2
    simp [meddling, capOnly, Check.readsOnly_tally, Check.readsOnly_wipe,
      DuplicateAttribute.readsOnly_check]
  have known : ∀ name ∈
      ((({} : Settings).disable "wipe").disable "attribute-default-value").disabled.names,
      name ∈ meddling.names := by decide
  rcases disabling_eq_not_registering meddling reads known { classes := [.faulty] } {} with
    ⟨rest, ds, registered, disabled, left⟩
  exact ⟨rest, ds, registered, disabled, left, apply_eq_of_validate disabled rfl⟩

end Suite

end MetamodelValidation
