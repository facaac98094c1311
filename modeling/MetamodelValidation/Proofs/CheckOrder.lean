import MetamodelValidation.Proofs.SuiteRuns

/-! # The order of checks

Checks that only append do not notice each other, so a suite of them gives the lists
of its checks one after the other. In another order of registration the same
diagnostics come in another order, and where repetitions are dropped another one of
each key may be kept, but the keys are the same.
-/

namespace MetamodelValidation

theorem Context.perm_entries_gather {checks checks' : List Check} (h : checks'.Perm checks)
    (append : ∀ check ∈ checks, check.AppendOnly) (ctx : Context) :
    (ctx.gather checks' {}).entries.Perm (ctx.gather checks {}).entries := by
  have append' : ∀ check ∈ checks', check.AppendOnly := fun check hcheck =>
    append check (h.mem_iff.mp hcheck)
  rw [gather_eq_addAll append, gather_eq_addAll append', Report.entries_addAll,
    Report.entries_addAll]
  exact (h.flatMap_right _).append_left _

namespace Suite

section Reordered

variable {suite reordered : Suite} (h : reordered.checks.Perm suite.checks)

include h

theorem perm_enabled (settings : Settings) :
    (reordered.enabled settings).Perm (suite.enabled settings) :=
  h.filter _

theorem known_of_perm {settings : Settings}
    (known : ∀ name ∈ settings.disabled, name ∈ suite.names) :
    ∀ name ∈ settings.disabled, name ∈ reordered.names := fun name hname =>
  (h.map Check.name).mem_iff.mpr (known name hname)

end Reordered

/-- The lists of the enabled checks come in the order of registration, and of one
check in the order of the classes. To register the same checks in another order gives
a permutation, and the same keys if repetitions are dropped. -/
theorem validate_order_of_checks (suite : Suite)
    (append : ∀ check ∈ suite.checks, check.AppendOnly) {settings : Settings}
    (known : ∀ name ∈ settings.disabled, name ∈ suite.names) (model : Metamodel)
    (file : SourceFile) :
    (∀ check ∈ builtinChecks, check.AppendOnly) ∧
    ∃ all kept, suite.validate (settings.withDeduplicate false) model file = .ok all ∧
      suite.validate (settings.withDeduplicate true) model file = .ok kept ∧
      all = ((suite.enabled settings).flatMap fun check => model.classes.flatMap
        (check.raised { file, model, settings := settings.withDeduplicate false })) ∧
      ∀ checks : List Check, checks.Perm suite.checks →
        ∃ reordered all' kept', ({} : Suite).registerAll checks = (reordered, none) ∧
          reordered.validate (settings.withDeduplicate false) model file = .ok all' ∧
          reordered.validate (settings.withDeduplicate true) model file = .ok kept' ∧
          all'.Perm all ∧
          kept'.length = kept.length ∧
          ∀ k, k ∈ kept'.map Diagnostic.key ↔ k ∈ kept.map Diagnostic.key := by
  have appendEnabled : ∀ check ∈ suite.enabled settings, check.AppendOnly := fun check hcheck =>
    append check (mem_checks_of_mem_enabled hcheck)
  refine ⟨fun _ => appendOnly_of_mem_builtinChecks, _, _,
    validate_withDeduplicate_false known model file,
    validate_withDeduplicate_true known model file, ?_, ?_⟩
  · rw [Context.gather_eq_addAll appendEnabled]
    rfl
  · intro checks perm
    have nodup : (checks.map Check.name).Nodup := (perm.map Check.name).nodup_iff.mpr suite.nodup
    let reordered : Suite := ⟨checks, nodup⟩
    have perm' : reordered.checks.Perm suite.checks := perm
    have known' := known_of_perm perm' known
    have gathered (on : Bool) := Context.perm_entries_gather (perm_enabled perm' settings)
      appendEnabled { file, model, settings := settings.withDeduplicate on }
    have keys := Diagnostic.perm_keys_distinct (gathered true)
    refine ⟨reordered, _, _, registerAll_eq {} nodup,
      validate_withDeduplicate_false known' model file,
      validate_withDeduplicate_true known' model file, gathered false, ?_, fun k => keys.mem_iff⟩
    simpa only [List.length_map] using keys.length_eq

/-- The check that comes first decides how grave the remarks are that are kept. -/
theorem validate_order_of_checks_of_escalating :
    ∃ all kept reordered all' kept',
      escalating.validate ((({} : Settings).disable "duplicate-attribute").withDeduplicate false)
        .bare {} = .ok all ∧
      escalating.validate ((({} : Settings).disable "duplicate-attribute").withDeduplicate true)
        .bare {} = .ok kept ∧
      ({} : Suite).registerAll escalating.checks.reverse = (reordered, none) ∧
      reordered.validate ((({} : Settings).disable "duplicate-attribute").withDeduplicate false)
        .bare {} = .ok all' ∧
      reordered.validate ((({} : Settings).disable "duplicate-attribute").withDeduplicate true)
        .bare {} = .ok kept' ∧
      all.map (·.severity) = [.warning, .warning, .error, .error] ∧ all'.Perm all ∧
      kept.map (·.severity) = [.warning, .warning] ∧ kept'.map (·.severity) = [.error, .error] ∧
      ∀ k, k ∈ kept'.map Diagnostic.key ↔ k ∈ kept.map Diagnostic.key := by
  have known : ∀ name ∈ (({} : Settings).disable "duplicate-attribute").disabled.names,
      name ∈ escalating.names := by decide
  rcases validate_order_of_checks escalating appendOnly_escalating known .bare {} with
    ⟨-, all, kept, off, on, -, orders⟩
  rcases orders _ escalating.checks.reverse_perm with
    ⟨reordered, all', kept', registered, off', on', perm, -, keys⟩
  have nodup : (escalating.checks.reverse.map Check.name).Nodup := by decide
  cases registered.symm.trans (registerAll_eq {} nodup)
  exact ⟨all, kept, _, all', kept', off, on, registered, off', on', apply_eq_of_validate off rfl,
    perm, apply_eq_of_validate on rfl, apply_eq_of_validate on' rfl, keys⟩

end Suite

end MetamodelValidation
