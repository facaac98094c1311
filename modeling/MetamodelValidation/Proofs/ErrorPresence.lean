import MetamodelValidation.Proofs.SuiteRuns

/-! # Errors among repetitions

Diagnostics with one key may differ in severity, and deduplication keeps the first of
them. So an error is lost with its key if something less grave stands before it. Nothing
else hides an error, and none appears that was not there.
-/

namespace MetamodelValidation

theorem Report.hasErrors_iff {r : Report} :
    r.hasErrors = true ↔ ∃ d ∈ r.entries, d.severity = .error := by
  simp [hasErrors]

namespace Diagnostic

/-- The first diagnostic is less grave than the second one, an error with the same key,
which is hidden if it comes later. -/
def Masks (d e : Diagnostic) : Prop :=
  d.key = e.key ∧ d.severity ≠ .error ∧ e.severity = .error

instance (d e : Diagnostic) : Decidable (d.Masks e) :=
  inferInstanceAs (Decidable (d.key = e.key ∧ d.severity ≠ .error ∧ e.severity = .error))

def HasUnmaskedError (ds : List Diagnostic) : Prop :=
  ∃ front d back, ds = front ++ d :: back ∧ d.severity = .error ∧ ∀ e ∈ front, ¬e.Masks d

variable {ds : List Diagnostic}

theorem hasUnmaskedError_of_mem_distinct {d : Diagnostic} (h : d ∈ distinct ds)
    (error : d.severity = .error) : HasUnmaskedError ds := by
  obtain ⟨front, back, split, first⟩ := mem_distinct_iff.mp h
  exact ⟨front, d, back, split, error, fun e he masks => first e he masks.1⟩

/-- If the error is not kept itself, an error before it with its key is kept. -/
theorem HasUnmaskedError.exists_mem_distinct (h : HasUnmaskedError ds) :
    ∃ d ∈ distinct ds, d.severity = .error := by
  obtain ⟨front, d, back, rfl, error, unmasked⟩ := h
  rw [distinct, distinctFrom_append]
  by_cases seen : d.key ∈ front.map key
  · obtain ⟨e, he, hkey⟩ := List.mem_map.mp (mem_keys_distinct.mpr seen)
    refine ⟨e, List.mem_append_left _ he, ?_⟩
    apply Decidable.byContradiction
    intro lesser
    exact unmasked e ((distinct_sublist front).subset he) ⟨hkey, lesser, error⟩
  · refine ⟨d, List.mem_append_right _ ?_, error⟩
    rw [distinctFrom_cons_of_not_mem back (by rwa [List.append_nil])]
    exact List.mem_cons_self

theorem exists_error_distinct_iff :
    (∃ d ∈ distinct ds, d.severity = .error) ↔ HasUnmaskedError ds := by
  constructor
  · rintro ⟨d, hd, error⟩
    exact hasUnmaskedError_of_mem_distinct hd error
  · exact HasUnmaskedError.exists_mem_distinct

theorem HasUnmaskedError.exists_mem (h : HasUnmaskedError ds) :
    ∃ d ∈ ds, d.severity = .error := by
  obtain ⟨front, d, back, rfl, error, -⟩ := h
  exact ⟨d, List.mem_append_right front List.mem_cons_self, error⟩

/-- Where nothing is masked, every error is unmasked. -/
theorem hasUnmaskedError_iff (h : ds.Pairwise fun d e => ¬d.Masks e) :
    HasUnmaskedError ds ↔ ∃ d ∈ ds, d.severity = .error := by
  refine ⟨HasUnmaskedError.exists_mem, ?_⟩
  rintro ⟨d, hd, error⟩
  obtain ⟨front, back, rfl⟩ := List.append_of_mem hd
  refine ⟨front, d, back, rfl, error, fun e he => ?_⟩
  exact (List.pairwise_append.mp h).2.2 e he d List.mem_cons_self

end Diagnostic

def Report.twofold (first second : Severity) : Report where
  entries := [{ severity := first, message := "m" }, { severity := second, message := "m" }]

namespace Suite

/-- After deduplication there is an error exactly if there was one that nothing masked.
So none is made up, and none is lost where nothing is masked. -/
theorem deduplication_keeps_unmasked_errors :
    (∀ r : Report,
      ((∃ d ∈ r.takeDistinct.1, d.severity = .error) ↔ Diagnostic.HasUnmaskedError r.entries) ∧
      ((∃ d ∈ r.takeDistinct.1, d.severity = .error) → r.hasErrors = true) ∧
      (r.entries.Pairwise (fun d e => ¬d.Masks e) →
        ((∃ d ∈ r.takeDistinct.1, d.severity = .error) ↔ r.hasErrors = true))) ∧
    ∀ suite : Suite,
      (∀ check ∈ suite.checks, check.ReadsOnly fun s => (s.disabled, s.elementCap)) →
      ∀ settings : Settings, (∀ name ∈ settings.disabled, name ∈ suite.names) →
      ∀ (model : Metamodel) (file : SourceFile), ∃ all kept,
        suite.validate (settings.withDeduplicate false) model file = .ok all ∧
        suite.validate (settings.withDeduplicate true) model file = .ok kept ∧
        ((∃ d ∈ kept, d.severity = .error) ↔ Diagnostic.HasUnmaskedError all) ∧
        ((∃ d ∈ kept, d.severity = .error) → ∃ d ∈ all, d.severity = .error) ∧
        (all.Pairwise (fun d e => ¬d.Masks e) →
          ((∃ d ∈ kept, d.severity = .error) ↔ ∃ d ∈ all, d.severity = .error)) := by
  have unmasked (ds : List Diagnostic) :
      ((∃ d ∈ Diagnostic.distinct ds, d.severity = .error) ↔ Diagnostic.HasUnmaskedError ds) ∧
      ((∃ d ∈ Diagnostic.distinct ds, d.severity = .error) → ∃ d ∈ ds, d.severity = .error) ∧
      (ds.Pairwise (fun d e => ¬d.Masks e) →
        ((∃ d ∈ Diagnostic.distinct ds, d.severity = .error) ↔ ∃ d ∈ ds, d.severity = .error)) := by
    rw [Diagnostic.exists_error_distinct_iff]
    exact ⟨Iff.rfl, Diagnostic.HasUnmaskedError.exists_mem, Diagnostic.hasUnmaskedError_iff⟩
  constructor
  · intro r
    rw [Report.hasErrors_iff]
    exact unmasked r.entries
  · intro suite reads settings known model file
    obtain ⟨all, off, on⟩ := exists_validate_withDeduplicate known model file reads
    exact ⟨all, _, off, on, unmasked all⟩

/-- One error is masked and another is not, and an error that comes first is kept. -/
theorem deduplication_keeps_unmasked_errors_of_escalating :
    ((Report.twofold .error .warning).takeDistinct.1.map (·.severity) = [.error] ∧
      ((∃ d ∈ (Report.twofold .error .warning).takeDistinct.1, d.severity = .error) ↔
        (Report.twofold .error .warning).hasErrors = true)) ∧
    ∃ all kept,
      escalating.validate (({} : Settings).withDeduplicate false) { classes := [.faulty] } {} =
        .ok all ∧
      escalating.validate (({} : Settings).withDeduplicate true) { classes := [.faulty] } {} =
        .ok kept ∧
      all.map (·.severity) = [.warning, .error, .error] ∧
      kept.map (·.severity) = [.warning, .error] ∧ Diagnostic.HasUnmaskedError all := by
  constructor
  · exact ⟨by decide, (deduplication_keeps_unmasked_errors.1 _).2.2 (by decide)⟩
  · rcases deduplication_keeps_unmasked_errors.2 escalating (readsOnly_escalating _) {}
      escalating.known_empty { classes := [.faulty] } {} with ⟨all, kept, off, on, unmasked, -⟩
    have severities : kept.map (·.severity) = [.warning, .error] := apply_eq_of_validate on rfl
    refine ⟨all, kept, off, on, apply_eq_of_validate off rfl, severities, unmasked.mp ?_⟩
    apply List.mem_map.mp
    rw [severities]
    decide

/-- A lesser diagnostic that comes first hides the error: in a report, and in the run of
a suite whose checks do not look whether repetitions are dropped. -/
theorem deduplication_hides_error :
    ((Report.twofold .warning .error).hasErrors = true ∧
      ¬∃ d ∈ (Report.twofold .warning .error).takeDistinct.1, d.severity = .error) ∧
    (∀ check ∈ escalating.checks, check.ReadsOnly fun s => (s.disabled, s.elementCap)) ∧
    ∃ all kept,
      escalating.validate (({} : Settings).withDeduplicate false) .bare {} = .ok all ∧
      escalating.validate (({} : Settings).withDeduplicate true) .bare {} = .ok kept ∧
      (∃ d ∈ all, d.severity = .error) ∧ ¬∃ d ∈ kept, d.severity = .error := by
  refine ⟨by decide, readsOnly_escalating _, ?_⟩
  have known : ∀ name ∈ ({} : Settings).disabled, name ∈ escalating.names :=
    escalating.known_empty
  obtain ⟨all, off, on⟩ :=
    exists_validate_withDeduplicate known .bare {} (readsOnly_escalating _)
  have severities : all.map (·.severity) = [.warning, .warning, .error, .error] :=
    apply_eq_of_validate off rfl
  have severities' : (Diagnostic.distinct all).map (·.severity) = [.warning, .warning] :=
    apply_eq_of_validate on rfl
  refine ⟨all, _, off, on, ?_, ?_⟩
  · apply List.mem_map.mp
    rw [severities]
    decide
  · intro error
    have hmem := List.mem_map.mpr error
    rw [severities'] at hmem
    exact absurd hmem (by decide)

end Suite

end MetamodelValidation
