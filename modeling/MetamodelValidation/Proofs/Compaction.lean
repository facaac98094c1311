import MetamodelValidation.Proofs.SuiteRuns

/-! # Repetitions may be dropped early

Whether repetitions are dropped once at the end, or also before, any number of times,
does not show in what is handed out: the entries that are dropped early are repetitions
of earlier ones, and would be dropped at the end. So a check that drops them early can
stand anywhere in a suite of checks that append.
-/

namespace MetamodelValidation

namespace Report

def compact (r : Report) : Report :=
  r.takeDistinct.1.foldl add r.takeDistinct.2

theorem foldl_add (ds : List Diagnostic) (r : Report) : ds.foldl add r = r.addAll ds := by
  induction ds generalizing r with
  | nil => simp
  | cons d ds ih => rw [List.foldl_cons, ih, add, addAll, addAll, List.append_assoc,
      List.singleton_append]

@[simp] theorem entries_compact (r : Report) :
    r.compact.entries = Diagnostic.distinct r.entries := by
  simp [compact, foldl_add]

inductive Step where
  | add (d : Diagnostic)
  | compact

def Step.isAdd : Step → Bool
  | add _ => true
  | compact => false

def perform (r : Report) : Step → Report
  | .add d => r.add d
  | .compact => r.compact

/-- The reports hand out the same if repetitions are dropped. -/
def Alike (r r' : Report) : Prop := r.takeDistinct.1 = r'.takeDistinct.1

section Alike

variable {r r' : Report}

theorem alike_compact (r : Report) : r.compact.Alike r := by
  have absorbed := Diagnostic.distinct_distinct_append r.entries []
  simpa [Alike] using absorbed

theorem Alike.addAll (h : r.Alike r') (ds : List Diagnostic) :
    (r.addAll ds).Alike (r'.addAll ds) := by
  change Diagnostic.distinct r.entries = Diagnostic.distinct r'.entries at h
  change Diagnostic.distinct (r.entries ++ ds) = Diagnostic.distinct (r'.entries ++ ds)
  rw [← Diagnostic.distinct_distinct_append, h, Diagnostic.distinct_distinct_append]

/-- Reports stay alike if one of them is compacted on the way and the other is not. -/
theorem Alike.foldl_perform (h : r.Alike r') (steps : List Step) :
    (steps.foldl perform r).Alike ((steps.filter Step.isAdd).foldl perform r') := by
  induction steps generalizing r r' with
  | nil => exact h
  | cons step steps ih =>
    cases step with
    | add d => exact ih (h.addAll [d])
    | compact => exact ih (r.alike_compact.trans h)

theorem Alike.gather (h : r.Alike r') {checks : List Check}
    (append : ∀ check ∈ checks, check.AppendOnly) (ctx : Context) :
    (ctx.gather checks r).Alike (ctx.gather checks r') := by
  rw [Context.gather_eq_addAll append, Context.gather_eq_addAll append]
  exact h.addAll _

end Alike

end Report

namespace Check

/-- The check drops repetitions from the report, and does nothing else. -/
def Compacts (check : Check) : Prop :=
  ∀ ctx c r, (check.visit ctx c r).report = r.compact

theorem Compacts.alike_visitAll {check : Check} (h : check.Compacts) (ctx : Context)
    (r : Report) : (check.visitAll ctx r).report.Alike r := by
  apply Visit.report_each_keeps (P := fun s => s.Alike r)
  · intro c _ s hs
    rw [h ctx c s]
    exact s.alike_compact.trans hs
  · rfl

def compactor : Check where
  name := "compactor"
  visit _ _ r := { report := r.compact }

theorem compacts_compactor : compactor.Compacts := fun _ _ _ => rfl

end Check

/-- A check that compacts may stand anywhere among checks that append. -/
theorem Context.alike_gather_insert {front back : List Check}
    (append : ∀ check ∈ back, check.AppendOnly) {compacting : Check}
    (compacts : compacting.Compacts) (ctx : Context) (r : Report) :
    (ctx.gather (front ++ compacting :: back) r).Alike (ctx.gather (front ++ back) r) := by
  rw [gather_append, gather_append, gather_cons]
  exact (compacts.alike_visitAll ctx _).gather append ctx

namespace Suite

section Insert

variable {suite : Suite} {front back : List Check} (split : suite.checks = front ++ back)
  {added : Check} (fresh : added.name ∉ suite.names)

include split in
theorem perm_names_insert :
    ((front ++ added :: back).map Check.name).Perm (added.name :: suite.names) := by
  rw [names, split, ← List.map_cons]
  exact List.perm_middle.map Check.name

def insert : Suite where
  checks := front ++ added :: back
  nodup := by
    rw [(perm_names_insert split).nodup_iff, List.nodup_cons]
    exact ⟨fresh, suite.nodup⟩

theorem registerAll_insert :
    ({} : Suite).registerAll (front ++ added :: back) = (insert split fresh, none) :=
  registerAll_eq {} (insert split fresh).nodup

variable {settings : Settings} (known : ∀ name ∈ settings.disabled, name ∈ suite.names)

include known

theorem known_insert : ∀ name ∈ settings.disabled, name ∈ (insert split fresh).names :=
  fun name hname =>
    (perm_names_insert split).mem_iff.mpr (List.mem_cons_of_mem _ (known name hname))

/-- Settings for the suite do not know the check that was added, and leave it on. -/
theorem enabled_insert :
    (insert split fresh).enabled settings =
      front.filter (settings.isEnabled ·.name)
        ++ added :: back.filter (settings.isEnabled ·.name) := by
  have on : settings.isEnabled added.name = true :=
    Settings.isEnabled_iff.mpr fun disabled => fresh (known _ disabled)
  simp [enabled, insert, on]

end Insert

/-- To drop repetitions on the way is absorbed by dropping them at the end: in every
sequence of steps, and in every suite of checks that append. -/
theorem compaction_absorbed :
    (∀ (r : Report) (steps : List Report.Step),
      (steps.foldl Report.perform r).takeDistinct.1 =
        ((steps.filter Report.Step.isAdd).foldl Report.perform r).takeDistinct.1) ∧
    ∀ (suite : Suite) (front back : List Check), suite.checks = front ++ back →
      (∀ check ∈ suite.checks, check.AppendOnly) →
      ∀ compacting : Check, compacting.Compacts → compacting.name ∉ suite.names →
      ∀ settings : Settings, (∀ name ∈ settings.disabled, name ∈ suite.names) →
      ∀ (model : Metamodel) (file : SourceFile), ∃ wider ds,
        ({} : Suite).registerAll (front ++ compacting :: back) = (wider, none) ∧
        suite.validate (settings.withDeduplicate true) model file = .ok ds ∧
        wider.validate (settings.withDeduplicate true) model file = .ok ds := by
  constructor
  · intro r steps
    exact Report.Alike.foldl_perform rfl steps
  · intro suite front back split append compacting compacts fresh settings known model file
    have enabledSuite : suite.enabled settings =
        front.filter (settings.isEnabled ·.name) ++ back.filter (settings.isEnabled ·.name) := by
      rw [enabled, split, List.filter_append]
    have appendBack : ∀ check ∈ back.filter (settings.isEnabled ·.name), check.AppendOnly := by
      intro check hcheck
      apply append check
      rw [split]
      exact List.mem_append_right front (List.mem_filter.mp hcheck).1
    refine ⟨insert split fresh, _, registerAll_insert split fresh,
      validate_withDeduplicate_true known model file, ?_⟩
    rw [validate_withDeduplicate_true (known_insert split fresh known),
      enabled_insert split fresh known, enabledSuite]
    exact congrArg Except.ok (Context.alike_gather_insert appendBack compacts _ {})

/-- Two classes of one name at one place, and a check that compacts between the remarks
on them. -/
theorem compaction_absorbed_of_escalating :
    (∃ d e : Diagnostic, d.key = e.key ∧ d ≠ e ∧
      ([.add d, .add e, .compact, .add e].foldl Report.perform {}).size = 2 ∧
      ([.add d, .add e, .compact, .add e].foldl Report.perform {}).takeDistinct.1 =
        ([.add d, .add e, .add e].foldl Report.perform {}).takeDistinct.1) ∧
    ∃ wider ds,
      ({} : Suite).registerAll [.remark "lenient" .warning, .compactor, DuplicateAttribute.check,
        .remark "strict" .error] = (wider, none) ∧
      escalating.validate (({} : Settings).withDeduplicate true)
        { classes := [.faulty, .faulty] } {} = .ok ds ∧
      wider.validate (({} : Settings).withDeduplicate true)
        { classes := [.faulty, .faulty] } {} = .ok ds ∧
      ds.map (·.severity) = [.warning, .error] := by
  constructor
  · exact ⟨{ severity := .warning, message := "m" }, { severity := .error, message := "m" },
      rfl, by decide, by decide, compaction_absorbed.1 {} [.add _, .add _, .compact, .add _]⟩
  · rcases compaction_absorbed.2 escalating [_] [_, _] rfl appendOnly_escalating .compactor
      Check.compacts_compactor (by decide) {} escalating.known_empty
      { classes := [.faulty, .faulty] } {} with ⟨wider, ds, registered, run, run'⟩
    exact ⟨wider, ds, registered, run, run', apply_eq_of_validate run rfl⟩

end Suite

end MetamodelValidation
