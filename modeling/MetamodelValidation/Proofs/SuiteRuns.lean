import MetamodelValidation.Proofs.Raised

/-! # Runs of any suite

What a run hands out is gathered by the enabled checks alone, in the order of their
registration. A check may do with the shared report what it likes, so two runs are
compared visit by visit, through a relation between their reports.
-/

namespace MetamodelValidation

namespace Visit

section Each

variable {α : Type} {as : List α}

/-- Related reports stay related through visits that each keep them related. -/
theorem report_each_rel {R : Report → Report → Prop} {visit visit' : α → Report → Visit}
    (h : ∀ a ∈ as, ∀ r r', R r r' → R (visit a r).report (visit' a r').report)
    {r r' : Report} (start : R r r') :
    R (Visit.each visit as r).report (Visit.each visit' as r').report := by
  induction as generalizing r r' with
  | nil => exact start
  | cons a as ih =>
    apply ih fun b hb => h b (List.mem_cons_of_mem a hb)
    exact h a List.mem_cons_self r r' start

theorem report_each_congr {visit visit' : α → Report → Visit}
    (h : ∀ a ∈ as, ∀ r, (visit a r).report = (visit' a r).report) (r : Report) :
    (Visit.each visit as r).report = (Visit.each visit' as r).report := by
  apply report_each_rel (R := Eq)
  · rintro a ha r _ rfl
    exact h a ha r
  · rfl

/-- What every visit keeps true of the report is kept by all of them. -/
theorem report_each_keeps {P : Report → Prop} {visit : α → Report → Visit}
    (h : ∀ a ∈ as, ∀ r, P r → P (visit a r).report) {r : Report} (start : P r) :
    P (Visit.each visit as r).report :=
  @report_each_rel α as (fun r _ => P r) visit visit (fun a ha r _ hr => h a ha r hr) r r start

/-- Visits that leave every report as it is may be left out. -/
theorem report_each_filter {visit : α → Report → Visit} {keep : α → Bool}
    (h : ∀ a ∈ as, ¬keep a = true → ∀ r, (visit a r).report = r) (r : Report) :
    (Visit.each visit (as.filter keep) r).report = (Visit.each visit as r).report := by
  induction as generalizing r with
  | nil => rfl
  | cons a as ih =>
    have htail := ih fun b hb => h b (List.mem_cons_of_mem a hb)
    change _ = (Visit.each visit as (visit a r).report).report
    by_cases ha : keep a = true
    · rw [List.filter_cons_of_pos ha]
      exact htail (visit a r).report
    · rw [List.filter_cons_of_neg ha, htail, h a List.mem_cons_self ha]

end Each

end Visit

namespace Check

/-- Of the settings, the check sees what `view` shows of them and nothing else. -/
def ReadsOnly {α : Type} (check : Check) (view : Settings → α) : Prop :=
  ∀ (ctx : Context) (settings : Settings), view settings = view ctx.settings → ∀ c r,
    (check.visit { ctx with settings } c r).report = (check.visit ctx c r).report

theorem ReadsOnly.report_visitAll {α : Type} {check : Check} {view : Settings → α}
    (h : check.ReadsOnly view) (ctx : Context) (settings : Settings)
    (same : view settings = view ctx.settings) (r : Report) :
    (check.visitAll { ctx with settings } r).report = (check.visitAll ctx r).report :=
  Visit.report_each_congr (fun c _ r => h ctx settings same c r) r

end Check

theorem DefaultValue.readsOnly_check {α : Type} {view : Settings → α}
    (h : ∀ s t, view s = view t → s.elementCap = t.elementCap) : check.ReadsOnly view := by
  intro ctx settings same c r
  simp [check, h settings ctx.settings same]

theorem DuplicateAttribute.readsOnly_check {α : Type} (view : Settings → α) :
    check.ReadsOnly view := fun _ _ _ _ _ => rfl

namespace Context

/-- The report after the checks have visited the whole metamodel, one after the other. -/
def gather (ctx : Context) (checks : List Check) (r : Report) : Report :=
  (Visit.each (fun check => check.visitAll ctx) checks r).report

theorem gather_cons (ctx : Context) (check : Check) (checks : List Check) (r : Report) :
    ctx.gather (check :: checks) r = ctx.gather checks (check.visitAll ctx r).report := rfl

theorem gather_append (ctx : Context) (front back : List Check) (r : Report) :
    ctx.gather (front ++ back) r = ctx.gather back (ctx.gather front r) := by
  rw [gather, Visit.each_append]
  rfl

theorem gather_eq_addAll {checks : List Check} (h : ∀ check ∈ checks, check.AppendOnly)
    (ctx : Context) (r : Report) :
    ctx.gather checks r =
      r.addAll (checks.flatMap fun check => ctx.model.classes.flatMap (check.raised ctx)) :=
  Visit.report_each (fun check hcheck r => (h check hcheck).report_visitAll ctx r) r

/-- Settings that look the same to all checks make no difference to what is gathered. -/
theorem gather_eq_of_readsOnly {α : Type} {view : Settings → α} {checks : List Check}
    (h : ∀ check ∈ checks, check.ReadsOnly view) (ctx : Context) (settings : Settings)
    (same : view settings = view ctx.settings) (r : Report) :
    { ctx with settings }.gather checks r = ctx.gather checks r :=
  Visit.report_each_congr
    (fun check hcheck r => (h check hcheck).report_visitAll ctx settings same r) r

end Context

namespace Suite

def enabled (suite : Suite) (settings : Settings) : List Check :=
  suite.checks.filter (settings.isEnabled ·.name)

theorem mem_checks_of_mem_enabled {suite : Suite} {settings : Settings} {check : Check}
    (h : check ∈ suite.enabled settings) : check ∈ suite.checks :=
  (List.mem_filter.mp h).1

theorem gather_enabled_eq_of_readsOnly {α : Type} {view : Settings → α} {suite : Suite}
    (reads : ∀ check ∈ suite.checks, check.ReadsOnly view) (settings : Settings) (file : SourceFile)
    (model : Metamodel) {s t : Settings} (same : view s = view t) (r : Report) :
    Context.gather { file, model, settings := s } (suite.enabled settings) r =
      Context.gather { file, model, settings := t } (suite.enabled settings) r :=
  Context.gather_eq_of_readsOnly
    (fun check hcheck => reads check (mem_checks_of_mem_enabled hcheck))
    { file, model, settings := t } s same r

end Suite

theorem Pass.report_visit (p : Pass) (ctx : Context) :
    (p.visit ctx).report = ctx.gather (p.suite.enabled ctx.settings) {} := by
  have off : ∀ check ∈ p.suite.checks, ¬ctx.settings.isEnabled check.name = true →
      ∀ r, (visitCheck ctx check r).report = r := by
    intro check _ disabled r
    rw [visitCheck, if_neg disabled]
  rw [visit, ← Visit.report_each_filter off]
  apply Visit.report_each_congr
  intro check hcheck r
  rw [visitCheck, if_pos (List.mem_filter.mp hcheck).2]

namespace Suite

theorem known_empty (suite : Suite) : ∀ name ∈ (∅ : NameSet), name ∈ suite.names :=
  fun name h => absurd h (NameSet.not_mem_empty name)

/-- Accepted settings give what the enabled checks gather, with or without its
repetitions. -/
theorem validate_eq_ok {suite : Suite} (settings : Settings)
    (known : ∀ name ∈ settings.disabled, name ∈ suite.names) (model : Metamodel)
    (file : SourceFile) :
    suite.validate settings model file =
      .ok (settings.shape
        (Context.gather { file, model, settings } (suite.enabled settings) {}).entries) := by
  let p : Pass := ⟨suite, settings, known⟩
  calc suite.validate settings model file
      = .ok (p.run model file).diagnostics := p.validate_suite model file
    _ = .ok (settings.shape (p.visit (p.context model file)).report.entries) := by
        rw [Pass.diagnostics_run]
    _ = .ok (settings.shape
          (Context.gather { file, model, settings } (suite.enabled settings) {}).entries) := by
        rw [Pass.report_visit]
        rfl

section Deduplicate

variable {suite : Suite} {settings : Settings}
  (known : ∀ name ∈ settings.disabled, name ∈ suite.names) (model : Metamodel) (file : SourceFile)

include known

theorem validate_withDeduplicate_false :
    suite.validate (settings.withDeduplicate false) model file =
      .ok (Context.gather { file, model, settings := settings.withDeduplicate false }
        (suite.enabled settings) {}).entries :=
  validate_eq_ok (settings.withDeduplicate false) known model file

theorem validate_withDeduplicate_true :
    suite.validate (settings.withDeduplicate true) model file =
      .ok (Diagnostic.distinct
        (Context.gather { file, model, settings := settings.withDeduplicate true }
          (suite.enabled settings) {}).entries) :=
  validate_eq_ok (settings.withDeduplicate true) known model file

/-- If no check looks whether repetitions are dropped, they are dropped from what is
handed out without that. -/
theorem exists_validate_withDeduplicate
    (reads : ∀ check ∈ suite.checks, check.ReadsOnly fun s => (s.disabled, s.elementCap)) :
    ∃ all, suite.validate (settings.withDeduplicate false) model file = .ok all ∧
      suite.validate (settings.withDeduplicate true) model file =
        .ok (Diagnostic.distinct all) := by
  refine ⟨_, validate_withDeduplicate_false known model file, ?_⟩
  rw [validate_withDeduplicate_true known,
    gather_enabled_eq_of_readsOnly reads settings file model
      (s := settings.withDeduplicate true) (t := settings.withDeduplicate false) rfl]

end Deduplicate

/-- Checks with names that are different and not taken are all registered. -/
theorem registerAll_eq (s : Suite) {checks : List Check}
    (h : ((s.checks ++ checks).map Check.name).Nodup) :
    s.registerAll checks = (⟨s.checks ++ checks, h⟩, none) := by
  induction checks generalizing s with
  | nil => simp [registerAll]
  | cons check checks ih =>
    have free : check.name ∉ s.names := by
      intro taken
      rw [List.map_append, List.map_cons] at h
      exact (List.nodup_append.mp h).2.2 _ taken _ List.mem_cons_self rfl
    have others : ((s.checks ++ [check] ++ checks).map Check.name).Nodup := by
      rwa [List.append_assoc]
    rw [registerAll, register_eq_ok free]
    change registerAll ⟨s.checks ++ [check], nodup_append_singleton free⟩ checks = _
    rw [ih _ others]
    simp

end Suite

namespace Check

def remark (name : String) (severity : Severity) : Check where
  name := name
  visit ctx c r :=
    { report := r.add { file := ctx.file, span := c.span, severity, message := c.name } }

theorem appendOnly_remark (name : String) (severity : Severity) :
    (remark name severity).AppendOnly := fun _ _ _ => rfl

theorem readsOnly_remark {α : Type} (view : Settings → α) (name : String) (severity : Severity) :
    (remark name severity).ReadsOnly view := fun _ _ _ _ _ => rfl

end Check

namespace Suite

def escalating : Suite where
  checks := [.remark "lenient" .warning, DuplicateAttribute.check, .remark "strict" .error]
  nodup := by decide

theorem appendOnly_escalating : ∀ check ∈ escalating.checks, check.AppendOnly := by
  simp [escalating, Check.appendOnly_remark, DuplicateAttribute.appendOnly_check]

theorem readsOnly_escalating {α : Type} (view : Settings → α) :
    ∀ check ∈ escalating.checks, check.ReadsOnly view := by
  simp [escalating, Check.readsOnly_remark, DuplicateAttribute.readsOnly_check]

end Suite

def Class.faulty : Class where
  name := "C"
  attributes := [
    { name := "a", type := .string, span := .ofCoords 1 0 1 9,
      defaultValue := some (.scalar (.integer 1) (.ofCoords 1 8 1 9)) },
    { name := "a", type := .string, span := .ofCoords 2 0 2 9 }]

def Metamodel.bare : Metamodel where
  classes := [{ name := "C" }, { name := "D" }]

end MetamodelValidation
