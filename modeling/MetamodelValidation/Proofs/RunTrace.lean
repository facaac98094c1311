import MetamodelValidation.Proofs.Setup

/-! # The trace of a run

A run is announced and its end is announced, with the number of diagnostics that are
handed out. In between the checks take their turns in the order of registration: a
disabled check is noted, and the check of default values announces each default that it
is about to look at, whatever it will find.
-/

namespace MetamodelValidation

/-- Visits that each leave their own events leave them all in order. -/
theorem Visit.events_each {α : Type} {visit : α → Report → Visit} {told : α → List Event}
    {as : List α} (h : ∀ a ∈ as, ∀ r, (visit a r).events = told a) (r : Report) :
    (Visit.each visit as r).events = as.flatMap told := by
  induction as generalizing r with
  | nil => rfl
  | cons a as ih =>
    change (visit a r).events ++ (Visit.each visit as (visit a r).report).events = _
    rw [h a List.mem_cons_self, ih fun b hb => h b (List.mem_cons_of_mem a hb), List.flatMap_cons]

def Check.Silent (check : Check) : Prop :=
  ∀ ctx c r, (check.visit ctx c r).events = []

theorem Check.Silent.events_visitAll {check : Check} (h : check.Silent) (ctx : Context)
    (r : Report) : (check.visitAll ctx r).events = [] := by
  rw [visitAll, Visit.events_each fun c _ r => h ctx c r]
  simp

def Metamodel.defaultEvents (model : Metamodel) : List Event :=
  model.classes.flatMap fun c =>
    (c.attributes.filter (·.defaultValue.isSome)).map fun a =>
      .checkingDefault c.name a.name a.many

namespace DefaultValue

theorem flatMap_events (className : String) (as : List Attribute) :
    as.flatMap (events className) =
      (as.filter (·.defaultValue.isSome)).map fun a =>
        .checkingDefault className a.name a.many := by
  induction as with
  | nil => rfl
  | cons a as ih =>
    rw [List.flatMap_cons, ih]
    cases hvalue : a.defaultValue <;> simp [events, hvalue]

theorem events_visitAll (ctx : Context) (r : Report) :
    (check.visitAll ctx r).events = ctx.model.defaultEvents :=
  Visit.events_each (fun c _ _ => flatMap_events c.name c.attributes) r

end DefaultValue

namespace Settings

/-- An event for each of the checks that is disabled. -/
def notices (settings : Settings) (checks : List Check) : List Event :=
  (checks.filter (!settings.isEnabled ·.name)).map (.checkDisabled ·.name)

theorem notices_eq_flatMap (settings : Settings) (checks : List Check) :
    settings.notices checks = checks.flatMap fun check =>
      if settings.isEnabled check.name then [] else [.checkDisabled check.name] := by
  induction checks with
  | nil => rfl
  | cons check checks ih =>
    rw [List.flatMap_cons, ← ih]
    by_cases enabled : settings.isEnabled check.name = true <;> simp [notices, enabled]

theorem notices_append (settings : Settings) (front back : List Check) :
    settings.notices (front ++ back) = settings.notices front ++ settings.notices back := by
  simp [notices]

/-- Each disabled name belongs to exactly one check of the suite. -/
theorem length_notices {settings : Settings} {suite : Suite}
    (known : ∀ name ∈ settings.disabled, name ∈ suite.names) :
    (settings.notices suite.checks).length = settings.disabled.names.length := by
  have nodup : suite.names.Nodup := suite.nodup
  have perm : (suite.names.filter (!settings.isEnabled ·)).Perm settings.disabled.names := by
    rw [List.perm_ext_iff_of_nodup (nodup.filter _) settings.disabled.nodup_names]
    intro name
    have disabled_iff : (!settings.isEnabled name) = true ↔ name ∈ settings.disabled := by
      simp [isEnabled]
    rw [List.mem_filter, disabled_iff]
    exact ⟨fun h => h.2, fun h => ⟨known name h, h⟩⟩
  rw [← perm.length_eq, notices, List.length_map, Suite.names, List.filter_map, List.length_map]
  rfl

/-- What happens between the first and the last event of a run, for the checks before and
after the one of default values. -/
def turns (settings : Settings) (front back : List Check) (model : Metamodel) : List Event :=
  settings.notices front
    ++ (if settings.isEnabled "attribute-default-value" then model.defaultEvents
      else [.checkDisabled "attribute-default-value"])
    ++ settings.notices back

/-- Among the turns the disabled checks stand in the order of their registration. -/
theorem filter_turns (settings : Settings) (front back : List Check) (model : Metamodel) :
    (settings.turns front back model).filter (·.message == "check disabled") =
      settings.notices (front ++ DefaultValue.check :: back) := by
  have kept (checks : List Check) :
      (settings.notices checks).filter (·.message == "check disabled") =
        settings.notices checks := by
    rw [List.filter_eq_self]
    intro e he
    obtain ⟨check, -, rfl⟩ := List.mem_map.mp he
    rfl
  have dropped : model.defaultEvents.filter (·.message == "check disabled") = [] := by
    rw [List.filter_eq_nil_iff]
    intro e he
    obtain ⟨c, -, he⟩ := List.mem_flatMap.mp he
    obtain ⟨a, -, rfl⟩ := List.mem_map.mp he
    simp [Event.message]
  have turn : (if settings.isEnabled "attribute-default-value" then model.defaultEvents
      else [.checkDisabled "attribute-default-value"]).filter (·.message == "check disabled") =
        settings.notices [DefaultValue.check] := by
    rw [notices_eq_flatMap, List.flatMap_singleton, apply_ite (List.filter _), dropped]
    rfl
  rw [turns, List.filter_append, List.filter_append, kept, kept, turn, ← notices_append,
    ← notices_append, List.append_assoc, List.singleton_append]

end Settings

namespace Pass

theorem events_visitCheck {ctx : Context} {check : Check} {told : List Event}
    (h : ∀ r, (check.visitAll ctx r).events = told) (r : Report) :
    (visitCheck ctx check r).events =
      if ctx.settings.isEnabled check.name then told else [.checkDisabled check.name] := by
  unfold visitCheck
  split
  · exact h r
  · rfl

theorem events_each_visitCheck {checks : List Check} (silent : ∀ check ∈ checks, check.Silent)
    (ctx : Context) (r : Report) :
    (Visit.each (visitCheck ctx) checks r).events = ctx.settings.notices checks := by
  rw [Settings.notices_eq_flatMap]
  apply Visit.events_each
  intro check hcheck r
  exact events_visitCheck (fun r => (silent check hcheck).events_visitAll ctx r) r

section Split

variable {p : Pass} {front back : List Check}
  (split : p.suite.checks = front ++ DefaultValue.check :: back)
  (silent : ∀ check ∈ front ++ back, check.Silent)

include split silent

theorem events_visit (ctx : Context) :
    (p.visit ctx).events = ctx.settings.turns front back ctx.model := by
  have silentFront : ∀ check ∈ front, check.Silent := fun check hcheck =>
    silent check (List.mem_append_left back hcheck)
  have silentBack : ∀ check ∈ back, check.Silent := fun check hcheck =>
    silent check (List.mem_append_right front hcheck)
  rw [visit, split, Visit.each_append, Visit.each]
  simp only [events_each_visitCheck silentFront, events_each_visitCheck silentBack,
    events_visitCheck (DefaultValue.events_visitAll ctx), Settings.turns, List.append_assoc]
  rfl

theorem events_run (model : Metamodel) (file : SourceFile) :
    (p.run model file).events =
      .started model.name model.classes.length :: p.settings.turns front back model
        ++ [.finished model.name (p.run model file).diagnostics.length] := by
  change _ :: (p.visit (p.context model file)).events ++ _ = _
  rw [events_visit split silent]
  rfl

end Split

end Pass

namespace Suite

/-- A check stands at one place of a suite, and the others are different from it. -/
theorem exists_split {suite : Suite} {check : Check} (h : check ∈ suite.checks) :
    ∃ front back, suite.checks = front ++ check :: back ∧
      ∀ other ∈ front ++ back, other ∈ suite.checks ∧ other ≠ check := by
  obtain ⟨front, back, split⟩ := List.append_of_mem h
  have perm : suite.checks.Perm (check :: (front ++ back)) := by
    rw [split]
    exact List.perm_middle
  have nodup := (perm.map Check.name).nodup_iff.mp suite.nodup
  rw [List.map_cons, List.nodup_cons] at nodup
  refine ⟨front, back, split, fun other hother => ⟨?_, ?_⟩⟩
  · exact perm.mem_iff.mpr (List.mem_cons_of_mem check hother)
  · rintro rfl
    exact nodup.1 (List.mem_map_of_mem hother)

/-- Of the settings only the disabled names show in the trace of a run, except for the
number in its last event. -/
theorem trace_of_run {suite : Suite} {settings : Settings} {p : Pass}
    (prepared : Pass.prepare suite settings = .ok p)
    (registered : DefaultValue.check ∈ suite.checks)
    (silent : ∀ check ∈ suite.checks, check ≠ DefaultValue.check → check.Silent)
    (model : Metamodel) (file : SourceFile) :
    ∃ front back, suite.checks = front ++ DefaultValue.check :: back ∧
      (p.run model file).events =
        .started model.name model.classes.length :: settings.turns front back model
          ++ [.finished model.name (p.run model file).diagnostics.length] ∧
      (settings.turns front back model).filter (·.message == "check disabled") =
        settings.notices suite.checks ∧
      (settings.notices suite.checks).length = settings.disabled.names.length ∧
      (∀ (deduplicate : Bool) (elementCap : Option Nat),
        ∃ q, Pass.prepare suite { settings with deduplicate, elementCap } = .ok q ∧
          (q.run model file).events =
            .started model.name model.classes.length :: settings.turns front back model
              ++ [.finished model.name (q.run model file).diagnostics.length]) ∧
      ∀ e : Event, (e.level, e.message) = match e with
        | .started _ _ => (.debug, "validating metamodel")
        | .checkDisabled _ => (.trace, "check disabled")
        | .checkingDefault _ _ _ => (.trace, "checking default value")
        | .finished _ _ => (.debug, "validation finished") := by
  obtain ⟨rfl, rfl⟩ := Pass.eq_of_prepare_eq_ok prepared
  rcases exists_split registered with ⟨front, back, split, others⟩
  have silent' : ∀ check ∈ front ++ back, check.Silent := fun check hcheck =>
    silent check (others check hcheck).1 (others check hcheck).2
  refine ⟨front, back, split, Pass.events_run split silent' model file, ?_,
    Settings.length_notices p.known, fun deduplicate elementCap => ?_, fun e => ?_⟩
  · rw [Settings.filter_turns, split]
  · let q : Pass := ⟨p.suite, { p.settings with deduplicate, elementCap }, p.known⟩
    exact ⟨q, Pass.prepare_eq_ok q.known, Pass.events_run (p := q) split silent' model file⟩
  · cases e <;> rfl

end Suite

def Pass.muted : Pass where
  suite := {
    checks := [.remark "lenient" .warning, DefaultValue.check, DuplicateAttribute.check]
    nodup := by decide }
  settings := ({} : Settings).disable "lenient"
  known := by
    change ∀ name ∈ (({} : Settings).disable "lenient").disabled.names, name ∈ _
    decide

theorem Pass.silent_muted :
    ∀ check ∈ muted.suite.checks, check ≠ DefaultValue.check → check.Silent := by
  simp only [muted, List.forall_mem_cons]
  exact ⟨fun _ _ _ _ => rfl, fun other => absurd rfl other, fun _ _ _ _ => rfl, by simp⟩

def Metamodel.announced : Metamodel where
  name := "M"
  classes := [
    { name := "C"
      attributes := [
        { name := "owner", type := .reference "D",
          defaultValue := some (.scalar (.boolean true) {}) },
        { name := "size", type := .integer },
        { name := "sizes", type := .integer, many := true, defaultValue := some (.array [] {}) }] },
    { name := "D"
      attributes := [
        { name := "text", type := .string, defaultValue := some (.scalar (.integer 1) {}) }] }]

/-- The disabled check is noted first, and the two defaults that are refused are announced
like the one that is accepted. -/
theorem Suite.trace_of_run_of_muted :
    Pass.prepare Pass.muted.suite Pass.muted.settings = .ok .muted ∧
    (∃ front back, Pass.muted.suite.checks = front ++ DefaultValue.check :: back ∧
      (Pass.muted.run .announced {}).events =
        .started "M" 2 :: Pass.muted.settings.turns front back .announced
          ++ [.finished "M" (Pass.muted.run .announced {}).diagnostics.length]) ∧
    (Pass.muted.run .announced {}).events = [.started "M" 2, .checkDisabled "lenient",
      .checkingDefault "C" "owner" false, .checkingDefault "C" "sizes" true,
      .checkingDefault "D" "text" false, .finished "M" 2] := by
  have prepared := Pass.prepare_eq_ok Pass.muted.known
  rcases trace_of_run prepared (.tail _ (.head _)) Pass.silent_muted .announced {} with
    ⟨front, back, split, events, -⟩
  exact ⟨prepared, ⟨front, back, split, events⟩, by decide +kernel⟩

end MetamodelValidation
