import MetamodelValidation.Proofs.FaultCoverage

/-! # Disabling a check filters the output

The codes of the two built-in checks differ, and diagnostics with one key have
one code. So no diagnostic of one check hides a diagnostic of the other, and to
leave a check out is to leave out its codes.
-/

namespace MetamodelValidation

def FindingCode.checkName : FindingCode → String
  | duplicateAttribute => DuplicateAttribute.check.name
  | _ => DefaultValue.check.name

theorem DefaultFault.code_ne {cap : Option Nat} {a : Attribute} {v : Value} {s : Span}
    {code : String} (h : DefaultFault cap a v s code) : code ≠ "E0106" := by
  cases h <;> decide

namespace DefaultValue

theorem exists_fault_of_mem_findings {cap : Option Nat} {a : Attribute} {f : Finding}
    (h : f ∈ findings cap a) :
    ∃ v, a.defaultValue = some v ∧ DefaultFault cap a v f.span f.code.text := by
  obtain ⟨v, hv, hf⟩ := List.mem_flatMap.mp h
  exact ⟨v, Option.mem_toList.mp hv, reported_valueFindings.mp ⟨f, hf, rfl, rfl⟩⟩

theorem code_ne_duplicateAttribute {cap : Option Nat} {a : Attribute} {f : Finding}
    (h : f ∈ findings cap a) : f.code ≠ .duplicateAttribute := by
  rcases exists_fault_of_mem_findings h with ⟨v, -, hfault⟩
  exact fun hcode => hfault.code_ne (congrArg FindingCode.text hcode)

end DefaultValue

theorem DuplicateAttribute.code_eq_duplicateAttribute {c : Class} {f : Finding}
    (h : f ∈ findings c) : f.code = .duplicateAttribute := by
  rcases exists_first_of_mem_findings h with ⟨a, b, -, rfl⟩
  rfl

/-- A filter by code may be applied before repetitions are dropped. -/
theorem Settings.filter_code_shape (s : Settings) (keep : Option String → Bool)
    (file : SourceFile) (fs : List Finding) :
    (s.shape (fs.map (·.toDiagnostic file))).filter (fun d => keep d.code) =
      s.shape ((fs.filter fun f => keep (some f.code.text)).map (·.toDiagnostic file)) := by
  have hfilter : (fs.filter fun f => keep (some f.code.text)).map (·.toDiagnostic file) =
      (fs.map (·.toDiagnostic file)).filter (fun d => keep d.code) := by
    rw [List.filter_map]
    rfl
  rw [hfilter]
  unfold shape
  split
  · apply Diagnostic.filter_distinct
    intro d hd e he hkey
    obtain ⟨f, -, rfl⟩ := List.mem_map.mp hd
    obtain ⟨g, -, rfl⟩ := List.mem_map.mp he
    exact congrArg (fun code : FindingCode => keep (some code.text))
      (Finding.code_eq_of_key_eq hkey)
  · rfl

theorem Settings.isEnabled_disable (s : Settings) (name other : String) :
    (s.disable name).isEnabled other = (other != name && s.isEnabled other) := by
  rw [Bool.eq_iff_iff, Bool.and_eq_true, isEnabled_iff, isEnabled_iff, bne_iff_ne, ← not_or]
  exact not_congr NameSet.mem_insert

theorem Finding.filter_isEnabled {settings : Settings} {name : String} {fs : List Finding}
    (h : ∀ f ∈ fs, f.code.checkName = name) :
    fs.filter (fun f => settings.isEnabled f.code.checkName) =
      if settings.isEnabled name then fs else [] := by
  by_cases enabled : settings.isEnabled name = true
  · rw [if_pos enabled]
    exact List.filter_eq_self.mpr fun f hf => by rw [h f hf, enabled]
  · rw [if_neg enabled]
    exact List.filter_eq_nil_iff.mpr fun f hf => by rwa [h f hf]

namespace Metamodel

theorem checkName_of_mem_defaultFindings {cap : Option Nat} {model : Metamodel} {f : Finding}
    (h : f ∈ model.defaultFindings cap) : f.code.checkName = DefaultValue.check.name := by
  obtain ⟨a, -, hf⟩ := List.mem_flatMap.mp h
  cases hcode : f.code with
  | duplicateAttribute => exact absurd hcode (DefaultValue.code_ne_duplicateAttribute hf)
  | _ => rfl

theorem checkName_of_mem_duplicateFindings {model : Metamodel} {f : Finding}
    (h : f ∈ model.duplicateFindings) : f.code.checkName = DuplicateAttribute.check.name := by
  obtain ⟨c, -, hf⟩ := List.mem_flatMap.mp h
  rw [DuplicateAttribute.code_eq_duplicateAttribute hf]
  rfl

/-- The two checks have no code in common, whichever metamodels they are run on. -/
theorem code_ne_of_mem_findings {cap : Option Nat} {model model' : Metamodel} {f g : Finding}
    (hf : f ∈ model.defaultFindings cap) (hg : g ∈ model'.duplicateFindings) :
    f.code ≠ g.code := by
  intro hcode
  have hname : DefaultValue.check.name = DuplicateAttribute.check.name := by
    rw [← checkName_of_mem_defaultFindings hf, ← checkName_of_mem_duplicateFindings hg, hcode]
  exact absurd hname (by decide)

/-- The settings select findings by the check that makes them. -/
theorem findings_eq_filter (settings : Settings) (model : Metamodel) :
    model.findings settings =
      (model.defaultFindings settings.elementCap ++ model.duplicateFindings).filter
        fun f => settings.isEnabled f.code.checkName := by
  rw [List.filter_append, Finding.filter_isEnabled fun f => checkName_of_mem_defaultFindings,
    Finding.filter_isEnabled fun f => checkName_of_mem_duplicateFindings, findings]

theorem findings_sublist (settings : Settings) (model : Metamodel) :
    (model.findings settings).Sublist
      (model.defaultFindings settings.elementCap ++ model.duplicateFindings) := by
  rw [findings_eq_filter]
  exact List.filter_sublist

theorem findings_disable (settings : Settings) (name : String) (model : Metamodel) :
    model.findings (settings.disable name) =
      (model.findings settings).filter fun f => f.code.checkName != name := by
  rw [findings_eq_filter, findings_eq_filter, List.filter_filter]
  apply List.filter_congr
  intro f _
  exact settings.isEnabled_disable name f.code.checkName

/-- A filter by the check that was disabled is a filter by code. -/
theorem validateWith_disable (settings : Settings) (h : settings.disabled = ∅) (check : Check)
    (hcheck : check ∈ Suite.builtinChecks) (keep : Option String → Bool)
    (hkeep : ∀ c : FindingCode, (c.checkName != check.name) = keep (some c.text))
    (model : Metamodel) (file : SourceFile) :
    model.validateWith (settings.disable check.name) file =
      .ok ((settings.shape ((model.findings settings).map (·.toDiagnostic file))).filter
        fun d => keep d.code) := by
  have known : ∀ name ∈ (settings.disable check.name).disabled, name ∈ Suite.builtin.names := by
    intro name hname
    rcases NameSet.mem_insert.mp hname with rfl | hname
    · exact List.mem_map_of_mem hcheck
    · rw [h] at hname
      exact absurd hname (NameSet.not_mem_empty name)
  rw [validateWith_eq_ok _ known, findings_disable, settings.filter_code_shape]
  simp only [hkeep]
  rfl

/-- To disable a built-in check is to drop the diagnostics with its codes, and
nothing else, with repetitions dropped or not. -/
theorem disabling_filters (model : Metamodel) (file : SourceFile) (deduplicate : Bool)
    (elementCap : Option Nat) :
    ∃ ds, model.validateWith { deduplicate, elementCap } file = .ok ds ∧
      model.validateWith
          (({ deduplicate, elementCap } : Settings).disable "duplicate-attribute") file =
        .ok (ds.filter (·.code != some "E0106")) ∧
      model.validateWith
          (({ deduplicate, elementCap } : Settings).disable "attribute-default-value") file =
        .ok (ds.filter (·.code == some "E0106")) := by
  let settings : Settings := { deduplicate, elementCap }
  refine ⟨_, validateWith_eq_ok settings (fun name h => absurd h (NameSet.not_mem_empty name))
    model file, ?_, ?_⟩
  · exact validateWith_disable settings rfl DuplicateAttribute.check
      (List.mem_cons_of_mem _ List.mem_cons_self) (· != some "E0106")
      (fun c => by cases c <;> decide) model file
  · exact validateWith_disable settings rfl DefaultValue.check List.mem_cons_self
      (· == some "E0106") (fun c => by cases c <;> decide) model file

end Metamodel

end MetamodelValidation
