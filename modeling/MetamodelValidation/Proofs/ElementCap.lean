import MetamodelValidation.Proofs.Disabling

/-! # The cap touches element mismatches only

A cap decides how the misfits of an array are reported: one by one, or by their
number. All that it adds or removes has one code, so every other diagnostic stays,
with repetitions dropped or not. A cap with room for all misfits changes nothing.
-/

namespace MetamodelValidation

/-- The number of misfits in the default array of an attribute that holds many
literals. -/
def Attribute.misfitCount (a : Attribute) : Nat :=
  if a.many && !a.type.isReference then
    ((a.defaultValue.bind Value.elements?).getD []).countP a.type.misfits
  else 0

/-- The cap, if there is one, has room for the misfits of each default array. -/
def Metamodel.FitsCap (model : Metamodel) (cap : Option Nat) : Prop :=
  ∀ n ∈ cap, ∀ a ∈ model.attributes, a.misfitCount ≤ n

instance (model : Metamodel) (cap : Option Nat) : Decidable (model.FitsCap cap) :=
  inferInstanceAs (Decidable (∀ n ∈ cap, ∀ a ∈ model.attributes, a.misfitCount ≤ n))

namespace DefaultValue

theorem code_of_mem_elementFindings {cap : Option Nat} {expected : String} {s : Span}
    {failing : List (Value × Nat)} {f : Finding}
    (h : f ∈ elementFindings cap expected s failing) : f.code = .elementMismatch := by
  rcases List.mem_append.mp h with h | h
  · obtain ⟨e, -, rfl⟩ := List.mem_map.mp h
    rfl
  · split at h
    · exact absurd h List.not_mem_nil
    · rw [List.mem_singleton.mp h]
      rfl

theorem elementFindings_of_length_le {cap : Option Nat} {failing : List (Value × Nat)}
    (h : ∀ n ∈ cap, failing.length ≤ n) (expected : String) (s : Span) :
    elementFindings cap expected s failing = elementFindings none expected s failing := by
  cases cap with
  | none => rfl
  | some n =>
    have hn : failing.length ≤ n := h n rfl
    simp [elementFindings, List.take_of_length_le hn, Nat.sub_eq_zero_of_le hn]

/-- The cap is read only where the elements of an array are reported. -/
theorem findings_cap_cases (a : Attribute) :
    (∀ cap cap', findings cap a = findings cap' a) ∨
      ∃ expected s failing, failing.length = a.misfitCount ∧
        ∀ cap, findings cap a = elementFindings cap expected s failing := by
  cases value : a.defaultValue with
  | none =>
    left
    intro cap cap'
    simp [findings, value]
  | some v =>
    have hfindings (cap : Option Nat) : findings cap a = valueFindings cap a v := by
      simp [findings, value]
    cases literals : a.type.isReference with
    | true =>
      left
      intro cap cap'
      rw [hfindings, hfindings, valueFindings_of_isReference v literals,
        valueFindings_of_isReference v literals]
    | false =>
      rcases DataType.isReference_eq_false_iff.mp literals with ⟨k, hk⟩
      simp only [hfindings, valueFindings_of_literalKind? v hk]
      cases many : a.many with
      | false =>
        left
        intro cap cap'
        rfl
      | true =>
        cases v with
        | scalar x s =>
          left
          intro cap cap'
          rfl
        | array elements s =>
          right
          refine ⟨k.label, s, a.type.failingElements elements, ?_, fun cap => rfl⟩
          rw [DataType.length_failingElements]
          simp [Attribute.misfitCount, many, literals, value, Value.elements?]

theorem filter_findings_cap (cap cap' : Option Nat) (a : Attribute) :
    (findings cap a).filter (·.code != .elementMismatch) =
      (findings cap' a).filter (·.code != .elementMismatch) := by
  rcases findings_cap_cases a with same | ⟨expected, s, failing, -, hfindings⟩
  · rw [same cap cap']
  · have none_left (cap : Option Nat) :
        (elementFindings cap expected s failing).filter (·.code != .elementMismatch) = [] := by
      rw [List.filter_eq_nil_iff]
      intro f hf
      simp [code_of_mem_elementFindings hf]
    rw [hfindings, hfindings, none_left, none_left]

theorem findings_of_misfitCount_le {cap : Option Nat} {a : Attribute}
    (h : ∀ n ∈ cap, a.misfitCount ≤ n) : findings cap a = findings none a := by
  rcases findings_cap_cases a with same | ⟨expected, s, failing, hlength, hfindings⟩
  · exact same cap none
  · rw [hfindings, hfindings, elementFindings_of_length_le]
    rwa [hlength]

end DefaultValue

namespace Metamodel

theorem filter_defaultFindings_cap (cap cap' : Option Nat) (model : Metamodel) :
    (model.defaultFindings cap).filter (·.code != .elementMismatch) =
      (model.defaultFindings cap').filter (·.code != .elementMismatch) := by
  simp only [defaultFindings, List.filter_flatMap, DefaultValue.filter_findings_cap cap cap']

theorem filter_findings_cap (settings : Settings) (cap cap' : Option Nat) (model : Metamodel) :
    (model.findings { settings with elementCap := cap }).filter (·.code != .elementMismatch) =
      (model.findings { settings with elementCap := cap' }).filter
        (·.code != .elementMismatch) := by
  have henabled (name : String) (cap : Option Nat) :
      ({ settings with elementCap := cap } : Settings).isEnabled name = settings.isEnabled name :=
    rfl
  simp only [findings, henabled, List.filter_append, apply_ite (List.filter _),
    filter_defaultFindings_cap cap cap']

theorem FitsCap.defaultFindings_eq {model : Metamodel} {cap : Option Nat}
    (h : model.FitsCap cap) : model.defaultFindings cap = model.defaultFindings none :=
  List.flatMap_congr fun a ha =>
    DefaultValue.findings_of_misfitCount_le fun n hn => h n hn a ha

theorem FitsCap.findings_eq {model : Metamodel} {cap : Option Nat} (h : model.FitsCap cap)
    (settings : Settings) :
    model.findings { settings with elementCap := cap } =
      model.findings { settings with elementCap := none } := by
  unfold findings
  rw [h.defaultFindings_eq]
  rfl

/-- Two caps give the same diagnostics but for element mismatches, and the same
diagnostics at all if they have room for the misfits of each array. -/
theorem elementCap_affects_elements_only (model : Metamodel) (file : SourceFile)
    {settings : Settings} (known : ∀ name ∈ settings.disabled, name ∈ Suite.builtin.names)
    (cap cap' : Option Nat) :
    ∃ ds ds', model.validateWith { settings with elementCap := cap } file = .ok ds ∧
      model.validateWith { settings with elementCap := cap' } file = .ok ds' ∧
      ds.filter (·.code != some "E0103") = ds'.filter (·.code != some "E0103") ∧
      (model.FitsCap cap → model.FitsCap cap' → ds = ds') := by
  refine ⟨_, _, validateWith_eq_ok { settings with elementCap := cap } known model file,
    validateWith_eq_ok { settings with elementCap := cap' } known model file, ?_, ?_⟩
  · have hcode (f : Finding) :
        (some f.code.text != some "E0103") = (f.code != .elementMismatch) := by
      cases f.code <;> decide
    rw [Settings.filter_code_shape _ (· != some "E0103"),
      Settings.filter_code_shape _ (· != some "E0103")]
    simp only [hcode, filter_findings_cap settings cap cap']
    rfl
  · intro hcap hcap'
    rw [hcap.findings_eq, hcap'.findings_eq]
    rfl

def threeMisfits : Metamodel where
  classes := [{
    name := "C"
    attributes := [
      { name := "sizes", type := .integer, many := true,
        defaultValue := some (.array
          [.scalar (.string "x") (.ofCoords 1 1 1 4), .scalar (.integer 7) (.ofCoords 1 6 1 7),
            .scalar (.boolean true) (.ofCoords 1 9 1 13),
            .array [.scalar (.integer 8) (.ofCoords 1 16 1 17)] (.ofCoords 1 15 1 18)]
          (.ofCoords 1 0 1 19)) },
      { name := "names", type := .string, many := true,
        defaultValue := some (.scalar (.string "y") (.ofCoords 2 0 2 3)) }] }]

theorem elementCap_affects_elements_only_of_threeMisfits :
    threeMisfits.FitsCap (some 3) ∧ ¬threeMisfits.FitsCap (some 1) ∧
      ∃ ds ds', ds.length = 4 ∧ ds'.length = 3 ∧
        threeMisfits.validateWith
          { ({} : Settings).disable "duplicate-attribute" with elementCap := none } {} = .ok ds ∧
        threeMisfits.validateWith
          { ({} : Settings).disable "duplicate-attribute" with elementCap := some 3 } {} = .ok ds ∧
        threeMisfits.validateWith
          { ({} : Settings).disable "duplicate-attribute" with elementCap := some 1 } {} =
            .ok ds' ∧
        ds.filter (·.code != some "E0103") = ds'.filter (·.code != some "E0103") := by
  have known : ∀ name ∈ (({} : Settings).disable "duplicate-attribute").disabled.names,
      name ∈ Suite.builtin.names := by decide
  have room : threeMisfits.FitsCap (some 3) := by decide
  rcases elementCap_affects_elements_only threeMisfits {} known none (some 3) with
    ⟨ds, ds₃, all, three, -, same⟩
  rcases elementCap_affects_elements_only threeMisfits {} known none (some 1) with
    ⟨ds₀, ds₁, all', one, others, -⟩
  obtain rfl : ds = ds₃ := same (by decide) room
  obtain rfl : ds = ds₀ := Except.ok.inj (all.symm.trans all')
  exact ⟨room, by decide, ds, ds₁, Suite.apply_eq_of_validate all rfl,
    Suite.apply_eq_of_validate one rfl, all, three, one, others⟩

end Metamodel

end MetamodelValidation
