import Mathlib.Data.List.Flatten
import MetamodelValidation.Proofs.Disabling

/-! # Deduplication loses nothing

Diagnostics that share a key say the same, but for the earlier declaration that
repeated declarations of different classes refer to. If the declarations stand
at places of their own, no two diagnostics share a key at all.
-/

namespace MetamodelValidation

namespace Finding

def Apart (f g : Finding) : Prop := f.span = g.span → f.message ≠ g.message

theorem apart_of_code_ne {f g : Finding} (h : f.code ≠ g.code) : Apart f g :=
  fun _ hmessage => h (code_eq_of_message_eq hmessage)

theorem nodup_keys_of_pairwise_apart (file : SourceFile) {fs : List Finding}
    (h : fs.Pairwise Apart) : ((fs.map (·.toDiagnostic file)).map Diagnostic.key).Nodup := by
  rw [List.map_map]
  apply List.pairwise_map.mpr
  apply h.imp
  intro f g hapart hkey
  rcases span_message_eq_of_key_eq hkey with ⟨hspan, hmessage⟩
  exact hapart hspan hmessage

theorem related_eq_nil {f : Finding} (h : f.code ≠ .duplicateAttribute) (file : SourceFile) :
    f.related file = [] := by
  cases f with
  | duplicateAttribute => exact absurd rfl h
  | _ => rfl

end Finding

/-- The places of the default value and of the elements of an array. -/
def Attribute.defaultSpans (a : Attribute) : List Span :=
  a.defaultValue.toList.flatMap fun v => v.span :: (v.elements?.getD []).map Value.span

/-- Each attribute has a place of its own, and so has its default value with its
elements. Elements of one array may share a place. -/
structure Metamodel.WellLocated (model : Metamodel) : Prop where
  attributes : (model.attributes.map Attribute.span).Nodup
  defaults : model.attributes.Pairwise fun a b => ∀ s ∈ a.defaultSpans, s ∉ b.defaultSpans

theorem DefaultFault.span_mem {cap : Option Nat} {a : Attribute} {v : Value} {s : Span}
    {code : String} (h : DefaultFault cap a v s code) :
    s ∈ v.span :: (v.elements?.getD []).map Value.span := by
  cases h with
  | element => exact List.mem_cons_of_mem _ (List.mem_map_of_mem List.mem_append_cons_self)
  | _ => exact List.mem_cons_self

namespace DefaultValue

theorem span_mem_defaultSpans {cap : Option Nat} {a : Attribute} {f : Finding}
    (h : f ∈ findings cap a) : f.span ∈ a.defaultSpans := by
  rcases exists_fault_of_mem_findings h with ⟨v, hv, hfault⟩
  exact List.mem_flatMap.mpr ⟨v, Option.mem_toList.mpr hv, hfault.span_mem⟩

/-- Positions tell elements apart, and the number of omitted ones from elements. -/
theorem pairwise_apart_elementFindings (cap : Option Nat) (t : DataType) (expected : String)
    (place : Span) (elements : List Value) :
    (elementFindings cap expected place (t.failingElements elements)).Pairwise Finding.Apart := by
  apply List.pairwise_append.mpr
  refine ⟨?_, ?_, ?_⟩
  · apply List.pairwise_map.mpr
    apply ((t.pairwise_failingElements elements).sublist (List.take_sublist _ _)).imp
    intro x y hlt _ hmessage
    exact absurd (Finding.position_eq_of_message_eq hmessage) (Nat.ne_of_lt hlt)
  · split
    · exact List.Pairwise.nil
    · exact List.pairwise_singleton _ _
  · intro f hf g hg _
    obtain ⟨x, -, rfl⟩ := List.mem_map.mp hf
    split at hg
    · exact absurd hg List.not_mem_nil
    · rw [List.mem_singleton.mp hg]
      exact Finding.message_elementMismatch_ne_elementsOmitted _ _ _ _ _ _ _

theorem pairwise_apart_valueFindings (cap : Option Nat) (a : Attribute) (v : Value) :
    (valueFindings cap a v).Pairwise Finding.Apart := by
  unfold valueFindings
  split
  · exact List.pairwise_singleton _ _
  · split
    · unfold manyFindings
      split
      · exact List.pairwise_singleton _ _
      · exact pairwise_apart_elementFindings ..
    · unfold singleFindings
      split
      · exact List.pairwise_singleton _ _
      · split
        · exact List.Pairwise.nil
        · exact List.pairwise_singleton _ _

theorem pairwise_apart_findings (cap : Option Nat) (a : Attribute) :
    (findings cap a).Pairwise Finding.Apart := by
  unfold findings
  cases a.defaultValue with
  | none => exact List.Pairwise.nil
  | some v => simpa using pairwise_apart_valueFindings cap a v

end DefaultValue

namespace DuplicateAttribute

theorem mem_findings_of_code_eq {cap : Option Nat} {c : Class} {f : Finding}
    (h : f ∈ c.attributes.flatMap (DefaultValue.findings cap) ∨ f ∈ findings c)
    (hcode : f.code = .duplicateAttribute) : f ∈ findings c := by
  rcases h with h | h
  · obtain ⟨a, -, hf⟩ := List.mem_flatMap.mp h
    exact absurd hcode (DefaultValue.code_ne_duplicateAttribute hf)
  · exact h

/-- Within one class the message tells the name, and the name its first declaration. -/
theorem related_eq_of_message_eq {c : Class} {f g : Finding} (hf : f ∈ findings c)
    (hg : g ∈ findings c) (h : f.message = g.message) (file : SourceFile) :
    f.related file = g.related file := by
  rcases exists_first_of_mem_findings hf with ⟨a, b, hb, rfl⟩
  rcases exists_first_of_mem_findings hg with ⟨a', b', hb', rfl⟩
  have hname : a.name = a'.name := Finding.attrName_eq_of_message_eq h
  have hfirst : b = b' := by
    rw [hname, hb'] at hb
    exact (Option.some.inj hb).symm
  rw [Finding.related, Finding.related, hname, hfirst]

end DuplicateAttribute

namespace Metamodel

theorem map_span_duplicateFindings_sublist (model : Metamodel) :
    (model.duplicateFindings.map Finding.span).Sublist (model.attributes.map Attribute.span) := by
  rw [duplicateFindings, attributes, List.map_flatMap, List.map_flatMap]
  exact List.Sublist.flatMap_right _ fun c _ => DuplicateAttribute.map_span_findings_sublist c

theorem WellLocated.pairwise_apart_findings {model : Metamodel} (h : model.WellLocated)
    (settings : Settings) : (model.findings settings).Pairwise Finding.Apart := by
  apply List.Pairwise.sublist (findings_sublist settings model)
  apply List.pairwise_append.mpr
  refine ⟨?_, ?_, ?_⟩
  · apply List.pairwise_flatMap.mpr
    refine ⟨fun a _ => DefaultValue.pairwise_apart_findings _ a, ?_⟩
    apply h.defaults.imp
    intro a b hspans f hf g hg hspan _
    have hshared : f.span ∈ b.defaultSpans := hspan ▸ DefaultValue.span_mem_defaultSpans hg
    exact hspans f.span (DefaultValue.span_mem_defaultSpans hf) hshared
  · have hspans : (model.duplicateFindings.map Finding.span).Nodup :=
      h.attributes.sublist model.map_span_duplicateFindings_sublist
    apply (List.pairwise_map.mp hspans).imp
    intro f g hne hspan
    exact absurd hspan hne
  · intro f hf g hg
    exact Finding.apart_of_code_ne (code_ne_of_mem_findings hf hg)

end Metamodel

/-- What shares a key agrees in all but the related places, and these differ only
between repeated declarations of different classes. -/
theorem Suite.eq_of_key_eq {ctx : Context} {c c' : Class} {d d' : Diagnostic}
    (hd : d ∈ builtin.raised ctx c) (hd' : d' ∈ builtin.raised ctx c') (hkey : d.key = d'.key) :
    { d with related := d'.related } = d' ∧
      (d.related ≠ d'.related → d.code = some "E0106" ∧ c ≠ c') := by
  rcases mem_raised.mp hd with ⟨check, hcheck, -, hraised⟩
  rcases mem_raised.mp hd' with ⟨check', hcheck', -, hraised'⟩
  rcases exists_finding_of_mem_raised hcheck hraised with ⟨f, rfl, hf⟩
  rcases exists_finding_of_mem_raised hcheck' hraised' with ⟨g, rfl, hg⟩
  rcases Finding.span_message_eq_of_key_eq hkey with ⟨hspan, hmessage⟩
  have hcode : f.code = g.code := Finding.code_eq_of_key_eq hkey
  refine ⟨by simp only [Finding.toDiagnostic, hspan, hcode, hmessage], ?_⟩
  intro hrelated
  change f.related ctx.file ≠ g.related ctx.file at hrelated
  have hduplicate : f.code = .duplicateAttribute := by
    by_contra hne
    apply hrelated
    rw [Finding.related_eq_nil hne, Finding.related_eq_nil (hcode ▸ hne)]
  refine ⟨congrArg (fun code : FindingCode => some code.text) hduplicate, ?_⟩
  rintro rfl
  exact hrelated (DuplicateAttribute.related_eq_of_message_eq
    (DuplicateAttribute.mem_findings_of_code_eq hf hduplicate)
    (DuplicateAttribute.mem_findings_of_code_eq hg (hcode ▸ hduplicate)) hmessage ctx.file)

namespace Metamodel

/-- Deduplication loses nothing of what the built-in checks raise in a class, and
nothing at all of a well-located metamodel. -/
theorem deduplication_lossless (model : Metamodel) (file : SourceFile) {settings : Settings}
    (known : ∀ name ∈ settings.disabled, name ∈ Suite.builtin.names) :
    ∃ all, model.validateWith (settings.withDeduplicate false) file = .ok all ∧
      (∀ d, d ∈ all ↔ ∃ c ∈ model.classes,
        d ∈ Suite.builtin.raised
          { file, model, settings := settings.withDeduplicate false } c) ∧
      (∀ c ∈ model.classes, ∀ c' ∈ model.classes,
        ∀ d ∈ Suite.builtin.raised
          { file, model, settings := settings.withDeduplicate false } c,
        ∀ d' ∈ Suite.builtin.raised
          { file, model, settings := settings.withDeduplicate false } c',
          d.key = d'.key → { d with related := d'.related } = d' ∧
            (d.related ≠ d'.related → d.code = some "E0106" ∧ c ≠ c')) ∧
      (model.WellLocated →
        model.validateWith (settings.withDeduplicate true) file = .ok all) := by
  refine ⟨_, validateWith_eq_ok (settings.withDeduplicate false) known model file, ?_, ?_, ?_⟩
  · intro d
    exact mem_findings_iff_mem_raised (settings.withDeduplicate false) known
  · intro c _ c' _ d hd d' hd' hkey
    exact Suite.eq_of_key_eq hd hd' hkey
  · intro located
    rw [validateWith_eq_ok (settings.withDeduplicate true) known]
    congr 1
    exact Diagnostic.distinct_eq_self
      (Finding.nodup_keys_of_pairwise_apart file (located.pairwise_apart_findings _))

def sharedElements : Metamodel where
  classes := [{
    name := "C"
    attributes := [
      { name := "sizes", type := .integer, many := true, span := .ofCoords 1 0 1 9,
        defaultValue := some (.array
          [.scalar (.string "x") (.ofCoords 1 4 1 7), .scalar (.boolean true) (.ofCoords 1 4 1 7)]
          (.ofCoords 1 3 1 9)) },
      { name := "sizes", type := .string, span := .ofCoords 2 0 2 9 }] }]

theorem deduplication_lossless_of_sharedElements :
    sharedElements.WellLocated ∧ "duplicate-attribute" ∈ Suite.builtin.names ∧
      ∃ all, all.length = 2 ∧
        sharedElements.validateWith
          ((({} : Settings).disable "duplicate-attribute").withDeduplicate false) {} = .ok all ∧
        sharedElements.validateWith
          ((({} : Settings).disable "duplicate-attribute").withDeduplicate true) {} = .ok all := by
  have located : sharedElements.WellLocated := ⟨by decide, by decide⟩
  have known : ∀ name ∈ (({} : Settings).disable "duplicate-attribute").disabled.names,
      name ∈ Suite.builtin.names := by decide
  rcases deduplication_lossless sharedElements {} known with ⟨all, off, -, -, on⟩
  have size : (sharedElements.validateWith
      ((({} : Settings).disable "duplicate-attribute").withDeduplicate false) {}).map List.length =
        .ok 2 := rfl
  rw [off] at size
  exact ⟨located, by decide, all, Except.ok.inj size, off, on located⟩

end Metamodel

end MetamodelValidation
