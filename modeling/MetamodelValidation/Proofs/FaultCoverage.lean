import MetamodelValidation.Proofs.Conformance
import MetamodelValidation.Proofs.Distinct
import MetamodelValidation.Proofs.Message
import MetamodelValidation.Proofs.Repeats

/-! # Every fault is reported, and nothing else

The faults of a metamodel are defined from its declarations alone, each by the
place at which it stands and the code of its sort. A pass with all built-in
checks reports these and no other, with repetitions dropped or not.
-/

namespace MetamodelValidation

/-- The faults of a value as the default of an attribute. Of the misfits in an
array, as many as the cap allows are faults of their own, from the first on, and
the others make one fault of the array. -/
inductive DefaultFault (cap : Option Nat) (a : Attribute) : Value → Span → String → Prop
  | unsupported {v : Value} (reference : a.type.isReference = true) :
    DefaultFault cap a v v.span "E0105"
  | unexpectedArray {elements : List Value} {s : Span} (literals : a.type.isReference = false)
    (single : a.many = false) : DefaultFault cap a (.array elements s) s "E0104"
  | mismatch {x : Scalar} {s : Span} (literals : a.type.isReference = false)
    (single : a.many = false) (other : a.type.literalKind? ≠ some x.kind) :
    DefaultFault cap a (.scalar x s) s "E0101"
  | expectedArray {x : Scalar} {s : Span} (literals : a.type.isReference = false)
    (many : a.many = true) : DefaultFault cap a (.scalar x s) s "E0102"
  | element {before after : List Value} {e : Value} {s : Span}
    (literals : a.type.isReference = false) (many : a.many = true)
    (misfit : a.type.misfits e = true)
    (shown : ∀ n, cap = some n → before.countP a.type.misfits < n) :
    DefaultFault cap a (.array (before ++ e :: after) s) e.span "E0103"
  | omitted {elements : List Value} {s : Span} {n : Nat} (literals : a.type.isReference = false)
    (many : a.many = true) (capped : cap = some n)
    (beyond : n < elements.countP a.type.misfits) : DefaultFault cap a (.array elements s) s "E0103"

inductive Metamodel.Fault (cap : Option Nat) (model : Metamodel) : Span → String → Prop
  | repeated {c : Class} {before after : List Attribute} {a b : Attribute}
    (declared : c ∈ model.classes) (split : c.attributes = before ++ a :: after)
    (earlier : b ∈ before) (same : b.name = a.name) : Fault cap model a.span "E0106"
  | default {c : Class} {a : Attribute} {v : Value} {s : Span} {code : String}
    (declared : c ∈ model.classes) (member : a ∈ c.attributes) (value : a.defaultValue = some v)
    (fault : DefaultFault cap a v s code) : Fault cap model s code

variable {cap : Option Nat} {a : Attribute} {v : Value} {elements : List Value}
  {model : Metamodel} {fs gs : List Finding} {s : Span} {code expected : String}

/-- Whatever the cap, an array with a misfit has a fault. -/
theorem DefaultFault.exists_of_misfit
    (literals : a.type.isReference = false) (many : a.many = true)
    (h : 0 < elements.countP a.type.misfits) (cap : Option Nat) (place : Span) :
    ∃ s code, DefaultFault cap a (.array elements place) s code := by
  by_cases hcap : cap = some 0
  · exact ⟨_, _, .omitted literals many hcap h⟩
  · obtain ⟨e, he⟩ : ∃ e, elements.find? a.type.misfits = some e := by
      rw [← Option.isSome_iff_exists, List.find?_isSome]
      exact List.countP_pos_iff.mp h
    rcases List.find?_eq_some_iff_append.mp he with ⟨misfit, before, after, rfl, hbefore⟩
    have hcount : before.countP a.type.misfits = 0 :=
      List.countP_eq_zero.mpr fun x hx => by simpa using hbefore x hx
    refine ⟨_, _, .element literals many misfit ?_⟩
    rintro n rfl
    rw [hcount]
    exact Nat.pos_of_ne_zero fun hn => hcap (by rw [hn])

/-- A cap decides how the misfits of an array are counted, not whether there is a
fault. -/
theorem DefaultFault.exists_of_cap (h : DefaultFault cap a v s code) (cap' : Option Nat) :
    ∃ s' code', DefaultFault cap' a v s' code' := by
  cases h with
  | unsupported reference => exact ⟨_, _, .unsupported reference⟩
  | unexpectedArray literals single => exact ⟨_, _, .unexpectedArray literals single⟩
  | mismatch literals single other => exact ⟨_, _, .mismatch literals single other⟩
  | expectedArray literals many => exact ⟨_, _, .expectedArray literals many⟩
  | element literals many misfit =>
    refine exists_of_misfit literals many ?_ cap' _
    rw [List.countP_append, List.countP_cons_of_pos misfit]
    omega
  | omitted literals many _ beyond =>
    exact exists_of_misfit literals many (by omega) cap' _

theorem Metamodel.Fault.forall_not_of_cap {cap' : Option Nat}
    (h : ∀ s code, ¬model.Fault cap s code) : ∀ s code, ¬model.Fault cap' s code := by
  intro s code fault
  cases fault with
  | repeated declared split earlier same => exact h _ _ (.repeated declared split earlier same)
  | default declared member value fault =>
    rcases fault.exists_of_cap cap with ⟨s', code', fault'⟩
    exact h s' code' (.default declared member value fault')

namespace Finding

def Reported (fs : List Finding) (s : Span) (code : String) : Prop :=
  ∃ f ∈ fs, f.span = s ∧ f.code.text = code

theorem not_reported_nil (s : Span) (code : String) : ¬Reported [] s code := by
  rintro ⟨f, hf, -⟩
  exact List.not_mem_nil hf

theorem eq_nil_iff_not_reported : fs = [] ↔ ∀ s code, ¬Reported fs s code := by
  constructor
  · rintro rfl
    exact not_reported_nil
  · intro h
    apply List.eq_nil_iff_forall_not_mem.mpr
    intro f hf
    exact h f.span f.code.text ⟨f, hf, rfl, rfl⟩

theorem reported_singleton {f : Finding} :
    Reported [f] s code ↔ f.span = s ∧ f.code.text = code := by
  simp [Reported]

theorem reported_append :
    Reported (fs ++ gs) s code ↔ Reported fs s code ∨ Reported gs s code := by
  simp only [Reported, List.mem_append, or_and_right, exists_or]

theorem reported_flatMap {α : Type} {as : List α} {found : α → List Finding} :
    Reported (as.flatMap found) s code ↔ ∃ a ∈ as, Reported (found a) s code := by
  simp only [Reported, List.mem_flatMap]
  constructor
  · rintro ⟨f, ⟨a, ha, hf⟩, h⟩
    exact ⟨a, ha, f, hf, h⟩
  · rintro ⟨a, ha, f, hf, h⟩
    exact ⟨f, ⟨a, ha, hf⟩, h⟩

end Finding

namespace DefaultValue
open Finding

theorem valueFindings_of_isReference (v : Value) (h : a.type.isReference = true) :
    valueFindings cap a v = [.unsupportedDefault v.span a.name a.type.name] := by
  rw [valueFindings, DataType.valueLabel?_eq, DataType.literalKind?_eq_none_iff.mpr h]
  rfl

theorem valueFindings_of_literalKind? {k : ValueKind} (v : Value)
    (h : a.type.literalKind? = some k) :
    valueFindings cap a v =
      if a.many then manyFindings cap a k.label v else singleFindings a k.label v := by
  rw [valueFindings, DataType.valueLabel?_eq, h]
  rfl

theorem reported_map_elementMismatch {t : DataType} {n : Nat} :
    Reported (((t.failingElements elements).take n).map fun e =>
        .elementMismatch e.1.span e.2 expected e.1.kind) s code ↔
      code = "E0103" ∧ ∃ before e after, elements = before ++ e :: after ∧ t.misfits e = true ∧
        before.countP t.misfits < n ∧ e.span = s := by
  constructor
  · rintro ⟨f, hf, rfl, rfl⟩
    obtain ⟨x, hx, rfl⟩ := List.mem_map.mp hf
    obtain ⟨before, after, hsplit, hmisfit, hcount⟩ :=
      DataType.mem_take_failingElements.mp (List.mem_map_of_mem hx)
    exact ⟨rfl, before, x.1, after, hsplit, hmisfit, hcount, rfl⟩
  · rintro ⟨rfl, before, e, after, hsplit, hmisfit, hcount, rfl⟩
    obtain ⟨x, hx, rfl⟩ := List.mem_map.mp
      (DataType.mem_take_failingElements.mpr ⟨before, after, hsplit, hmisfit, hcount⟩)
    exact ⟨_, List.mem_map_of_mem hx, rfl, rfl⟩

/-- The misfits of an array are reported one by one up to the cap, and the array
once if there are more. -/
theorem reported_elementFindings {t : DataType} {place : Span} :
    Reported (elementFindings cap expected place (t.failingElements elements)) s code ↔
      code = "E0103" ∧
        ((∃ before e after, elements = before ++ e :: after ∧ t.misfits e = true ∧
            (∀ n, cap = some n → before.countP t.misfits < n) ∧ e.span = s) ∨
          ∃ n, cap = some n ∧ n < elements.countP t.misfits ∧ place = s) := by
  rw [elementFindings, reported_append, reported_map_elementMismatch,
    DataType.length_failingElements, and_or_left]
  apply or_congr
  · apply and_congr_right
    intro _
    constructor
    · rintro ⟨before, e, after, hsplit, hmisfit, hcount, hspan⟩
      refine ⟨before, e, after, hsplit, hmisfit, ?_, hspan⟩
      rintro n rfl
      exact hcount
    · rintro ⟨before, e, after, hsplit, hmisfit, hshown, hspan⟩
      refine ⟨before, e, after, hsplit, hmisfit, ?_, hspan⟩
      cases cap with
      | none =>
        rw [hsplit, Option.getD_none, List.countP_append, List.countP_cons_of_pos hmisfit]
        omega
      | some n => exact hshown n rfl
  · cases cap with
    | none => simp [not_reported_nil]
    | some n =>
      rw [Option.getD_some]
      by_cases hn : elements.countP t.misfits - n = 0
      · rw [if_pos hn]
        have hle : ¬n < elements.countP t.misfits := by omega
        simp [not_reported_nil, hle]
      · rw [if_neg hn, reported_singleton]
        have hlt : n < elements.countP t.misfits := by omega
        simp only [span, Finding.code, FindingCode.text, Option.some.injEq, exists_eq_left', hlt,
          true_and]
        rw [and_comm, eq_comm]

theorem fault_of_reported_singleFindings (literals : a.type.isReference = false)
    (single : a.many = false) (h : Reported (singleFindings a expected v) s code) :
    DefaultFault cap a v s code := by
  cases v with
  | scalar x t =>
    rw [singleFindings, Value.isArray_scalar, if_neg Bool.false_ne_true] at h
    by_cases haccepts : a.type.accepts (.scalar x t) = true
    · rw [if_pos haccepts] at h
      exact absurd h (not_reported_nil s code)
    · rw [if_neg haccepts, reported_singleton] at h
      rcases h with ⟨rfl, rfl⟩
      exact .mismatch literals single fun hkind => haccepts (DataType.accepts_iff.mpr hkind)
  | array elements t =>
    rcases reported_singleton.mp h with ⟨rfl, rfl⟩
    exact .unexpectedArray literals single

theorem fault_of_reported_manyFindings (literals : a.type.isReference = false)
    (many : a.many = true) (h : Reported (manyFindings cap a expected v) s code) :
    DefaultFault cap a v s code := by
  cases v with
  | scalar x t =>
    rcases reported_singleton.mp h with ⟨rfl, rfl⟩
    exact .expectedArray literals many
  | array elements t =>
    rcases reported_elementFindings.mp h with
      ⟨rfl, ⟨before, e, after, rfl, misfit, shown, rfl⟩ | ⟨n, capped, beyond, rfl⟩⟩
    · exact .element literals many misfit shown
    · exact .omitted literals many capped beyond

theorem fault_of_reported (h : Reported (valueFindings cap a v) s code) :
    DefaultFault cap a v s code := by
  cases literals : a.type.isReference with
  | true =>
    rw [valueFindings_of_isReference v literals, reported_singleton] at h
    rcases h with ⟨rfl, rfl⟩
    exact .unsupported literals
  | false =>
    rcases DataType.isReference_eq_false_iff.mp literals with ⟨k, hk⟩
    rw [valueFindings_of_literalKind? v hk] at h
    cases many : a.many with
    | true => exact fault_of_reported_manyFindings literals many (by simpa [many] using h)
    | false => exact fault_of_reported_singleFindings literals many (by simpa [many] using h)

theorem valueFindings_of_single (v : Value) (literals : a.type.isReference = false)
    (single : a.many = false) :
    ∃ expected, valueFindings cap a v = singleFindings a expected v := by
  rcases DataType.isReference_eq_false_iff.mp literals with ⟨k, hk⟩
  exact ⟨k.label, by rw [valueFindings_of_literalKind? v hk, single, if_neg Bool.false_ne_true]⟩

theorem valueFindings_of_many (v : Value) (literals : a.type.isReference = false)
    (many : a.many = true) :
    ∃ expected, valueFindings cap a v = manyFindings cap a expected v := by
  rcases DataType.isReference_eq_false_iff.mp literals with ⟨k, hk⟩
  exact ⟨k.label, by rw [valueFindings_of_literalKind? v hk, many, if_pos rfl]⟩

theorem reported_of_fault (h : DefaultFault cap a v s code) :
    Reported (valueFindings cap a v) s code := by
  cases h with
  | unsupported reference =>
    rw [valueFindings_of_isReference v reference]
    exact reported_singleton.mpr ⟨rfl, rfl⟩
  | @unexpectedArray elements _ literals single =>
    rcases valueFindings_of_single (.array elements s) literals single with ⟨expected, hfindings⟩
    rw [hfindings]
    exact reported_singleton.mpr ⟨rfl, rfl⟩
  | @mismatch x _ literals single other =>
    rcases valueFindings_of_single (.scalar x s) literals single with ⟨expected, hfindings⟩
    rw [hfindings, singleFindings, Value.isArray_scalar, if_neg Bool.false_ne_true,
      if_neg fun haccepts => other (DataType.accepts_iff.mp haccepts)]
    exact reported_singleton.mpr ⟨rfl, rfl⟩
  | @expectedArray x _ literals many =>
    rcases valueFindings_of_many (.scalar x s) literals many with ⟨expected, hfindings⟩
    rw [hfindings]
    exact reported_singleton.mpr ⟨rfl, rfl⟩
  | @element before after e t literals many misfit shown =>
    rcases valueFindings_of_many (.array (before ++ e :: after) t) literals many with
      ⟨expected, hfindings⟩
    rw [hfindings]
    exact reported_elementFindings.mpr ⟨rfl, .inl ⟨_, _, _, rfl, misfit, shown, rfl⟩⟩
  | @omitted elements _ n literals many capped beyond =>
    rcases valueFindings_of_many (.array elements s) literals many with ⟨expected, hfindings⟩
    rw [hfindings]
    exact reported_elementFindings.mpr ⟨rfl, .inr ⟨n, capped, beyond, rfl⟩⟩

theorem reported_valueFindings :
    Reported (valueFindings cap a v) s code ↔ DefaultFault cap a v s code :=
  ⟨fault_of_reported, reported_of_fault⟩

end DefaultValue

namespace Metamodel
open Finding

theorem reported_defaultFindings :
    Reported (model.defaultFindings cap) s code ↔
      ∃ c ∈ model.classes, ∃ a ∈ c.attributes, ∃ v, a.defaultValue = some v ∧
        DefaultFault cap a v s code := by
  rw [defaultFindings, attributes, List.flatMap_assoc, reported_flatMap]
  simp only [reported_flatMap, DefaultValue.findings, Option.mem_toList,
    DefaultValue.reported_valueFindings]

theorem reported_duplicateFindings :
    Reported model.duplicateFindings s code ↔
      ∃ c ∈ model.classes, ∃ before a after, c.attributes = before ++ a :: after ∧
        (∃ b ∈ before, b.name = a.name) ∧ a.span = s ∧ code = "E0106" := by
  rw [duplicateFindings, reported_flatMap]
  refine exists_congr fun c => and_congr_right fun _ => ?_
  constructor
  · rintro ⟨f, hf, rfl, rfl⟩
    obtain ⟨before, a, after, b, hsplit, hb, rfl⟩ := DuplicateAttribute.mem_findings_iff.mp hf
    have hname : b.name = a.name := by simpa using List.find?_some hb
    exact ⟨before, a, after, hsplit, ⟨b, List.mem_of_find?_eq_some hb, hname⟩, rfl, rfl⟩
  · rintro ⟨before, a, after, hsplit, ⟨b, hb, hname⟩, rfl, rfl⟩
    have hfound : (before.find? (·.name == a.name)).isSome = true := by
      rw [List.find?_isSome]
      exact ⟨b, hb, by simpa using hname⟩
    rcases Option.isSome_iff_exists.mp hfound with ⟨first, hfirst⟩
    have hmem := DuplicateAttribute.mem_findings_iff.mpr
      ⟨before, a, after, first, hsplit, hfirst, rfl⟩
    exact ⟨_, hmem, rfl, rfl⟩

/-- With all checks enabled, the findings are the faults. -/
theorem reported_findings {settings : Settings} (h : settings.disabled = ∅) :
    Reported (model.findings settings) s code ↔ model.Fault settings.elementCap s code := by
  rw [findings_of_disabled_eq_empty h, reported_append, reported_defaultFindings,
    reported_duplicateFindings]
  constructor
  · rintro (⟨c, declared, a, member, v, value, fault⟩ |
      ⟨c, declared, before, a, after, split, ⟨b, earlier, same⟩, rfl, rfl⟩)
    · exact .default declared member value fault
    · exact .repeated declared split earlier same
  · intro fault
    cases fault with
    | repeated declared split earlier same =>
      exact .inr ⟨_, declared, _, _, _, split, ⟨_, earlier, same⟩, rfl, rfl⟩
    | default declared member value fault =>
      exact .inl ⟨_, declared, _, member, _, value, fault⟩

end Metamodel

/-- Deduplication drops no place and no code: what is dropped shares its span and
its message, and so its code, with what is kept. -/
theorem Settings.mem_shape_iff (settings : Settings) {file : SourceFile}
    {code : Option String} :
    (s, code) ∈ (settings.shape (fs.map (·.toDiagnostic file))).map (fun d => (d.span, d.code)) ↔
      ∃ text, code = some text ∧ Finding.Reported fs s text := by
  rw [List.mem_map]
  constructor
  · rintro ⟨d, hd, heq⟩
    obtain ⟨f, hf, rfl⟩ := List.mem_map.mp ((settings.shape_sublist _).subset hd)
    rcases Prod.mk.inj heq with ⟨rfl, rfl⟩
    exact ⟨_, rfl, f, hf, rfl, rfl⟩
  · rintro ⟨text, rfl, f, hf, rfl, rfl⟩
    obtain ⟨d, hd, hkey⟩ := settings.exists_mem_shape
      (List.mem_map_of_mem hf (f := (·.toDiagnostic file)))
    obtain ⟨g, -, rfl⟩ := List.mem_map.mp ((settings.shape_sublist _).subset hd)
    refine ⟨_, hd, Prod.ext (Finding.span_message_eq_of_key_eq hkey).1 ?_⟩
    exact congrArg (fun c => some c.text) (Finding.code_eq_of_key_eq hkey)

namespace Metamodel

/-- Sound and complete: with no check disabled, the places and codes of the
diagnostics are those of the faults. So nothing is reported exactly when the
metamodel has no fault, and this does not depend on the cap. -/
theorem validateWith_reports_faults (model : Metamodel) (file : SourceFile) (deduplicate : Bool)
    (elementCap : Option Nat) :
    ∃ ds, model.validateWith { deduplicate, elementCap } file = .ok ds ∧
      (∀ s code, (s, code) ∈ ds.map (fun d => (d.span, d.code)) ↔
        ∃ text, code = some text ∧ model.Fault elementCap s text) ∧
      (ds = [] ↔ ∀ s text, ¬model.Fault elementCap s text) ∧
      (ds = [] ↔ ∀ s text, ¬model.Fault none s text) := by
  have known : ∀ name ∈ (∅ : NameSet), name ∈ Suite.builtin.names := fun name h =>
    absurd h (NameSet.not_mem_empty name)
  have reported (s : Span) (text : String) :
      Finding.Reported (model.findings { deduplicate, elementCap }) s text ↔
        model.Fault elementCap s text := reported_findings rfl
  have empty : model.findings { deduplicate, elementCap } = [] ↔
      ∀ s text, ¬model.Fault elementCap s text := by
    simp only [Finding.eq_nil_iff_not_reported, reported]
  refine ⟨_, validateWith_eq_ok _ known model file, ?_, ?_, ?_⟩
  · intro s code
    simp only [Settings.mem_shape_iff, reported]
  · rw [Settings.shape_eq_nil_iff, List.map_eq_nil_iff, empty]
  · rw [Settings.shape_eq_nil_iff, List.map_eq_nil_iff, empty]
    exact ⟨Fault.forall_not_of_cap, Fault.forall_not_of_cap⟩

end Metamodel

end MetamodelValidation
