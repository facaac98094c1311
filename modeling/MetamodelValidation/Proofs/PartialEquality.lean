import MetamodelValidation.Model.Equality
import MetamodelValidation.Proofs.Resemblance

/-! # Equality is a partial equivalence

Equality of values and declarations is symmetric and transitive, but not reflexive: what
has a NaN inside differs from itself, and nothing else does. Equal metamodels need not
be the same, since the two zeros are equal, but they look the same to validation.
-/

namespace MetamodelValidation

section Containers

variable {α : Type} {as bs cs : List α}

/-- Only the elements of the first list have to be related symmetrically. -/
theorem forall₂_symm {R : α → α → Prop} (symm : ∀ a ∈ as, ∀ b, R a b → R b a)
    (h : List.Forall₂ R as bs) : List.Forall₂ R bs as := by
  induction h with
  | nil => exact .nil
  | cons hab _ ih =>
    rw [List.forall_mem_cons] at symm
    exact .cons (symm.1 _ hab) (ih symm.2)

theorem forall₂_trans {R : α → α → Prop} (trans : ∀ a ∈ as, ∀ b c, R a b → R b c → R a c)
    (h : List.Forall₂ R as bs) (h' : List.Forall₂ R bs cs) : List.Forall₂ R as cs := by
  induction h generalizing cs with
  | nil => exact h'
  | cons hab _ ih =>
    cases h' with
    | cons hbc hrest =>
      rw [List.forall_mem_cons] at trans
      exact .cons (trans.1 _ _ hab hbc) (ih trans.2 hrest)

variable [BEq α]

theorem list_beq_iff : as == bs ↔ List.Forall₂ (· == ·) as bs := by
  induction as generalizing bs with
  | nil => cases bs <;> simp
  | cons a as ih => cases bs <;> simp [ih]

theorem option_beq_iff {x y : Option α} : x == y ↔ Option.Rel (· == ·) x y := by
  cases x <;> cases y <;> simp

instance instPartialEquivBEqList [PartialEquivBEq α] : PartialEquivBEq (List α) where
  symm h := by
    rw [list_beq_iff] at h ⊢
    exact forall₂_symm (fun _ _ _ => PartialEquivBEq.symm) h
  trans h h' := by
    rw [list_beq_iff] at h h' ⊢
    exact forall₂_trans (fun _ _ _ _ => PartialEquivBEq.trans) h h'

instance instPartialEquivBEqOption [PartialEquivBEq α] : PartialEquivBEq (Option α) where
  symm h := by
    rw [option_beq_iff] at h ⊢
    cases h with
    | none => exact .none
    | some hab => exact .some (PartialEquivBEq.symm hab)
  trans h h' := by
    rw [option_beq_iff] at h h' ⊢
    cases h with
    | none => exact h'
    | some hab =>
      cases h' with
      | some hbc => exact .some (PartialEquivBEq.trans hab hbc)

variable {β : Type} [BEq β]

theorem prod_beq_iff {p q : α × β} : p == q ↔ p.1 == q.1 ∧ p.2 == q.2 := by
  rw [← Bool.and_eq_true]
  rfl

instance instPartialEquivBEqProd [PartialEquivBEq α] [PartialEquivBEq β] :
    PartialEquivBEq (α × β) where
  symm h := by
    rw [prod_beq_iff] at h ⊢
    exact ⟨PartialEquivBEq.symm h.1, PartialEquivBEq.symm h.2⟩
  trans h h' := by
    rw [prod_beq_iff] at h h' ⊢
    exact ⟨PartialEquivBEq.trans h.1 h'.1, PartialEquivBEq.trans h.2 h'.2⟩

/-- Records that are compared by their parts are compared like the tuples of these. -/
theorem partialEquivBEq_of_view [PartialEquivBEq β] (view : α → β)
    (h : ∀ a b : α, a == b ↔ view a == view b) : PartialEquivBEq α where
  symm hab := (h _ _).mpr (PartialEquivBEq.symm ((h _ _).mp hab))
  trans hab hbc := (h _ _).mpr (PartialEquivBEq.trans ((h _ _).mp hab) ((h _ _).mp hbc))

end Containers

theorem Binary64.beq_iff {x y : Binary64} :
    x == y ↔ x.isNaN = false ∧ y.isNaN = false ∧
      (x = y ∨ x.isZero = true ∧ y.isZero = true) := by
  have bits_iff : x.bits = y.bits ↔ x = y := by
    cases x
    cases y
    simp
  simp [beq_def, bits_iff, and_assoc]

instance : PartialEquivBEq Binary64 where
  symm {x y} h := by rwa [Binary64.beq_comm]
  trans {x y z} h h' := by
    rw [Binary64.beq_iff] at h h' ⊢
    obtain ⟨hx, hy, hxy⟩ := h
    obtain ⟨-, hz, hyz⟩ := h'
    refine ⟨hx, hz, ?_⟩
    rcases hxy with rfl | ⟨zeroX, zeroY⟩
    · exact hyz
    · rcases hyz with rfl | ⟨-, zeroZ⟩
      · exact .inr ⟨zeroX, zeroY⟩
      · exact .inr ⟨zeroX, zeroZ⟩

namespace Scalar

/-- Scalars other than floats are equal only if they are the same. -/
theorem beq_iff {a b : Scalar} :
    a == b ↔ (∃ x y, a = .float x ∧ b = .float y ∧ x == y) ∨ a = b ∧ a.kind ≠ .float := by
  cases a <;> cases b <;> simp [BEq.beq, kind]

theorem beq_self_iff {a : Scalar} : a == a ↔ ∀ x, a = .float x → x.isNaN = false := by
  cases a <;> simp [beq_iff, kind]

theorem kind_eq_of_beq {a b : Scalar} (h : a == b) : b.kind = a.kind := by
  rcases beq_iff.mp h with ⟨x, y, rfl, rfl, -⟩ | ⟨rfl, -⟩ <;> rfl

instance : PartialEquivBEq Scalar where
  symm h := by
    rcases beq_iff.mp h with ⟨x, y, rfl, rfl, hxy⟩ | ⟨rfl, -⟩
    · exact beq_iff.mpr (.inl ⟨y, x, rfl, rfl, PartialEquivBEq.symm hxy⟩)
    · exact h
  trans h h' := by
    rcases beq_iff.mp h with ⟨x, y, rfl, rfl, hxy⟩ | ⟨rfl, -⟩
    · rcases beq_iff.mp h' with ⟨y, z, ⟨⟩, rfl, hyz⟩ | ⟨rfl, -⟩
      · exact beq_iff.mpr (.inl ⟨x, z, rfl, rfl, PartialEquivBEq.trans hxy hyz⟩)
      · exact h
    · exact h'

end Scalar

namespace Value

/-- Induction over nested arrays, with the hypothesis for each element. -/
theorem induction {P : Value → Prop} (scalar : ∀ x s, P (.scalar x s))
    (array : ∀ vs s, (∀ v ∈ vs, P v) → P (.array vs s)) : ∀ v, P v
  | .scalar x s => scalar x s
  | .array vs s => array vs s fun v _ => induction scalar array v

theorem beqAll_iff {vs ws : List Value} :
    beqAll vs ws = true ↔ List.Forall₂ (· == ·) vs ws := by
  induction vs generalizing ws with
  | nil => cases ws <;> simp [beqAll]
  | cons v vs ih => cases ws <;> simp [beqAll, ih, BEq.beq]

theorem scalar_beq_iff {x : Scalar} {s : Span} {w : Value} :
    scalar x s == w ↔ ∃ y, w = scalar y s ∧ x == y := by
  cases w with
  | scalar y t =>
    change (x == y && s == t) = true ↔ _
    rw [Bool.and_eq_true, beq_iff_eq (a := s)]
    constructor
    · rintro ⟨hxy, rfl⟩
      exact ⟨y, rfl, hxy⟩
    · rintro ⟨_, ⟨⟩, hxy⟩
      exact ⟨hxy, rfl⟩
  | array ws t =>
    change false = true ↔ _
    simp

theorem array_beq_iff {vs : List Value} {s : Span} {w : Value} :
    array vs s == w ↔ ∃ ws, w = array ws s ∧ List.Forall₂ (· == ·) vs ws := by
  cases w with
  | scalar y t =>
    change false = true ↔ _
    simp
  | array ws t =>
    change (beqAll vs ws && s == t) = true ↔ _
    rw [Bool.and_eq_true, beqAll_iff, beq_iff_eq]
    constructor
    · rintro ⟨hvs, rfl⟩
      exact ⟨ws, rfl, hvs⟩
    · rintro ⟨_, ⟨⟩, hvs⟩
      exact ⟨hvs, rfl⟩

theorem beq_symm {v w : Value} (h : v == w) : w == v := by
  induction v using induction generalizing w with
  | scalar x s =>
    obtain ⟨y, rfl, hxy⟩ := scalar_beq_iff.mp h
    exact scalar_beq_iff.mpr ⟨x, rfl, PartialEquivBEq.symm hxy⟩
  | array vs s ih =>
    obtain ⟨ws, rfl, hvs⟩ := array_beq_iff.mp h
    exact array_beq_iff.mpr ⟨vs, rfl, forall₂_symm (fun v hv _ => ih v hv) hvs⟩

theorem beq_trans {u v w : Value} (h : u == v) (h' : v == w) : u == w := by
  induction u using induction generalizing v w with
  | scalar x s =>
    obtain ⟨y, rfl, hxy⟩ := scalar_beq_iff.mp h
    obtain ⟨z, rfl, hyz⟩ := scalar_beq_iff.mp h'
    exact scalar_beq_iff.mpr ⟨z, rfl, PartialEquivBEq.trans hxy hyz⟩
  | array us s ih =>
    obtain ⟨vs, rfl, hus⟩ := array_beq_iff.mp h
    obtain ⟨ws, rfl, hvs⟩ := array_beq_iff.mp h'
    exact array_beq_iff.mpr ⟨ws, rfl, forall₂_trans (fun u hu _ _ => ih u hu) hus hvs⟩

instance : PartialEquivBEq Value where
  symm := beq_symm
  trans := beq_trans

/-- A NaN stands somewhere in the value, at any depth. -/
inductive HasNaN : Value → Prop
  | float {x : Binary64} {s : Span} (nan : x.isNaN = true) : HasNaN (scalar (.float x) s)
  | element {v : Value} {vs : List Value} {s : Span} (mem : v ∈ vs) (h : HasNaN v) :
    HasNaN (array vs s)

theorem hasNaN_scalar_iff {x : Scalar} {s : Span} :
    (scalar x s).HasNaN ↔ ∃ y, x = .float y ∧ y.isNaN = true := by
  constructor
  · intro h
    cases h with
    | float nan => exact ⟨_, rfl, nan⟩
  · rintro ⟨y, rfl, nan⟩
    exact .float nan

theorem hasNaN_array_iff {vs : List Value} {s : Span} :
    (array vs s).HasNaN ↔ ∃ v ∈ vs, v.HasNaN := by
  constructor
  · intro h
    cases h with
    | element mem h => exact ⟨_, mem, h⟩
  · rintro ⟨v, mem, h⟩
    exact .element mem h

theorem beq_self_iff (v : Value) : v == v ↔ ¬v.HasNaN := by
  induction v using induction with
  | scalar x s => simp [scalar_beq_iff, hasNaN_scalar_iff, Scalar.beq_self_iff]
  | array vs s ih =>
    have elements : (∀ v ∈ vs, v == v) ↔ ∀ v ∈ vs, ¬v.HasNaN := forall₂_congr ih
    simpa [array_beq_iff, hasNaN_array_iff] using elements

theorem resembles_of_beq {v w : Value} (h : v == w) : v.Resembles id w := by
  cases v with
  | scalar x s =>
    obtain ⟨y, rfl, hxy⟩ := scalar_beq_iff.mp h
    exact ⟨Scalar.kind_eq_of_beq hxy, rfl⟩
  | array vs s =>
    obtain ⟨ws, rfl, -⟩ := array_beq_iff.mp h
    exact ⟨rfl, rfl⟩

end Value

namespace Attribute

def HasNaN (a : Attribute) : Prop := ∃ v, a.defaultValue = some v ∧ v.HasNaN

theorem beq_iff {a b : Attribute} :
    a == b ↔ a.name = b.name ∧ a.type = b.type ∧ a.many = b.many ∧
      a.defaultValue == b.defaultValue ∧ a.span = b.span := by
  change (a.name == b.name && a.type == b.type && a.many == b.many
    && a.defaultValue == b.defaultValue && a.span == b.span) = true ↔ _
  simp [and_assoc]

instance : PartialEquivBEq Attribute :=
  partialEquivBEq_of_view (fun a => (a.name, a.type, a.many, a.defaultValue, a.span))
    fun a b => by simp [beq_iff, prod_beq_iff]

theorem beq_self_iff (a : Attribute) : a == a ↔ ¬a.HasNaN := by
  have value : a.defaultValue == a.defaultValue ↔ ¬a.HasNaN := by
    unfold HasNaN
    cases a.defaultValue <;> simp [Value.beq_self_iff]
  simp [beq_iff, value]

theorem resembles_of_beq {a b : Attribute} (h : a == b) : a.Resembles id b := by
  obtain ⟨name, type, many, value, span⟩ := beq_iff.mp h
  refine ⟨name.symm, type ▸ .refl a.type, many.symm, span.symm, ?_, ?_⟩
  · rw [option_beq_iff] at value
    generalize a.defaultValue = x, b.defaultValue = y at value ⊢
    cases value with
    | none => exact .none
    | some hvw => exact .some (Value.resembles_of_beq hvw)
  · intro _ _ vs ws s t hv hw
    rw [hv, hw, Option.some_beq_some] at value
    obtain ⟨_, ⟨⟩, elements⟩ := Value.array_beq_iff.mp value
    exact elements.imp fun _ _ => Value.resembles_of_beq

end Attribute

namespace Class

def HasNaN (c : Class) : Prop := ∃ a ∈ c.attributes, a.HasNaN

theorem beq_iff {c d : Class} :
    c == d ↔ c.name = d.name ∧ c.attributes == d.attributes ∧ c.span = d.span := by
  change (c.name == d.name && c.attributes == d.attributes && c.span == d.span) = true ↔ _
  simp [and_assoc]

instance : PartialEquivBEq Class :=
  partialEquivBEq_of_view (fun c => (c.name, c.attributes, c.span))
    fun c d => by simp [beq_iff, prod_beq_iff]

theorem beq_self_iff (c : Class) : c == c ↔ ¬c.HasNaN := by
  simp [beq_iff, HasNaN, list_beq_iff, List.forall₂_same, Attribute.beq_self_iff]

theorem resembles_of_beq {c d : Class} (h : c == d) : c.Resembles id d := by
  obtain ⟨name, attributes, -⟩ := beq_iff.mp h
  exact ⟨name.symm, (list_beq_iff.mp attributes).imp fun _ _ => Attribute.resembles_of_beq⟩

end Class

namespace Metamodel

def HasNaN (model : Metamodel) : Prop := ∃ c ∈ model.classes, c.HasNaN

theorem beq_iff {model other : Metamodel} :
    model == other ↔ model.name = other.name ∧ model.classes == other.classes ∧
      model.enumerations = other.enumerations := by
  change (model.name == other.name && model.classes == other.classes
    && model.enumerations == other.enumerations) = true ↔ _
  simp [and_assoc]

instance : PartialEquivBEq Metamodel :=
  partialEquivBEq_of_view (fun model => (model.name, model.classes, model.enumerations))
    fun model other => by simp [beq_iff, prod_beq_iff]

theorem beq_self_iff (model : Metamodel) : model == model ↔ ¬model.HasNaN := by
  simp [beq_iff, HasNaN, list_beq_iff, List.forall₂_same, Class.beq_self_iff]

theorem resembles_of_beq {model other : Metamodel} (h : model == other) :
    model.Resembles id other := by
  obtain ⟨-, classes, -⟩ := beq_iff.mp h
  exact (list_beq_iff.mp classes).imp fun _ _ => Class.resembles_of_beq

/-- Floats are compared as numbers. Built on that, equality is symmetric and transitive,
only what has no NaN inside equals itself, and equal metamodels have the same
diagnostics. -/
theorem equality_respected :
    (∀ x y : Binary64, x == y ↔ x.isNaN = false ∧ y.isNaN = false ∧
      (x = y ∨ x.isZero = true ∧ y.isZero = true)) ∧
    (PartialEquivBEq Value ∧ PartialEquivBEq Attribute ∧ PartialEquivBEq Class ∧
      PartialEquivBEq Metamodel) ∧
    ((∀ v : Value, v == v ↔ ¬v.HasNaN) ∧ (∀ a : Attribute, a == a ↔ ¬a.HasNaN) ∧
      (∀ c : Class, c == c ↔ ¬c.HasNaN) ∧ ∀ model : Metamodel, model == model ↔ ¬model.HasNaN) ∧
    ∀ model other : Metamodel, model == other → ∀ settings : Settings,
      (∀ name ∈ settings.disabled, name ∈ Suite.builtin.names) → ∀ file : SourceFile,
        ∃ ds, model.validateWith settings file = .ok ds ∧
          other.validateWith settings file = .ok ds := by
  refine ⟨fun x y => Binary64.beq_iff,
    ⟨inferInstance, inferInstance, inferInstance, inferInstance⟩,
    ⟨Value.beq_self_iff, Attribute.beq_self_iff, Class.beq_self_iff, beq_self_iff⟩, ?_⟩
  intro model other equal settings known file
  refine ⟨_, validateWith_eq_ok settings known model file, ?_⟩
  rw [validateWith_eq_ok settings known, ← (resembles_of_beq equal).map_findings settings,
    Finding.mapSpan_id, List.map_id]

/-- The metamodels differ in the sign of a zero. Deep in an array, a NaN makes a metamodel
differ from itself. -/
theorem equality_respected_of_veiled :
    veiled "red" ⟨0⟩ [] ≠ veiled "red" ⟨0x8000000000000000⟩ [] ∧
    veiled "red" ⟨0⟩ [] == veiled "red" ⟨0x8000000000000000⟩ [] ∧
    "duplicate-attribute" ∈ Suite.builtin.names ∧
    (∃ ds, ds.length = 4 ∧
      (veiled "red" ⟨0⟩ []).validateWith (({} : Settings).disable "duplicate-attribute") {} =
        .ok ds ∧
      (veiled "red" ⟨0x8000000000000000⟩ []).validateWith
        (({} : Settings).disable "duplicate-attribute") {} = .ok ds) ∧
    ¬veiled "red" ⟨0⟩ [.array [.scalar (.float ⟨0x7FF8000000000000⟩) {}] {}] ==
      veiled "red" ⟨0⟩ [.array [.scalar (.float ⟨0x7FF8000000000000⟩) {}] {}] := by
  rcases equality_respected with ⟨-, -, ⟨-, -, -, self⟩, respected⟩
  have known : ∀ name ∈ (({} : Settings).disable "duplicate-attribute").disabled.names,
      name ∈ Suite.builtin.names := by decide
  have equal : veiled "red" ⟨0⟩ [] == veiled "red" ⟨0x8000000000000000⟩ [] := by decide
  rcases respected _ _ equal _ known {} with ⟨ds, run, run'⟩
  refine ⟨by simp [veiled], equal, by decide,
    ⟨ds, Suite.apply_eq_of_validate run rfl, run, run'⟩, ?_⟩
  rw [self, not_not]
  refine ⟨_, .head _, _, .head _, _, rfl, .element (.tail _ (.tail _ (.head _))) ?_⟩
  exact .element (.head _) (.element (.head _) (.float (by decide)))

end Metamodel

end MetamodelValidation
