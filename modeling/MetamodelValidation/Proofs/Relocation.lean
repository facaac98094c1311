import MetamodelValidation.Proofs.Resemblance

/-! # Places and files are only carried along

Places are copied from declarations and values into diagnostics, and nothing is
decided by them but which diagnostics repeat each other. So to move all places of a
metamodel is to move those of its diagnostics, and in the same way a file can be
replaced.
-/

namespace MetamodelValidation

section Moves

variable (move : Span → Span)

namespace Value

mutual

/-- Moves every node of the value. -/
def mapSpan : Value → Value
  | scalar content s => scalar content (move s)
  | array elements s => array (mapSpanAll elements) (move s)

def mapSpanAll : List Value → List Value
  | [] => []
  | v :: vs => mapSpan v :: mapSpanAll vs

end

theorem mapSpanAll_eq_map (vs : List Value) : mapSpanAll move vs = vs.map (mapSpan move) := by
  induction vs with
  | nil => rfl
  | cons v vs ih => rw [mapSpanAll, ih, List.map_cons]

end Value

def Attribute.mapSpan (a : Attribute) : Attribute :=
  { a with span := move a.span, defaultValue := a.defaultValue.map (Value.mapSpan move) }

def Class.mapSpan (c : Class) : Class :=
  { c with attributes := c.attributes.map (Attribute.mapSpan move) }

def Metamodel.mapSpan (model : Metamodel) : Metamodel :=
  { model with classes := model.classes.map (Class.mapSpan move) }

def RelatedPlace.mapSpan (r : RelatedPlace) : RelatedPlace :=
  { r with span := move r.span }

def Diagnostic.mapSpan (d : Diagnostic) : Diagnostic :=
  { d with span := move d.span, related := d.related.map (RelatedPlace.mapSpan move) }

theorem Value.resembles_mapSpan (v : Value) : v.Resembles move (v.mapSpan move) := by
  cases v with
  | scalar x s => exact ⟨rfl, rfl⟩
  | array vs s => exact ⟨rfl, rfl⟩

theorem Attribute.resembles_mapSpan (a : Attribute) : a.Resembles move (a.mapSpan move) := by
  refine ⟨rfl, .refl a.type, rfl, rfl, ?_, ?_⟩
  · change Option.Rel _ a.defaultValue (a.defaultValue.map (Value.mapSpan move))
    cases a.defaultValue with
    | none => exact .none
    | some v => exact .some (v.resembles_mapSpan move)
  · intro _ _ vs ws s t hv hw
    change a.defaultValue.map (Value.mapSpan move) = some (.array ws t) at hw
    rw [hv] at hw
    cases hw
    rw [Value.mapSpanAll_eq_map, List.forall₂_map_right_iff, List.forall₂_same]
    exact fun v _ => v.resembles_mapSpan move

theorem Class.resembles_mapSpan (c : Class) : c.Resembles move (c.mapSpan move) := by
  refine ⟨rfl, ?_⟩
  change List.Forall₂ _ c.attributes (c.attributes.map (Attribute.mapSpan move))
  rw [List.forall₂_map_right_iff, List.forall₂_same]
  exact fun a _ => a.resembles_mapSpan move

theorem Metamodel.resembles_mapSpan (model : Metamodel) :
    model.Resembles move (model.mapSpan move) := by
  change List.Forall₂ _ model.classes (model.classes.map (Class.mapSpan move))
  rw [List.forall₂_map_right_iff, List.forall₂_same]
  exact fun c _ => c.resembles_mapSpan move

theorem Finding.toDiagnostic_mapSpan (file : SourceFile) (f : Finding) :
    (f.mapSpan move).toDiagnostic file = (f.toDiagnostic file).mapSpan move := by
  cases f <;> rfl

end Moves

/-- Puts a diagnostic and its related places into another file. -/
def Diagnostic.inFile (file : SourceFile) (d : Diagnostic) : Diagnostic :=
  { d with file, related := d.related.map fun r => { r with file } }

theorem Finding.toDiagnostic_inFile (file other : SourceFile) (f : Finding) :
    f.toDiagnostic other = (f.toDiagnostic file).inFile other := by
  cases f <;> rfl

namespace Diagnostic

theorem key_mapSpan_eq_iff {move : Span → Span} (h : Function.Injective move)
    (d e : Diagnostic) : d.key = e.key ↔ (d.mapSpan move).key = (e.mapSpan move).key := by
  simp [key, mapSpan, h.eq_iff]

theorem key_inFile_eq_iff {d e : Diagnostic} (h : d.file = e.file) (file : SourceFile) :
    d.key = e.key ↔ (d.inFile file).key = (e.inFile file).key := by
  simp [key, inFile, h]

end Diagnostic

namespace Metamodel

section Shape

variable (model : Metamodel) (settings : Settings) (file : SourceFile)

theorem map_mapSpan_shape_findings {move : Span → Span}
    (h : settings.deduplicate = true → Function.Injective move) :
    (settings.shape ((model.findings settings).map (·.toDiagnostic file))).map
        (Diagnostic.mapSpan move) =
      settings.shape (((model.mapSpan move).findings settings).map (·.toDiagnostic file)) := by
  rw [← (model.resembles_mapSpan move).map_findings settings, settings.map_shape]
  · simp only [List.map_map, Function.comp_def, Finding.toDiagnostic_mapSpan]
  · intro on d _ e _
    exact Diagnostic.key_mapSpan_eq_iff (h on) d e

theorem map_inFile_shape_findings (other : SourceFile) :
    (settings.shape ((model.findings settings).map (·.toDiagnostic file))).map
        (Diagnostic.inFile other) =
      settings.shape ((model.findings settings).map (·.toDiagnostic other)) := by
  rw [settings.map_shape]
  · simp only [List.map_map, Function.comp_def, ← Finding.toDiagnostic_inFile file other]
  · intro _ d hd e he
    obtain ⟨f, -, rfl⟩ := List.mem_map.mp hd
    obtain ⟨g, -, rfl⟩ := List.mem_map.mp he
    have sameFile : (f.toDiagnostic file).file = (g.toDiagnostic file).file := rfl
    exact Diagnostic.key_inFile_eq_iff sameFile other

end Shape

/-- Moved places of a metamodel are moved places of its diagnostics, if different
places stay different or repetitions are kept. Another file is another file of the
diagnostics. -/
theorem validateWith_equivariant (model : Metamodel) (file : SourceFile) {settings : Settings}
    (known : ∀ name ∈ settings.disabled, name ∈ Suite.builtin.names) :
    ∃ ds, model.validateWith settings file = .ok ds ∧
      (∀ move : Span → Span, (settings.deduplicate = true → Function.Injective move) →
        (model.mapSpan move).validateWith settings file =
          .ok (ds.map (Diagnostic.mapSpan move))) ∧
      ∀ other : SourceFile,
        model.validateWith settings other = .ok (ds.map (Diagnostic.inFile other)) := by
  refine ⟨_, validateWith_eq_ok settings known model file, ?_, ?_⟩
  · intro move h
    rw [validateWith_eq_ok settings known, map_mapSpan_shape_findings model settings file h]
  · intro other
    rw [validateWith_eq_ok settings known, map_inFile_shape_findings]

end Metamodel

def Span.nextLine (s : Span) : Span where
  start := ⟨s.start.line + 1, s.start.column⟩
  stop := ⟨s.stop.line + 1, s.stop.column⟩

theorem Span.nextLine_injective : Function.Injective Span.nextLine := by
  rintro ⟨⟨l, c⟩, ⟨l', c'⟩⟩ ⟨⟨m, d⟩, ⟨m', d'⟩⟩ h
  simpa [nextLine] using h

namespace Metamodel

/-- A move that keeps places apart, and, with repetitions kept, one that does not. -/
theorem validateWith_equivariant_of_veiled :
    (∃ ds, ds.length = 1 ∧
      (veiled "red" ⟨0⟩ []).validateWith (({} : Settings).disable "attribute-default-value") {} =
        .ok ds ∧
      ((veiled "red" ⟨0⟩ []).mapSpan Span.nextLine).validateWith
          (({} : Settings).disable "attribute-default-value") {} =
        .ok (ds.map (Diagnostic.mapSpan Span.nextLine)) ∧
      (veiled "red" ⟨0⟩ []).validateWith (({} : Settings).disable "attribute-default-value") ⟨7⟩ =
        .ok (ds.map (Diagnostic.inFile ⟨7⟩))) ∧
    ∃ ds, ds.length = 5 ∧
      (veiled "red" ⟨0⟩ []).validateWith (({} : Settings).withDeduplicate false) {} = .ok ds ∧
      ((veiled "red" ⟨0⟩ []).mapSpan fun _ => {}).validateWith
          (({} : Settings).withDeduplicate false) {} =
        .ok (ds.map (Diagnostic.mapSpan fun _ => {})) := by
  constructor
  · have known : ∀ name ∈ (({} : Settings).disable "attribute-default-value").disabled.names,
        name ∈ Suite.builtin.names := by decide
    rcases validateWith_equivariant (veiled "red" ⟨0⟩ []) {} known with ⟨ds, run, moved, other⟩
    exact ⟨ds, Suite.apply_eq_of_validate run rfl, run,
      moved Span.nextLine (fun _ => Span.nextLine_injective), other ⟨7⟩⟩
  · have known : ∀ name ∈ (({} : Settings).withDeduplicate false).disabled,
        name ∈ Suite.builtin.names := fun name h => absurd h (NameSet.not_mem_empty name)
    rcases validateWith_equivariant (veiled "red" ⟨0⟩ []) {} known with ⟨ds, run, moved, -⟩
    exact ⟨ds, Suite.apply_eq_of_validate run rfl, run,
      moved (fun _ => {}) (fun on => absurd on Bool.false_ne_true)⟩

end Metamodel

end MetamodelValidation
