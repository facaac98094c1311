import MetamodelValidation.Proofs.Disabling
import MetamodelValidation.Proofs.SuiteRuns

/-! # What labels tell

The literals of a type have a label in the list of pairings, and a value has one by its
kind. The two were written down apart, but they agree: a type accepts a value exactly if
the labels are the same. So wherever a diagnostic holds the one label against the other,
the two are different, and its message shows it.
-/

namespace MetamodelValidation

theorem ValueKind.label_injective : Function.Injective label := by
  intro k l h
  cases k <;> cases l <;> simp_all [label]

namespace DataType

def pairingIn? (rows : List Pairing) (t : DataType) : Option Pairing :=
  t.kind?.bind fun k => rows.find? (·.kind == k)

/-- Some pairing of the list is for the kind of the type and accepts the value. -/
def acceptedIn (rows : List Pairing) (t : DataType) (v : Value) : Bool :=
  rows.any fun row => t.kind? == some row.kind && row.accepts v

section Lookup

variable {rows : List Pairing}

/-- Where each kind has at most one pairing, to test the first of a kind is to test all. -/
theorem any_find?_kind (nodup : (rows.map Pairing.kind).Nodup) (k : TypeKind)
    (test : Pairing → Bool) :
    (rows.find? (·.kind == k)).any test = rows.any fun row => k == row.kind && test row := by
  induction rows with
  | nil => rfl
  | cons row rows ih =>
    obtain ⟨new, nodup⟩ := List.nodup_cons.mp nodup
    by_cases h : row.kind = k
    · have others : (rows.any fun row => k == row.kind && test row) = false := by
        rw [List.any_eq_false]
        intro other hother hit
        have same : k = other.kind := by simp_all
        exact new (h ▸ same ▸ List.mem_map_of_mem hother)
      simp [h, others]
    · simp [h, Ne.symm h, ih nodup]

theorem any_pairingIn? (nodup : (rows.map Pairing.kind).Nodup) (t : DataType) (v : Value) :
    (t.pairingIn? rows).any (·.accepts v) = t.acceptedIn rows v := by
  rw [pairingIn?, acceptedIn]
  cases t.kind? with
  | none => simp
  | some k => simpa using any_find?_kind nodup k (·.accepts v)

theorem nodup_kinds_pairings : (pairings.map Pairing.kind).Nodup := by
  decide

theorem acceptedIn_eq_accepts (perm : rows.Perm pairings) (t : DataType) (v : Value) :
    t.acceptedIn rows v = t.accepts v :=
  calc t.acceptedIn rows v
      = t.acceptedIn pairings v := perm.any_eq
    _ = (t.pairingIn? pairings).any (·.accepts v) :=
        (any_pairingIn? nodup_kinds_pairings t v).symm
    _ = t.accepts v := rfl

theorem any_pairingIn?_eq_accepts (perm : rows.Perm pairings) (t : DataType) (v : Value) :
    (t.pairingIn? rows).any (·.accepts v) = t.accepts v := by
  have nodup := (perm.map Pairing.kind).nodup_iff.mpr nodup_kinds_pairings
  rw [any_pairingIn? nodup, acceptedIn_eq_accepts perm]

end Lookup

/-- All kinds of types have a pairing. -/
theorem isSome_pairing? (t : DataType) : t.pairing?.isSome = t.kind?.isSome := by
  cases t <;> rfl

theorem kind?_eq_none_iff {t : DataType} : t.kind? = none ↔ t.isReference = true := by
  cases t <;> simp [kind?, isReference]

theorem accepts_iff_valueLabel? {t : DataType} {v : Value} :
    t.accepts v = true ↔ t.valueLabel? = some v.kind.label := by
  have same := (Option.map_injective ValueKind.label_injective).eq_iff
    (a := t.literalKind?) (b := some v.kind)
  rw [accepts_iff, valueLabel?_eq, ← same, Option.map_some]

end DataType

/-- The labels of a type and of a value, where these differ. -/
structure Contrast (expected found : String) : Prop where
  ofType : ∃ t : DataType, t.valueLabel? = some expected
  ofValue : ∃ v : Value, v.kind.label = found
  differ : expected ≠ found

theorem Contrast.of_not_accepts {t : DataType} {v : Value} {expected : String}
    (label : t.valueLabel? = some expected) (refused : t.accepts v = false) :
    Contrast expected v.kind.label where
  ofType := ⟨t, label⟩
  ofValue := ⟨v, rfl⟩
  differ := by
    rintro rfl
    rw [DataType.accepts_iff_valueLabel?.mpr label] at refused
    cases refused

theorem Contrast.plain_expected {expected found : String} (h : Contrast expected found) :
    Finding.Plain expected := by
  obtain ⟨t, label⟩ := h.ofType
  rw [DataType.valueLabel?_eq] at label
  obtain ⟨k, -, rfl⟩ := Option.map_eq_some_iff.mp label
  exact Finding.plain_label k

theorem Contrast.plain_found {expected found : String} (h : Contrast expected found) :
    Finding.Plain found := by
  obtain ⟨v, rfl⟩ := h.ofValue
  exact Finding.plain_label v.kind

theorem Finding.contrastText_eq_iff {expected found opening opening' x y : String}
    (h : Contrast expected found) (hopening : Plain opening) (hopening' : Plain opening') :
    contrastText opening expected found = contrastText opening' x y ↔
      opening' = opening ∧ x = expected ∧ y = found := by
  constructor
  · intro same
    obtain ⟨rfl, rfl, rfl⟩ :=
      contrastText_inj hopening hopening' h.plain_expected h.plain_found same
    exact ⟨rfl, rfl, rfl⟩
  · rintro ⟨rfl, rfl, rfl⟩
    rfl

open Finding in
/-- If the diagnostic is about a mismatch, its message can be read in one way only, and
then it names two labels that differ. -/
structure Diagnostic.Discerning (d : Diagnostic) : Prop where
  mismatch : d.code = some "E0101" → ∃ expected found, Contrast expected found ∧
    ∀ x y, d.message = "type mismatch: expected " ++ quoted x ++ ", found " ++ quoted y ↔
      x = expected ∧ y = found
  /-- Or else it gives the number of misfits beyond the cap, and no label of theirs. -/
  element : d.code = some "E0103" →
    (∃ position expected found, Contrast expected found ∧
      ∀ (n : Nat) (x y : String), d.message = "type mismatch at position " ++ toString n
          ++ ": expected " ++ quoted x ++ ", found " ++ quoted y ↔
        n = position ∧ x = expected ∧ y = found) ∨
    ∃ (count : Nat) (expected : String),
      d.message = toString count ++ " more array element(s) do not match " ++ quoted expected

namespace Finding

/-- A finding that holds two labels against each other has reason to. -/
def Founded : Finding → Prop
  | typeMismatch _ expected found => Contrast expected found.label
  | elementMismatch _ _ expected found => Contrast expected found.label
  | _ => True

theorem founded_of_code_eq {f : Finding} (h : f.code = .duplicateAttribute) : f.Founded := by
  cases f <;> simp_all [code, Founded]

theorem Founded.discerning {f : Finding} (h : f.Founded) (file : SourceFile) :
    (f.toDiagnostic file).Discerning := by
  constructor
  · intro hcode
    cases f with
    | typeMismatch s expected found =>
      refine ⟨expected, found.label, h, fun x y => ?_⟩
      have plain : Plain "type mismatch: expected " := rfl
      have read := contrastText_eq_iff h plain plain (x := x) (y := y)
      rwa [and_iff_right rfl] at read
    | _ => simp [toDiagnostic, code, FindingCode.text] at hcode
  · intro hcode
    cases f with
    | elementMismatch s position expected found =>
      refine .inl ⟨position, expected, found.label, h, fun n x y => ?_⟩
      have read := contrastText_eq_iff h (plain_elementOpening position)
        (plain_elementOpening n) (x := x) (y := y)
      rwa [elementOpening_inj] at read
    | elementsOmitted s count expected => exact .inr ⟨count, expected, rfl⟩
    | _ => simp [toDiagnostic, code, FindingCode.text] at hcode

end Finding

namespace DefaultValue

variable {a : Attribute} {expected : String}

theorem founded_elementFindings {t : DataType} (label : t.valueLabel? = some expected)
    (cap : Option Nat) (s : Span) (elements : List Value) :
    ∀ f ∈ elementFindings cap expected s (t.failingElements elements), f.Founded := by
  rw [elementFindings, List.forall_mem_append]
  constructor
  · rw [List.forall_mem_map]
    intro x hx
    have refused := (List.mem_filter.mp (List.mem_of_mem_take hx)).2
    exact Contrast.of_not_accepts label (by simpa using refused)
  · split
    · simp
    · exact List.forall_mem_singleton.mpr trivial

theorem founded_singleFindings (label : a.type.valueLabel? = some expected) (v : Value) :
    ∀ f ∈ singleFindings a expected v, f.Founded := by
  unfold singleFindings
  split
  · exact List.forall_mem_singleton.mpr trivial
  · split
    · simp
    · rename_i refused
      exact List.forall_mem_singleton.mpr (Contrast.of_not_accepts label (by simpa using refused))

theorem founded_manyFindings (label : a.type.valueLabel? = some expected) (cap : Option Nat)
    (v : Value) : ∀ f ∈ manyFindings cap a expected v, f.Founded := by
  unfold manyFindings
  split
  · exact List.forall_mem_singleton.mpr trivial
  · exact founded_elementFindings label cap v.span _

theorem founded_valueFindings (cap : Option Nat) (a : Attribute) (v : Value) :
    ∀ f ∈ valueFindings cap a v, f.Founded := by
  unfold valueFindings
  split
  · exact List.forall_mem_singleton.mpr trivial
  · rename_i expected label
    split
    · exact founded_manyFindings label cap v
    · exact founded_singleFindings label v

theorem founded_of_mem_findings {cap : Option Nat} {f : Finding} (h : f ∈ findings cap a) :
    f.Founded := by
  obtain ⟨v, -, h⟩ := List.mem_flatMap.mp h
  exact founded_valueFindings cap a v f h

end DefaultValue

namespace Check

/-- What holds of all entries of a report still does after a visit of the check. -/
def Upholds (check : Check) (P : Diagnostic → Prop) : Prop :=
  ∀ ctx c r, (∀ d ∈ r.entries, P d) → ∀ d ∈ (check.visit ctx c r).report.entries, P d

/-- The check adds nothing with one of the codes. What it does otherwise is not restricted. -/
def Avoids (check : Check) (codes : List String) : Prop :=
  ∀ ctx c r, ∀ d ∈ (check.visit ctx c r).report.entries,
    d ∈ r.entries ∨ ∀ code ∈ codes, d.code ≠ some code

theorem Upholds.visitAll {check : Check} {P : Diagnostic → Prop} (h : check.Upholds P)
    (ctx : Context) {r : Report} (start : ∀ d ∈ r.entries, P d) :
    ∀ d ∈ (check.visitAll ctx r).report.entries, P d :=
  Visit.report_each_keeps (P := fun r => ∀ d ∈ r.entries, P d) (fun c _ r => h ctx c r) start

theorem Avoids.upholds_discerning {check : Check} (h : check.Avoids ["E0101", "E0103"]) :
    check.Upholds Diagnostic.Discerning := by
  intro ctx c r old d hd
  rcases h ctx c r d hd with hmem | other
  · exact old d hmem
  · exact ⟨fun code => absurd code (other _ (by simp)), fun code => absurd code (other _ (by simp))⟩

end Check

/-- What every check of a suite upholds is true of all that a run hands out. -/
theorem Pass.forall_mem_diagnostics_run {p : Pass} {P : Diagnostic → Prop}
    (h : ∀ check ∈ p.suite.checks, check.Upholds P) (model : Metamodel) (file : SourceFile) :
    ∀ d ∈ (p.run model file).diagnostics, P d := by
  have gathered : ∀ d ∈ (p.visit (p.context model file)).report.entries, P d := by
    rw [report_visit]
    apply Visit.report_each_keeps (P := fun r => ∀ d ∈ r.entries, P d)
    · intro check hcheck r old
      exact (h check (Suite.mem_checks_of_mem_enabled hcheck)).visitAll _ old
    · simp
  intro d hd
  rw [diagnostics_run] at hd
  exact gathered d ((p.settings.shape_sublist _).subset hd)

namespace Suite

theorem discerning_of_mem_raised {check : Check} (h : check ∈ builtinChecks) {ctx : Context}
    {c : Class} {d : Diagnostic} (hd : d ∈ check.raised ctx c) : d.Discerning := by
  obtain ⟨f, rfl, hf | hf⟩ := exists_finding_of_mem_raised h hd
  · obtain ⟨a, -, hf⟩ := List.mem_flatMap.mp hf
    exact (DefaultValue.founded_of_mem_findings hf).discerning ctx.file
  · have code := DuplicateAttribute.code_eq_duplicateAttribute hf
    exact (Finding.founded_of_code_eq code).discerning ctx.file

theorem upholds_discerning_of_mem_builtinChecks {check : Check} (h : check ∈ builtinChecks) :
    check.Upholds Diagnostic.Discerning := by
  intro ctx c r old d hd
  rw [appendOnly_of_mem_builtinChecks h ctx c r, Report.entries_addAll, List.mem_append] at hd
  rcases hd with hd | hd
  · exact old d hd
  · exact discerning_of_mem_raised h hd

/-- The predicates tell the kinds of values apart, and a type accepts the values that have
the label of its literals. It has a label and a test for them if it has a kind, and in
whatever order the pairings are looked through, the answer is the same. So the labels in a
diagnostic of a mismatch differ: in whatever the built-in checks add to a report, and in all
that is handed out by a run, if the other checks add nothing with the codes of a mismatch. -/
theorem queries_and_labels_agree :
    (∀ (k : ValueKind) (v : Value), k.test v = true ↔ v.kind = k) ∧
    (∀ (t : DataType) (v : Value),
      (t.accepts v = true ↔ t.valueLabel? = some v.kind.label) ∧
      t.valueTest?.isSome = t.kind?.isSome ∧ t.valueLabel?.isSome = t.kind?.isSome ∧
      (t.kind? = none ↔ t.isReference = true) ∧
      (∀ test, t.valueTest? = some test → test v = t.accepts v) ∧
      ∀ rows : List Pairing, rows.Perm pairings →
        t.acceptedIn rows v = t.accepts v ∧
        (t.pairingIn? rows).any (·.accepts v) = t.accepts v) ∧
    (∀ check ∈ builtinChecks, ∀ (ctx : Context) (c : Class) (r : Report), ∃ added,
      (check.visit ctx c r).report = r.addAll added ∧ ∀ d ∈ added, d.Discerning) ∧
    ∀ p : Pass,
      (∀ check ∈ p.suite.checks, check ∈ builtinChecks ∨ check.Avoids ["E0101", "E0103"]) →
      ∀ (model : Metamodel) (file : SourceFile),
        ∀ d ∈ (p.run model file).diagnostics, d.Discerning := by
  refine ⟨fun k v => ValueKind.test_iff,
    fun t v => ⟨DataType.accepts_iff_valueLabel?, ?_, ?_, DataType.kind?_eq_none_iff, ?_, ?_⟩,
    ?_, ?_⟩
  · rw [DataType.valueTest?, Option.isSome_map, DataType.isSome_pairing?]
  · rw [DataType.valueLabel?, Option.isSome_map, DataType.isSome_pairing?]
  · intro test h
    rw [DataType.eq_accepts_of_valueTest? h]
  · intro rows perm
    exact ⟨DataType.acceptedIn_eq_accepts perm t v, DataType.any_pairingIn?_eq_accepts perm t v⟩
  · intro check hcheck ctx c r
    exact ⟨check.raised ctx c, appendOnly_of_mem_builtinChecks hcheck ctx c r,
      fun d hd => discerning_of_mem_raised hcheck hd⟩
  · intro p others
    apply Pass.forall_mem_diagnostics_run
    intro check hcheck
    rcases others check hcheck with builtin | avoids
    · exact upholds_discerning_of_mem_builtinChecks builtin
    · exact avoids.upholds_discerning

def commented : Suite where
  checks := [DefaultValue.check, .remark "lenient" .warning]
  nodup := by decide

theorem avoids_commented : ∀ check ∈ commented.checks,
    check ∈ builtinChecks ∨ check.Avoids ["E0101", "E0103"] := by
  refine List.forall_mem_cons.mpr
    ⟨.inl List.mem_cons_self, List.forall_mem_singleton.mpr (.inr ?_)⟩
  intro ctx c r d hd
  rcases List.mem_append.mp hd with old | new
  · exact .inl old
  · rw [List.mem_singleton.mp new]
    exact .inr (by simp)

/-- With the pairings in reverse, and with a check that is not built in. -/
theorem queries_and_labels_agree_of_commented :
    (pairings.reverse.Perm pairings ∧
      (DataType.enumeration "Color").acceptedIn pairings.reverse (.scalar (.literal "red") {}) =
        true) ∧
    (DataType.float.valueTest? = some Value.isFloat ∧
      Value.isFloat (.scalar (.integer 1) {}) = false) ∧
    (∀ check ∈ commented.checks, check ∈ builtinChecks ∨ check.Avoids ["E0101", "E0103"]) ∧
    ∃ ds, commented.validate {} { classes := [.faulty] } {} = .ok ds ∧
      ds.map (·.message) =
        ["type mismatch: expected 'StringValue', found 'IntegerValue'", "C"] ∧
      ∀ d ∈ ds, d.Discerning := by
  have reversed : pairings.reverse.Perm pairings := pairings.reverse_perm
  have literal := queries_and_labels_agree.2.1 (.enumeration "Color") (.scalar (.literal "red") {})
  have number := queries_and_labels_agree.2.1 .float (.scalar (.integer 1) {})
  have run := queries_and_labels_agree.2.2.2 ⟨commented, {}, commented.known_empty⟩
    avoids_commented { classes := [.faulty] } {}
  refine ⟨⟨reversed, ?_⟩, ⟨rfl, ?_⟩, avoids_commented, _, rfl, rfl, run⟩
  · rw [(literal.2.2.2.2.2 _ reversed).1, literal.1]
    rfl
  · exact number.2.2.2.2.1 Value.isFloat rfl

end Suite

end MetamodelValidation
