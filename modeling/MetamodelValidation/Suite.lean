import MetamodelValidation.Check.DefaultValue
import MetamodelValidation.Check.DuplicateAttribute

/-! # Suites of checks

A suite holds checks in the order in which they were registered, under different
names. A check that was registered is never replaced or moved.
-/

namespace MetamodelValidation

/-- Why a pass could not be set up. -/
inductive SetupError where
  | duplicateCheck (name : String)
  | unknownCheck (name : String)
deriving DecidableEq, Repr

def SetupError.message : SetupError → String
  | duplicateCheck name => "Duplicate validation check: " ++ name
  | unknownCheck name => "Unknown validation check: " ++ name

structure Suite where
  checks : List Check := []
  nodup : (checks.map Check.name).Nodup := by exact List.nodup_nil

namespace Suite

def names (s : Suite) : List String := s.checks.map Check.name

def contains (s : Suite) (name : String) : Bool := name ∈ s.names

def size (s : Suite) : Nat := s.checks.length

def isEmpty (s : Suite) : Bool := s.checks.isEmpty

theorem nodup_append_singleton {s : Suite} {check : Check} (h : check.name ∉ s.names) :
    ((s.checks ++ [check]).map Check.name).Nodup := by
  rw [List.map_append, List.nodup_append]
  refine ⟨s.nodup, by simp, fun a ha b hb => ?_⟩
  rintro rfl
  exact h (List.mem_singleton.mp hb ▸ ha)

/-- Appends a check. A name that is taken is refused. -/
def register (s : Suite) (check : Check) : Except SetupError Suite :=
  if h : check.name ∈ s.names then .error (.duplicateCheck check.name)
  else .ok ⟨s.checks ++ [check], nodup_append_singleton h⟩

theorem register_eq_error {s : Suite} {check : Check} (h : check.name ∈ s.names) :
    s.register check = .error (.duplicateCheck check.name) :=
  dif_pos h

theorem register_eq_ok {s : Suite} {check : Check} (h : check.name ∉ s.names) :
    s.register check = .ok ⟨s.checks ++ [check], nodup_append_singleton h⟩ :=
  dif_neg h

/-- Registers checks up to the first that is refused. Those before it stay. -/
def registerAll (s : Suite) : List Check → Suite × Option SetupError
  | [] => (s, none)
  | check :: others =>
    match s.register check with
    | .ok s' => s'.registerAll others
    | .error e => (s, some e)

def builtinChecks : List Check := [DefaultValue.check, DuplicateAttribute.check]

def builtin : Suite where
  checks := builtinChecks
  nodup := by simp [builtinChecks, DefaultValue.check, DuplicateAttribute.check]

/-- The disabled names that no check of the suite has, in ascending order. -/
def unknown (s : Suite) (settings : Settings) : List String :=
  settings.disabled.names.filter (· ∉ s.names)

end Suite

end MetamodelValidation
