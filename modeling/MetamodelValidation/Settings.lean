import MetamodelValidation.NameSet

/-! # Settings of a validation pass

Settings say which checks are left out, whether repeated diagnostics are dropped
at the end, and how many elements of one array are reported one by one.
-/

namespace MetamodelValidation

structure Settings where
  /-- The names of the checks that are left out. -/
  disabled : NameSet := ∅
  deduplicate : Bool := true
  /-- How many elements of one array are reported one by one; all, if there is no cap. -/
  elementCap : Option Nat := none
deriving DecidableEq, Repr, Inhabited

namespace Settings

def disable (s : Settings) (name : String) : Settings :=
  { s with disabled := s.disabled.insert name }

def withDeduplicate (s : Settings) (on : Bool) : Settings :=
  { s with deduplicate := on }

def withElementCap (s : Settings) (cap : Nat) : Settings :=
  { s with elementCap := some cap }

def isEnabled (s : Settings) (name : String) : Bool := name ∉ s.disabled

theorem isEnabled_iff {s : Settings} {name : String} :
    s.isEnabled name = true ↔ name ∉ s.disabled := by
  simp [isEnabled]

end Settings

end MetamodelValidation
