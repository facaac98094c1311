import MetamodelValidation.Check.Basic
import MetamodelValidation.Check.Finding

/-! # Attributes of a class have different names

Every declaration that repeats the name of an earlier attribute of its class is
reported, and refers to the first declaration of the name.
-/

namespace MetamodelValidation.DuplicateAttribute

/-- Goes through the attributes once and remembers in `first` the first
declaration of each name met so far. -/
def findingsFrom (className : String) (first : List Attribute) : List Attribute → List Finding
  | [] => []
  | a :: as =>
    match first.find? (·.name == a.name) with
    | some earlier =>
      .duplicateAttribute a.span a.name className earlier.span
        :: findingsFrom className first as
    | none => findingsFrom className (a :: first) as

def findings (c : Class) : List Finding := findingsFrom c.name [] c.attributes

def check : Check where
  name := "duplicate-attribute"
  visit ctx c r := { report := r.addAll ((findings c).map (·.toDiagnostic ctx.file)) }

end MetamodelValidation.DuplicateAttribute
