import MetamodelValidation.Diagnostic
import MetamodelValidation.Value.Basic

/-! # Findings of the built-in checks

A finding is a fault of a metamodel as data. Code, message and place of its
diagnostic are read off here and nowhere else.
-/

namespace MetamodelValidation

inductive FindingCode where
  | typeMismatch
  | expectedArray
  | elementMismatch
  | unexpectedArray
  | unsupportedDefault
  | duplicateAttribute
deriving DecidableEq, Repr

def FindingCode.text : FindingCode → String
  | typeMismatch => "E0101"
  | expectedArray => "E0102"
  | elementMismatch => "E0103"
  | unexpectedArray => "E0104"
  | unsupportedDefault => "E0105"
  | duplicateAttribute => "E0106"

/-- A fault, with the span that it is reported at. An expected value is given by
the name of the legal values. -/
inductive Finding where
  | typeMismatch (span : Span) (expected : String) (found : ValueKind)
  | expectedArray (span : Span) (attrName expected : String) (found : ValueKind)
  | elementMismatch (span : Span) (position : Nat) (expected : String) (found : ValueKind)
  /-- Stands for the elements of an array that exceed the cap. -/
  | elementsOmitted (span : Span) (count : Nat) (expected : String)
  | unexpectedArray (span : Span) (attrName expected : String)
  | unsupportedDefault (span : Span) (attrName typeName : String)
  | duplicateAttribute (span : Span) (attrName className : String) (previous : Span)
deriving DecidableEq, Repr

namespace Finding

def code : Finding → FindingCode
  | typeMismatch .. => .typeMismatch
  | expectedArray .. => .expectedArray
  | elementMismatch .. => .elementMismatch
  | elementsOmitted .. => .elementMismatch
  | unexpectedArray .. => .unexpectedArray
  | unsupportedDefault .. => .unsupportedDefault
  | duplicateAttribute .. => .duplicateAttribute

def span : Finding → Span
  | typeMismatch span .. => span
  | expectedArray span .. => span
  | elementMismatch span .. => span
  | elementsOmitted span .. => span
  | unexpectedArray span .. => span
  | unsupportedDefault span .. => span
  | duplicateAttribute span .. => span

def quoted (s : String) : String := "'" ++ s ++ "'"

def message : Finding → String
  | typeMismatch _ expected found =>
    "type mismatch: expected " ++ quoted expected ++ ", found " ++ quoted found.label
  | expectedArray _ attrName expected found =>
    "attribute " ++ quoted attrName ++ " is an array: expected an array of "
      ++ quoted expected ++ ", found " ++ quoted found.label
  | elementMismatch _ position expected found =>
    "type mismatch at position " ++ toString position ++ ": expected " ++ quoted expected
      ++ ", found " ++ quoted found.label
  | elementsOmitted _ count expected =>
    toString count ++ " more array element(s) do not match " ++ quoted expected
  | unexpectedArray _ attrName expected =>
    "attribute " ++ quoted attrName ++ " is not an array: expected " ++ quoted expected
      ++ ", found an array"
  | unsupportedDefault _ attrName typeName =>
    "attribute " ++ quoted attrName ++ " of type " ++ quoted typeName
      ++ " cannot have a default value"
  | duplicateAttribute _ attrName className _ =>
    "duplicate attribute: " ++ quoted attrName ++ " is already declared in "
      ++ quoted className

/-- A repeated declaration points back to the first one. -/
def related (file : SourceFile) : Finding → List RelatedPlace
  | duplicateAttribute _ attrName _ previous =>
    [{ file, span := previous, message := "previous declaration of " ++ quoted attrName }]
  | _ => []

/-- Every finding is an error of the file that was checked. -/
def toDiagnostic (file : SourceFile) (f : Finding) : Diagnostic where
  file := file
  span := f.span
  severity := .error
  code := some f.code.text
  message := f.message
  related := f.related file

end Finding

end MetamodelValidation
