import MetamodelValidation.Check.Basic
import MetamodelValidation.Check.Finding
import MetamodelValidation.Conformance

/-! # Default values conform to their attribute

The default value of an attribute has to be a value of its type, or an array of
such values if the attribute holds many. An attribute typed by a class has no
literals and so can have no default value at all.
-/

namespace MetamodelValidation.DefaultValue

/-- Reports the failing elements of an array one by one up to the cap, and those
beyond it by their number. -/
def elementFindings (cap : Option Nat) (expected : String) (span : Span)
    (failing : List (Value × Nat)) : List Finding :=
  let shown := cap.getD failing.length
  let omitted := failing.length - shown
  (failing.take shown).map (fun e => .elementMismatch e.1.span e.2 expected e.1.kind)
    ++ if omitted = 0 then [] else [.elementsOmitted span omitted expected]

def singleFindings (a : Attribute) (expected : String) (v : Value) : List Finding :=
  if v.isArray then [.unexpectedArray v.span a.name expected]
  else if a.type.accepts v then []
  else [.typeMismatch v.span expected v.kind]

def manyFindings (cap : Option Nat) (a : Attribute) (expected : String) (v : Value) :
    List Finding :=
  match v.elements? with
  | none => [.expectedArray v.span a.name expected v.kind]
  | some elements => elementFindings cap expected v.span (a.type.failingElements elements)

/-- The faults of a value as the default of the attribute. -/
def valueFindings (cap : Option Nat) (a : Attribute) (v : Value) : List Finding :=
  match a.type.valueLabel? with
  | none => [.unsupportedDefault v.span a.name a.type.name]
  | some expected =>
    if a.many then manyFindings cap a expected v else singleFindings a expected v

def findings (cap : Option Nat) (a : Attribute) : List Finding :=
  a.defaultValue.toList.flatMap (valueFindings cap a)

/-- An attribute is announced before its default is examined. -/
def events (className : String) (a : Attribute) : List Event :=
  a.defaultValue.toList.map fun _ => .checkingDefault className a.name a.many

def check : Check where
  name := "attribute-default-value"
  visit ctx c r :=
    { report := r.addAll ((c.attributes.flatMap (findings ctx.settings.elementCap)).map
        (·.toDiagnostic ctx.file))
      events := c.attributes.flatMap (events c.name) }

end MetamodelValidation.DefaultValue
