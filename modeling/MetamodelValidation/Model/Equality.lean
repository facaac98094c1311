import MetamodelValidation.Model.Basic
import MetamodelValidation.Value.Equality

/-! # Equality of declarations

Declarations are equal when all their parts are, spans included. As for values,
a default value that holds a NaN makes a declaration differ from itself.
-/

namespace MetamodelValidation

instance : BEq Attribute where
  beq a b := a.name == b.name && a.type == b.type && a.many == b.many
    && a.defaultValue == b.defaultValue && a.span == b.span

instance : BEq Class where
  beq c d := c.name == d.name && c.attributes == d.attributes && c.span == d.span

instance : BEq Metamodel where
  beq m n := m.name == n.name && m.classes == n.classes && m.enumerations == n.enumerations

end MetamodelValidation
