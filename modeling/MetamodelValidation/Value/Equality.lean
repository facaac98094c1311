import MetamodelValidation.Value.Basic

/-! # Equality of values

Two values are equal when they have the same shape, the same spans and equal
contents. Floats are compared as numbers, so this equality is not reflexive: a
value with a NaN anywhere inside differs from itself.
-/

namespace MetamodelValidation

instance : BEq Scalar where
  beq
    | .boolean a, .boolean b => a == b
    | .string a, .string b => a == b
    | .float x, .float y => x == y
    | .integer a, .integer b => a == b
    | .literal a, .literal b => a == b
    | _, _ => false

namespace Value

mutual

def beq : Value → Value → Bool
  | scalar a s, scalar b t => a == b && s == t
  | array as s, array bs t => beqAll as bs && s == t
  | _, _ => false

/-- Equality of lists of values, element by element. -/
def beqAll : List Value → List Value → Bool
  | [], [] => true
  | a :: as, b :: bs => beq a b && beqAll as bs
  | _, _ => false

end

instance : BEq Value where
  beq := beq

end Value

end MetamodelValidation
