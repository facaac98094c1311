/-! # Binary floating point numbers by their bits

A float literal is kept as the 64 bits of its binary interchange format. The
library never computes with it: it only has to tell two floats apart the way
arithmetic does, and that is decided on the bits.
-/

namespace MetamodelValidation

/-- A binary floating point number of width 64, given by its bits. -/
structure Binary64 where
  bits : UInt64
deriving DecidableEq, Repr, Inhabited

namespace Binary64

/-- The bits without the sign. -/
def magnitude (x : Binary64) : UInt64 := x.bits &&& 0x7FFFFFFFFFFFFFFF

/-- All exponent bits are set and some fraction bit is. -/
def isNaN (x : Binary64) : Bool := 0x7FF0000000000000 < x.magnitude

/-- Holds of both the positive and the negative zero. -/
def isZero (x : Binary64) : Bool := x.magnitude == 0

/-- Numeric equality: the two zeros are equal, and a NaN equals nothing, not
even itself. On all other numbers it is equality of the bits. -/
instance : BEq Binary64 where
  beq x y := !x.isNaN && !y.isNaN && (x.bits == y.bits || x.isZero && y.isZero)

theorem beq_def (x y : Binary64) :
    (x == y) = (!x.isNaN && !y.isNaN && (x.bits == y.bits || x.isZero && y.isZero)) :=
  rfl

@[simp] theorem beq_self (x : Binary64) : (x == x) = !x.isNaN := by
  cases h : x.isNaN <;> simp [beq_def, h]

theorem beq_comm (x y : Binary64) : (x == y) = (y == x) := by
  rw [beq_def, beq_def, Bool.and_comm (!x.isNaN), Bool.and_comm x.isZero, BEq.comm]

end Binary64

end MetamodelValidation
