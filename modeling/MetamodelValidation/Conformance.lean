import MetamodelValidation.Model.Basic

/-! # Conformance of values to data types

Each kind of data type that has literals at all is paired with the one kind of
value that is legal for it. All questions about conformance are answered from
the list of these pairings. Arrays are checked one level deep: an array inside
an array conforms to no data type.
-/

namespace MetamodelValidation

/-- The values that are legal for one kind of data type. -/
structure Pairing where
  kind : TypeKind
  accepts : Value → Bool
  /-- The name under which the legal values are announced. -/
  label : String

def pairings : List Pairing :=
  [ ⟨.boolean, Value.isBoolean, "BooleanValue"⟩,
    ⟨.string, Value.isString, "StringValue"⟩,
    ⟨.float, Value.isFloat, "FloatValue"⟩,
    ⟨.integer, Value.isInteger, "IntegerValue"⟩,
    ⟨.enumeration, Value.isEnumerationLiteral, "EnumerationLiteralValue"⟩ ]

/-- What is found when a value is held against an array of a data type. -/
inductive ArrayVerdict where
  | notArray
  | conforming
  /-- The positions, from zero and ascending, of the elements that do not conform. -/
  | failing (positions : List Nat)
deriving DecidableEq, Repr

namespace ArrayVerdict

def isConforming : ArrayVerdict → Bool
  | conforming => true
  | _ => false

def positions : ArrayVerdict → List Nat
  | failing positions => positions
  | _ => []

end ArrayVerdict

namespace DataType

/-- The pairing of the type's kind. A type without literals has none. -/
def pairing? (t : DataType) : Option Pairing :=
  t.kind?.bind fun k => pairings.find? (·.kind == k)

/-- Whether the value may be assigned to an attribute of the type that holds one
value. Nothing may be assigned to a type without literals. -/
def accepts (t : DataType) (v : Value) : Bool :=
  t.pairing?.any (·.accepts v)

/-- The name of the legal values. -/
def valueLabel? (t : DataType) : Option String :=
  t.pairing?.map (·.label)

/-- The test that the legal values pass. -/
def valueTest? (t : DataType) : Option (Value → Bool) :=
  t.pairing?.map (·.accepts)

/-- The elements that do not conform to the type, each with its position. -/
def failingElements (t : DataType) (elements : List Value) : List (Value × Nat) :=
  elements.zipIdx.filter fun e => !t.accepts e.1

/-- Holds a value against an array of the type. -/
def checkArray (t : DataType) (v : Value) : ArrayVerdict :=
  match v.elements? with
  | none => .notArray
  | some elements =>
    match t.failingElements elements with
    | [] => .conforming
    | failing => .failing (failing.map Prod.snd)

end DataType

end MetamodelValidation
