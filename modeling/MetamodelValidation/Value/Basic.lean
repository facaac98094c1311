import MetamodelValidation.Location
import MetamodelValidation.Value.Binary64

/-! # Literal values

A literal value is a scalar or an array of values, and every node remembers
where it stood in the source. Arrays may mix kinds and may be nested: which
values are legal where is a question of conformance, not of the syntax.
-/

namespace MetamodelValidation

/-- The kind of a literal value, as it is announced in diagnostics. -/
inductive ValueKind where
  | boolean
  | string
  | float
  | integer
  | enumerationLiteral
  | array
deriving DecidableEq, Repr

def ValueKind.label : ValueKind → String
  | boolean => "BooleanValue"
  | string => "StringValue"
  | float => "FloatValue"
  | integer => "IntegerValue"
  | enumerationLiteral => "EnumerationLiteralValue"
  | array => "ArrayValue"

instance : ToString ValueKind where
  toString := ValueKind.label

inductive Scalar where
  | boolean (value : Bool)
  | string (value : String)
  | float (value : Binary64)
  | integer (value : Int64)
  /-- The name of an enumeration literal, not resolved to its enumeration. -/
  | literal (name : String)
deriving Repr

def Scalar.kind : Scalar → ValueKind
  | boolean _ => .boolean
  | string _ => .string
  | float _ => .float
  | integer _ => .integer
  | literal _ => .enumerationLiteral

inductive Value where
  | scalar (content : Scalar) (span : Span)
  | array (elements : List Value) (span : Span)
deriving Repr

namespace Value

def kind : Value → ValueKind
  | scalar content _ => content.kind
  | array _ _ => .array

/-- Where the outermost node stood. -/
def span : Value → Span
  | scalar _ span => span
  | array _ span => span

/-- Moves the outermost node. The elements of an array stay where they are. -/
def withSpan (span : Span) : Value → Value
  | scalar content _ => scalar content span
  | array elements _ => array elements span

/-- The elements of an array, in the order in which they were written. -/
def elements? : Value → Option (List Value)
  | scalar _ _ => none
  | array elements _ => some elements

def isBoolean : Value → Bool
  | scalar (.boolean _) _ => true
  | _ => false

def isString : Value → Bool
  | scalar (.string _) _ => true
  | _ => false

def isFloat : Value → Bool
  | scalar (.float _) _ => true
  | _ => false

def isInteger : Value → Bool
  | scalar (.integer _) _ => true
  | _ => false

def isEnumerationLiteral : Value → Bool
  | scalar (.literal _) _ => true
  | _ => false

def isArray : Value → Bool
  | array _ _ => true
  | _ => false

end Value

end MetamodelValidation
