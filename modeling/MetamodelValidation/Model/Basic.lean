import MetamodelValidation.Value.Basic

/-! # Metamodels

A metamodel declares classes with typed attributes, and enumerations. An
attribute holds one value or, if it is declared with array multiplicity, many,
and may have a default value. The declarations are taken as they were written:
names may repeat, and types may refer to classes that do not exist.
-/

namespace MetamodelValidation

/-- The kind of a data type whose values can be written as literals. -/
inductive TypeKind where
  | boolean
  | string
  | float
  | integer
  | enumeration
deriving DecidableEq, Repr

/-- The declared type of an attribute. -/
inductive DataType where
  | boolean
  | string
  | float
  | integer
  | enumeration (name : String)
  /-- Typed by a class. No literal denotes an object of a class. -/
  | reference (name : String)
deriving DecidableEq, Repr

namespace DataType

/-- The type as it is written in a declaration. -/
def name : DataType → String
  | boolean => "boolean"
  | string => "string"
  | float => "float"
  | integer => "integer"
  | enumeration name => name
  | reference name => name

def kind? : DataType → Option TypeKind
  | boolean => some .boolean
  | string => some .string
  | float => some .float
  | integer => some .integer
  | enumeration _ => some .enumeration
  | reference _ => none

end DataType

structure Attribute where
  name : String
  type : DataType
  /-- Declared with array multiplicity. -/
  many : Bool := false
  defaultValue : Option Value := none
  span : Span := {}
deriving Repr

structure Class where
  name : String
  attributes : List Attribute := []
  span : Span := {}
deriving Repr

/-- Appends an attribute to the declarations of the class. -/
def Class.addAttribute (c : Class) (a : Attribute) : Class :=
  { c with attributes := c.attributes ++ [a] }

structure Enumeration where
  name : String
  literals : List String := []
  span : Span := {}
deriving DecidableEq, Repr

structure Metamodel where
  name : String := ""
  classes : List Class := []
  enumerations : List Enumeration := []
deriving Repr

namespace Metamodel

def addClass (m : Metamodel) (c : Class) : Metamodel :=
  { m with classes := m.classes ++ [c] }

def addEnumeration (m : Metamodel) (e : Enumeration) : Metamodel :=
  { m with enumerations := m.enumerations ++ [e] }

/-- The first class declared under the name. -/
def findClass? (m : Metamodel) (name : String) : Option Class :=
  m.classes.find? (·.name == name)

end Metamodel

end MetamodelValidation
