import MetamodelValidation.Location

/-! # Diagnostics

A diagnostic is a message about a place in a source file. How it is presented
is left to whoever asked for it.
-/

namespace MetamodelValidation

inductive Severity where
  | error
  | warning
  | info
  | hint
deriving DecidableEq, Repr

/-- The number of a severity in editor protocols, where one is the gravest. -/
def Severity.rank : Severity → Nat
  | error => 1
  | warning => 2
  | info => 3
  | hint => 4

/-- A second place that helps to understand a diagnostic. -/
structure RelatedPlace where
  file : SourceFile := {}
  span : Span := {}
  message : String
deriving DecidableEq, Repr

structure Diagnostic where
  file : SourceFile := {}
  span : Span := {}
  severity : Severity
  code : Option String := none
  message : String
  related : List RelatedPlace := []
deriving DecidableEq, Repr

namespace Diagnostic

/-- What a reader sees of a diagnostic: two diagnostics with one key say the
same thing of the same place. -/
abbrev Key := SourceFile × Span × String

def key (d : Diagnostic) : Key := (d.file, d.span, d.message)

/-- Keeps each diagnostic whose key is neither among `seen` nor the key of one
kept before it. -/
def distinctFrom (seen : List Key) : List Diagnostic → List Diagnostic
  | [] => []
  | d :: ds =>
    if d.key ∈ seen then distinctFrom seen ds
    else d :: distinctFrom (d.key :: seen) ds

/-- Keeps the first diagnostic of each key. -/
def distinct (ds : List Diagnostic) : List Diagnostic := distinctFrom [] ds

end Diagnostic

end MetamodelValidation
