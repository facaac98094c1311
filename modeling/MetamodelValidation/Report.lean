import MetamodelValidation.Diagnostic

/-! # Reports

A report gathers diagnostics in the order in which they are raised. Whoever
empties it decides whether repetitions are dropped.
-/

namespace MetamodelValidation

structure Report where
  entries : List Diagnostic := []
deriving DecidableEq, Repr, Inhabited

namespace Report

def add (r : Report) (d : Diagnostic) : Report := ⟨r.entries ++ [d]⟩

def addAll (r : Report) (ds : List Diagnostic) : Report := ⟨r.entries ++ ds⟩

def size (r : Report) : Nat := r.entries.length

def forFile (r : Report) (f : SourceFile) : List Diagnostic :=
  r.entries.filter (·.file == f)

def errorCount (r : Report) : Nat := r.entries.countP (·.severity == .error)

def warningCount (r : Report) : Nat := r.entries.countP (·.severity == .warning)

def hasErrors (r : Report) : Bool := r.entries.any (·.severity == .error)

/-- Hands out the entries and leaves an empty report. -/
def take (r : Report) : List Diagnostic × Report := (r.entries, {})

/-- Hands out the first entry of each key and leaves an empty report. -/
def takeDistinct (r : Report) : List Diagnostic × Report :=
  (Diagnostic.distinct r.entries, {})

def clear (_ : Report) : Report := {}

@[simp] theorem entries_empty : ({} : Report).entries = [] := rfl

@[simp] theorem entries_add (r : Report) (d : Diagnostic) :
    (r.add d).entries = r.entries ++ [d] := rfl

@[simp] theorem entries_addAll (r : Report) (ds : List Diagnostic) :
    (r.addAll ds).entries = r.entries ++ ds := rfl

@[simp] theorem take_eq (r : Report) : r.take = (r.entries, {}) := rfl

@[simp] theorem takeDistinct_eq (r : Report) :
    r.takeDistinct = (Diagnostic.distinct r.entries, {}) := rfl

@[simp] theorem clear_eq (r : Report) : r.clear = {} := rfl

end Report

end MetamodelValidation
