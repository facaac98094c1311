import MetamodelValidation.Model.Basic
import MetamodelValidation.Report
import MetamodelValidation.Settings
import MetamodelValidation.Trace

/-! # Checks

A check visits the classes of a metamodel one at a time. All checks of a pass
share one report: a check usually appends to it, but it may also read what
earlier checks found, or clear it.
-/

namespace MetamodelValidation

/-- What a check knows besides the class it visits. All visits of a pass are made in one
context: a check reads it, and cannot alter it for the visits that follow. -/
structure Context where
  file : SourceFile := {}
  model : Metamodel
  settings : Settings := {}

/-- What a visit leaves: the report as it stands, and the events on the way. -/
structure Visit where
  report : Report
  events : List Event := []

/-- Makes a visit for each item in order. Each visit starts from the report that
the one before it left. -/
def Visit.each {α : Type} (visit : α → Report → Visit) : List α → Report → Visit
  | [], r => { report := r }
  | a :: as, r =>
    let first := visit a r
    let others := Visit.each visit as first.report
    ⟨others.report, first.events ++ others.events⟩

@[simp] theorem Visit.each_nil {α : Type} (visit : α → Report → Visit) (r : Report) :
    Visit.each visit [] r = { report := r } := rfl

theorem Visit.each_append {α : Type} (visit : α → Report → Visit) (as bs : List α) (r : Report) :
    Visit.each visit (as ++ bs) r =
      ⟨(Visit.each visit bs (Visit.each visit as r).report).report,
        (Visit.each visit as r).events
          ++ (Visit.each visit bs (Visit.each visit as r).report).events⟩ := by
  induction as generalizing r with
  | nil => simp
  | cons a as ih => simp [Visit.each, ih]

/-- Of what it is given, a check changes the report and nothing else. Whatever is said of
all checks is said of checks of this sort. -/
structure Check where
  name : String
  visit : Context → Class → Report → Visit

/-- Visits all classes of the metamodel, in the order of their declaration. -/
def Check.visitAll (check : Check) (ctx : Context) (r : Report) : Visit :=
  Visit.each (check.visit ctx) ctx.model.classes r

end MetamodelValidation
