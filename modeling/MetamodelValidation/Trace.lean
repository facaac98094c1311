/-! # Trace events

A pass leaves a trace of what it looked at. The trace is for people who follow a
run: no result depends on it.
-/

namespace MetamodelValidation

inductive TraceLevel where
  | debug
  | trace
deriving DecidableEq, Repr

inductive Event where
  | started (model : String) (classes : Nat)
  | checkDisabled (check : String)
  | checkingDefault (className attrName : String) (many : Bool)
  | finished (model : String) (diagnostics : Nat)
deriving DecidableEq, Repr

namespace Event

def level : Event → TraceLevel
  | started _ _ => .debug
  | checkDisabled _ => .trace
  | checkingDefault _ _ _ => .trace
  | finished _ _ => .debug

def message : Event → String
  | started _ _ => "validating metamodel"
  | checkDisabled _ => "check disabled"
  | checkingDefault _ _ _ => "checking default value"
  | finished _ _ => "validation finished"

end Event

end MetamodelValidation
